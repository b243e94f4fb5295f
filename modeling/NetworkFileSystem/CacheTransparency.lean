import NetworkFileSystem.LruCacheSoundness
import NetworkFileSystem.NamingServer

/-!
# The cache and the trie

READ_FILE, WRITE_FILE and GET_FILE_INFO answer from the cache if it holds the path, and from the
trie otherwise. Both agree on the address of the server as long as no registration moves a cached
path to another address and every deletion finds the cached nodes of its path.
-/

namespace NetworkFileSystem

namespace LruCache

variable {c : LruCache} {r : RecencyList} {path : Path}

theorem Represents.lruGet (h : Represents c r) (hs : c.SlotLive path) :
    (∃ c', c.lruGet path = some (c', none) ∧ Represents c' r ∧ r.lookup path = some none) ∨
      ∃ c' e, c.lruGet path = some (c', some e.ssInfo) ∧ Represents c' (r.moveToFront e) ∧
        e ∈ r.entries ∧ e.path = path := by
  obtain ⟨o, ho⟩ := h.lookup_defined hs
  have hrel := lruGet_refines h path
  rw [RecencyList.lruGet, ho, Option.map_some] at hrel
  obtain ⟨⟨c', found⟩, hget, hrep, hfound⟩ := Machine.exists_of_rel_some hrel
  cases o with
  | none =>
      obtain rfl : found = none := hfound
      exact Or.inl ⟨c', hget, hrep, ho⟩
  | some e =>
      obtain rfl : found = some e.ssInfo := hfound
      exact Or.inr ⟨c', e, hget, hrep, RecencyList.lookup_found_mem ho⟩

theorem Represents.lruPut_missed (h : Represents c r) (hl : r.lookup path = some none)
    (ssInfo : StorageServerInfo) (malloc : Bool) :
    ∃ c' r', c.lruPut path ssInfo malloc = some c' ∧ Represents c' r' ∧
      ∀ x ∈ r'.entries, x ∈ r.entries ∨ x.path = path ∧ x.ssInfo = ssInfo := by
  have hrel := lruPut_refines h path ssInfo malloc
  rw [RecencyList.lruPut, hl, Option.map_some] at hrel
  obtain ⟨c', hc', hrep⟩ := Machine.exists_of_rel_some hrel
  refine ⟨c', _, hc', hrep, fun x hx => ?_⟩
  cases malloc with
  | false => exact Or.inl (RecencyList.mem_of_makeRoom hx)
  | true =>
      rcases List.mem_cons.mp hx with rfl | hx
      · exact Or.inr ⟨rfl, rfl⟩
      · exact Or.inl (RecencyList.mem_of_makeRoom hx)

/-- The node that `lru_remove` finds is the only one that stores the path. -/
def RemovesAll (c : LruCache) (path : Path) : Prop :=
  ∀ p n, c.Linked p → c.heap p = some n → n.path = path → c.freed (.remove path) = some p

theorem Represents.lruRemove (h : Represents c r) (hs : c.SlotLive path)
    (hall : c.RemovesAll path) :
    ∃ c' r', c.lruRemove path = some c' ∧ Represents c' r' ∧
      ∀ x ∈ r'.entries, x ∈ r.entries ∧ x.path ≠ path := by
  obtain ⟨o, ho⟩ := h.lookup_defined hs
  have hrel := lruRemove_refines h path
  rw [RecencyList.lruRemove, ho, Option.map_some] at hrel
  obtain ⟨c', hc', hrep⟩ := Machine.exists_of_rel_some hrel
  have hfreed : ∀ x ∈ r.entries, x.path = path → o.map (·.ptr) = some x.ptr := fun x hx hp => by
    obtain ⟨n, hn⟩ := Option.isSome_iff_exists.mp (h.isSome_iff.mpr (RecencyList.ptr_mem hx))
    have hrem := hall x.ptr n (h.linked_iff.mpr (RecencyList.ptr_mem hx)) hn
      ((h.path_eq hx hn).1.trans hp)
    rwa [h.freed, RecencyList.freed, ho, Option.join_some] at hrem
  refine ⟨c', _, hc', hrep, fun x hx => ?_⟩
  cases o with
  | none =>
      refine ⟨hx, fun hp => ?_⟩
      cases hfreed x hx hp
  | some e =>
      obtain ⟨hx, hne⟩ := List.mem_filter.mp hx
      refine ⟨hx, fun hp => ?_⟩
      have he : e.ptr = x.ptr := by simpa using hfreed x hx hp
      simp [he] at hne

end LruCache

namespace NamingServer

variable {ns ns' : NamingServer LruCache} {msg : Message} {s : Surroundings} {path : Path}
  {slot : Slot}

/-- Handle a request and drop the reply. -/
def handle (ns : NamingServer LruCache) (req : Message × Surroundings) :
    Option (NamingServer LruCache) :=
  (ns.handleConnection req.1 req.2).map Prod.fst

/-- An accepted registration names no path that a node caches at another address; a deletion that
reaches its update finds the only cached node of its path; and no search of the cache starts at a
freed node. -/
def KeepsCacheFresh (ns : NamingServer LruCache) (req : Message × Surroundings) : Prop :=
  match req.1.operation with
  | .registerSs =>
    ns.nextSlot ≠ none → ∀ p n, ns.pathLruCache.Linked p → ns.pathLruCache.heap p = some n →
      (∃ i ∈ pathIndices req.1, n.path = (req.1.accessiblePaths.get i).str) →
      n.ssInfo.location = (req.1.ssIp.str, req.1.ssClientPort)
  | .deleteFile =>
    ns.search req.1.path.str ≠ none → req.2.exchange.Succeeded →
      ns.pathLruCache.SlotLive req.1.path.str ∧ ns.pathLruCache.RemovesAll req.1.path.str
  | .readFile | .writeFile | .getFileInfo => ns.pathLruCache.SlotLive req.1.path.str
  | _ => True

/-- The count of a registration fits the arrays. -/
def FitsArrays (msg : Message) : Prop :=
  msg.operation = .registerSs →
    0 ≤ msg.numAccessiblePaths.toInt ∧ msg.numAccessiblePaths.toInt ≤ maxAccessiblePaths

/-- Every cached path is in the trie, at the same address. -/
structure Fresh (ns : NamingServer LruCache) : Prop where
  cached : ∃ r, LruCache.Represents ns.pathLruCache r ∧ ∀ e ∈ r.entries, ∃ slot,
    ns.search e.path = some slot ∧ e.ssInfo.location = (ns.registeredSs slot).location
  registered : ∀ q slot, ns.search q = some slot → slot.val < ns.numRegisteredSs.val
  cursor : ns.currentSsIndex.val ≤ ns.numRegisteredSs.val - 1

/-- The handler is defined and keeps the cache fresh. -/
def Keeps (x : Option (NamingServer LruCache × Message)) : Prop :=
  ∃ ns reply, x = some (ns, reply) ∧ ns.Fresh

theorem fresh_init : (init LruCache.lruInit).Fresh where
  cached := ⟨_, LruCache.represents_lruInit, by simp [RecencyList.init]⟩
  registered := by simp
  cursor := by simp [init]

theorem Fresh.recordPath (h : ns.Fresh) (hnew : ns.search path = none)
    (hslot : slot.val < ns.numRegisteredSs.val) : (ns.recordPath path slot).Fresh := by
  obtain ⟨r, hrep, hcached⟩ := h.cached
  refine ⟨⟨r, hrep, fun e he => ?_⟩, fun q j hq => ?_, h.cursor⟩
  · obtain ⟨j, hj, hloc⟩ := hcached e he
    have hne : e.path ≠ path := fun hp => by simp [← hp, hj] at hnew
    refine ⟨j, by rw [search_recordPath, if_neg hne, hj], hloc.trans ?_⟩
    exact StorageServerInfo.location_congr (address_recordPath ns path slot j).symm
  · rw [search_recordPath] at hq
    split_ifs at hq with hqp
    · exact Option.some.inj hq ▸ hslot
    · exact h.registered q j hq

theorem Fresh.getAvailable (h : ns.Fresh) (hget : ns.getAvailableSsForCreation = some (slot, ns')) :
    ns'.Fresh ∧ slot.val < ns'.numRegisteredSs.val ∧ ∀ q, ns'.search q = ns.search q := by
  obtain ⟨hpos, rfl, hcur, hns'⟩ := getAvailableSsForCreation_eq_some hget
  have hlt : ns'.currentSsIndex.val < ns.numRegisteredSs.val := hcur ▸ Nat.mod_lt _ hpos
  rw [hns']
  refine ⟨⟨h.cached, h.registered, Nat.le_sub_one_of_lt hlt⟩, ?_, fun _ => rfl⟩
  exact Nat.lt_of_le_sub_one hpos h.cursor

theorem Fresh.conclude (h : ns.Fresh) {exchange : Exchange}
    {update : NamingServer LruCache → Option (NamingServer LruCache)}
    (hupdate : exchange.Succeeded → ∃ ns', update ns = some ns' ∧ ns'.Fresh) :
    Keeps (ns.conclude exchange update) := by
  cases exchange with
  | replied response =>
      by_cases hs : response.Succeeded
      · obtain ⟨ns', hns', h'⟩ := hupdate ⟨response, rfl, hs⟩
        exact ⟨ns', .ack, by simp [NamingServer.conclude, Exchange.result, hs, hns'], h'⟩
      · exact ⟨ns, .nack response.errorCode,
          by simp [NamingServer.conclude, Exchange.result, hs], h⟩
  | _ => exact ⟨ns, _, rfl, h⟩

theorem Fresh.createFile (h : ns.Fresh) (msg : Message) (s : Surroundings) :
    Keeps (ns.createFile msg s) := by
  rw [NamingServer.createFile]
  cases hp : ns.search msg.path.str with
  | some _ => exact ⟨ns, _, rfl, h⟩
  | none =>
      cases hget : ns.getAvailableSsForCreation with
      | none => exact ⟨ns, _, rfl, h⟩
      | some found =>
          obtain ⟨h', hslot, hsearch⟩ := h.getAvailable hget
          exact h'.conclude fun _ => ⟨_, rfl, h'.recordPath ((hsearch _).trans hp) hslot⟩

theorem Fresh.copyFile (h : ns.Fresh) (msg : Message) (s : Surroundings) :
    Keeps (ns.copyFile msg s) := by
  rw [NamingServer.copyFile]
  cases ns.search msg.path.str with
  | none => exact ⟨ns, _, rfl, h⟩
  | some _ =>
      cases hq : ns.search msg.path2.str with
      | some _ => exact h.conclude fun _ => ⟨ns, rfl, h⟩
      | none =>
          cases hget : ns.getAvailableSsForCreation with
          | none => exact ⟨ns, _, rfl, h⟩
          | some found =>
              obtain ⟨h', hslot, hsearch⟩ := h.getAvailable hget
              exact h'.conclude fun _ => ⟨_, rfl, h'.recordPath ((hsearch _).trans hq) hslot⟩

theorem Fresh.deleteFile (h : ns.Fresh)
    (hcache : ns.search msg.path.str ≠ none → s.exchange.Succeeded →
      ns.pathLruCache.SlotLive msg.path.str ∧ ns.pathLruCache.RemovesAll msg.path.str) :
    Keeps (ns.deleteFile msg s) := by
  rw [NamingServer.deleteFile]
  cases hp : ns.search msg.path.str with
  | none => exact ⟨ns, _, rfl, h⟩
  | some slot =>
      refine h.conclude fun hs => ?_
      obtain ⟨hlive, hall⟩ := hcache (by simp [hp]) hs
      obtain ⟨r, hrep, hcached⟩ := h.cached
      obtain ⟨c', r', hc', hrep', hentries⟩ := hrep.lruRemove hlive hall
      refine ⟨(ns.dropPath msg.path.str).forgetPath msg.path.str slot c',
        by rw [dropPath, hc']; rfl, ⟨r', hrep', fun e he => ?_⟩, fun q j hq => ?_, h.cursor⟩
      · obtain ⟨he, hne⟩ := hentries e he
        obtain ⟨j, hj, hloc⟩ := hcached e he
        refine ⟨j, (search_dropPath ns _ _).trans ((if_neg hne).trans hj), hloc.trans ?_⟩
        exact StorageServerInfo.location_congr
          (address_forgetPath (ns.dropPath msg.path.str) msg.path.str slot j c').symm
      · have hq' := (search_dropPath ns msg.path.str q).symm.trans hq
        split_ifs at hq'
        exact h.registered q j hq'

theorem lookUp_cached {cache : LruCache} {info : StorageServerInfo}
    (h : ns.pathLruCache.lruGet msg.path.str = some (cache, some info)) :
    ns.lookUp msg s = some ({ ns with pathLruCache := cache }, .answerLookup (some info)) := by
  simp only [lookUp, h, Option.bind_eq_bind, Option.bind_some]

theorem lookUp_absent {cache : LruCache}
    (h : ns.pathLruCache.lruGet msg.path.str = some (cache, none))
    (hsearch : ns.search msg.path.str = none) :
    ns.lookUp msg s = some ({ ns with pathLruCache := cache }, .answerLookup none) := by
  have hmap : (ns.search msg.path.str).map ns.registeredSs = none := by rw [hsearch]; rfl
  unfold search at hmap
  simp only [lookUp, search, h, hmap, Option.bind_eq_bind, Option.bind_some]

/-- A path found in the trie is stored in the cache. -/
theorem lookUp_missed {cache : LruCache} {slot : Slot}
    (h : ns.pathLruCache.lruGet msg.path.str = some (cache, none))
    (hsearch : ns.search msg.path.str = some slot) :
    ns.lookUp msg s =
      (cache.lruPut msg.path.str (ns.registeredSs slot) s.malloc).map fun cache =>
        ({ ns with pathLruCache := cache }, .answerLookup (some (ns.registeredSs slot))) := by
  have hmap : (ns.search msg.path.str).map ns.registeredSs = some (ns.registeredSs slot) := by
    rw [hsearch]; rfl
  unfold search at hmap
  simp only [lookUp, search, h, hmap, Option.bind_eq_bind, Option.bind_some]
  rw [Option.map_eq_bind]
  rfl

/-- A lookup is answered as the trie has it. -/
theorem Fresh.lookUp (h : ns.Fresh) (hlive : ns.pathLruCache.SlotLive msg.path.str) :
    ∃ ns', ns.lookUp msg s =
        some (ns', .answerLookup ((ns.search msg.path.str).map ns.registeredSs)) ∧ ns'.Fresh := by
  obtain ⟨r, hrep, hcached⟩ := h.cached
  rcases hrep.lruGet hlive with ⟨c', hget, hrep', hl⟩ | ⟨c', e, hget, hrep', he, hpath⟩
  · cases hp : ns.search msg.path.str with
    | none =>
        exact ⟨{ ns with pathLruCache := c' }, lookUp_absent hget hp, ⟨r, hrep', hcached⟩,
          h.registered, h.cursor⟩
    | some slot =>
        obtain ⟨c'', r'', hput, hrep'', hentries⟩ :=
          hrep'.lruPut_missed hl (ns.registeredSs slot) s.malloc
        refine ⟨{ ns with pathLruCache := c'' }, ?_, ⟨r'', hrep'', fun x hx => ?_⟩, h.registered,
          h.cursor⟩
        · rw [lookUp_missed hget hp, hput]
          rfl
        · rcases hentries x hx with hx | ⟨hxp, hinfo⟩
          · exact hcached x hx
          · exact ⟨slot, hxp ▸ hp, by rw [hinfo]⟩
  · obtain ⟨slot, hslot, hloc⟩ := hcached e he
    refine ⟨{ ns with pathLruCache := c' }, ?_, ⟨_, hrep', fun x hx => ?_⟩, h.registered,
      h.cursor⟩
    · rw [lookUp_cached hget, ← hpath, hslot, Option.map_some]
      exact congrArg (fun m => some (_, m)) (Message.located_congr hloc)
    · exact hcached x (RecencyList.mem_of_moveToFront he hx)

theorem Fresh.registerSs (h : ns.Fresh)
    (hfits : 0 ≤ msg.numAccessiblePaths.toInt ∧ msg.numAccessiblePaths.toInt ≤ maxAccessiblePaths)
    (hmoved : ns.nextSlot ≠ none → ∀ p n, ns.pathLruCache.Linked p →
      ns.pathLruCache.heap p = some n →
      (∃ i ∈ pathIndices msg, n.path = (msg.accessiblePaths.get i).str) →
      n.ssInfo.location = (msg.ssIp.str, msg.ssClientPort)) :
    Keeps (ns.registerSs msg) := by
  rw [NamingServer.registerSs]
  cases hnext : ns.nextSlot with
  | none => exact ⟨ns, _, rfl, h⟩
  | some slot =>
      obtain ⟨ns₁, hstore⟩ : ∃ ns₁, ns.storeSs msg slot = some ns₁ := by
        rw [storeSs, dif_pos hfits]
        exact ⟨_, rfl⟩
      obtain ⟨haddress, hns₁, hother⟩ := storeSs_eq_some hstore
      obtain ⟨hfold, hcache, hcursor⟩ :=
        foldl_registerPath_frame slot msg (pathIndices msg) ns₁
      let ns₂ := (pathIndices msg).foldl (·.registerPath msg slot ·) ns₁
      have hnum := nextSlot_eq_some hnext
      have hsearch : ∀ q, ns₂.search q =
          if ∃ i ∈ pathIndices msg, q = (msg.accessiblePaths.get i).str then some slot
          else ns.search q := fun q => by
        rw [search_foldl_registerPath, hns₁]
        rfl
      obtain ⟨r, hrep, hcached⟩ := h.cached
      refine ⟨ns₂.countSs slot, .ack, congrArg (Option.map _) hstore, ⟨r, ?_, fun e he => ?_⟩,
        fun q j hq => ?_, ?_⟩
      · change LruCache.Represents ns₂.pathLruCache r
        rwa [hcache, hns₁]
      · change ∃ j, ns₂.search e.path = some j ∧ _ = (ns₂.registeredSs j).location
        rw [hsearch]
        split_ifs with hnamed
        · obtain ⟨n, hn⟩ := Option.isSome_iff_exists.mp
            (hrep.isSome_iff.mpr (RecencyList.ptr_mem he))
          obtain ⟨hpath, hinfo⟩ := hrep.path_eq he hn
          have hloc := hmoved (by simp [hnext]) e.ptr n
            (hrep.linked_iff.mpr (RecencyList.ptr_mem he)) hn (hpath ▸ hnamed)
          have haddr : (ns₂.registeredSs slot).address = _ := (hfold slot).trans haddress
          refine ⟨slot, rfl, ?_⟩
          rw [← hinfo, hloc]
          exact congrArg (fun a : CString × Int32 × Int32 => (a.1, a.2.2)) haddr.symm
        · obtain ⟨j, hj, hloc⟩ := hcached e he
          have hne : j ≠ slot := fun hjs => by
            have hlt := h.registered _ _ hj
            rw [hjs, hnum] at hlt
            exact hlt.ne rfl
          refine ⟨j, hj, hloc.trans (StorageServerInfo.location_congr ?_)⟩
          rw [← hother j hne]
          exact (hfold j).symm
      · change j.val < slot.val + 1
        replace hq : ns₂.search q = some j := hq
        rw [hsearch] at hq
        split_ifs at hq
        · exact Option.some.inj hq ▸ Nat.lt_succ_self _
        · exact (hnum ▸ h.registered q j hq).trans (Nat.lt_succ_self _)
      · change ns₂.currentSsIndex.val ≤ slot.val + 1 - 1
        rw [hcursor, hns₁, hnum]
        exact h.cursor.trans (Nat.sub_le _ _)

/-- Every allowed request is handled, and leaves the cache fresh. -/
theorem Fresh.handleConnection (h : ns.Fresh) (hfits : FitsArrays msg)
    (hkeeps : ns.KeepsCacheFresh (msg, s)) : Keeps (ns.handleConnection msg s) := by
  rw [NamingServer.handleConnection]
  rw [KeepsCacheFresh] at hkeeps
  split
  · next hop =>
      rw [hop] at hkeeps
      exact h.registerSs (hfits hop) hkeeps
  · exact ⟨ns, _, rfl, h⟩
  · exact h.createFile msg s
  · next hop =>
      rw [hop] at hkeeps
      exact h.deleteFile hkeeps
  · exact h.copyFile msg s
  all_goals first
    | next hop =>
        rw [hop] at hkeeps
        obtain ⟨ns', hns', h'⟩ := h.lookUp hkeeps
        exact ⟨ns', _, hns', h'⟩
    | exact ⟨ns, _, rfl, h⟩

/-- The registration of a server that has the path `/a`. -/
def registerA (clientPort : Int32) : Message × Surroundings :=
  ({ Message.zero with
      operation := .registerSs
      ssIp := .ofBytes _ [49]
      ssClientPort := clientPort
      accessiblePaths := .cons (.ofBytes _ [47, 97]) (.replicate 9 (.ofBytes _ []))
      numAccessiblePaths := 1 },
    ⟨.receiveFailed, true, fun _ => 0⟩)

def readA : Message × Surroundings :=
  ({ Message.zero with operation := .readFile, path := .ofBytes _ [47, 97] },
    ⟨.receiveFailed, true, fun _ => 0⟩)

end NamingServer
end NetworkFileSystem
