import NetworkFileSystem.CacheTransparency

/-!
# The naming server as a directory

The purpose of the trie and of the path arrays: a partial map from paths to server slots and a
list of paths for each slot. The naming server refines it, request by request.
-/

namespace NetworkFileSystem

namespace StorageServerInfo

/-- The used part of `accessible_paths`. -/
def paths (info : StorageServerInfo) : List Path :=
  info.accessiblePaths.toList.take info.numAccessiblePaths.val

variable (info : StorageServerInfo) (path : Path)

theorem length_paths : info.paths.length = info.numAccessiblePaths.val := by
  rw [paths, List.length_take, List.Vector.toList_length]
  have := info.numAccessiblePaths.isLt
  omega

theorem getElem_paths {i : ℕ} (hi : i < info.paths.length) (h : i < maxAccessiblePaths) :
    info.paths[i] = info.accessiblePaths.get ⟨i, h⟩ := by
  simp only [paths, List.getElem_take]
  rw [List.Vector.get_eq_get_toList]
  rfl

/-- The list of a record is determined by its length and its entries. -/
theorem paths_eq {l : List Path} (hlen : l.length = info.numAccessiblePaths.val)
    (hget : ∀ (i : ℕ) (hi : i < l.length) (h : i < maxAccessiblePaths),
      l[i] = info.accessiblePaths.get ⟨i, h⟩) : info.paths = l := by
  refine List.ext_getElem (by rw [length_paths, hlen]) fun i hi hi' => ?_
  have hlt : i < maxAccessiblePaths := by
    have := info.numAccessiblePaths.isLt
    omega
  rw [getElem_paths info hi hlt, hget i hi' hlt]

theorem paths_appendPath : (info.appendPath path).paths =
    if info.paths.length < maxAccessiblePaths then info.paths ++ [path] else info.paths := by
  rw [length_paths, appendPath]
  split_ifs with h
  · refine paths_eq _ (by simp [length_paths]) fun i hi hlt => ?_
    rw [List.getElem_append]
    split_ifs with hold
    · rw [getElem_paths info hold hlt]
      rw [length_paths] at hold
      rw [List.Vector.get_set_of_ne (by simpa [Fin.ext_iff] using hold.ne')]
    · rw [length_paths] at hold
      simp only [List.length_append, List.length_singleton, length_paths] at hi
      obtain rfl : i = info.numAccessiblePaths.val := by omega
      simp
  · rfl

theorem erase_paths {i : Fin maxAccessiblePaths} (hi : i.val < info.numAccessiblePaths.val)
    (hpath : info.accessiblePaths.get i = path)
    (hfirst : ∀ j < i, info.accessiblePaths.get j ≠ path) :
    info.paths.erase path = info.paths.eraseIdx i.val := by
  have hlen : i.val < info.paths.length := by rwa [length_paths]
  refine List.erase_eq_eraseIdx_of_idxOf ((List.findIdx_eq hlen).mpr ⟨?_, fun j hj => ?_⟩)
  · rw [getElem_paths info hlen i.isLt]
    exact beq_of_eq hpath
  · rw [getElem_paths info (hj.trans hlen) (hj.trans i.isLt)]
    exact beq_false_of_ne (hfirst ⟨j, hj.trans i.isLt⟩ hj)

theorem paths_removePath : (info.removePath path).paths = info.paths.erase path := by
  rw [removePath]
  split
  next hnone =>
    rw [List.erase_of_not_mem]
    intro hmem
    obtain ⟨i, hi, hpath⟩ := List.getElem_of_mem hmem
    have hlt : i < info.numAccessiblePaths.val := by rwa [length_paths] at hi
    have hi' : i < maxAccessiblePaths := by
      have := info.numAccessiblePaths.isLt
      omega
    rw [getElem_paths info hi hi'] at hpath
    simpa [hlt, hpath] using List.find?_eq_none.mp hnone ⟨i, hi'⟩ (List.mem_finRange _)
  next i hsome =>
    obtain ⟨hfound, k, hk, hki, hfirst⟩ := List.find?_eq_some_iff_getElem.mp hsome
    obtain ⟨hi, hpath⟩ := of_decide_eq_true hfound
    have hki : k = i.val := by simpa using congrArg Fin.val hki
    rw [erase_paths info path hi hpath fun j hj => by
      have := hfirst j.val (hki ▸ hj)
      simp only [List.getElem_finRange] at this
      simpa [(Fin.lt_def.mp hj).trans hi] using this]
    refine paths_eq _ ?_ fun j hj hlt => ?_
    · rw [List.length_eraseIdx_of_lt (by rwa [length_paths]), length_paths]
    · rw [List.length_eraseIdx_of_lt (by rwa [length_paths]), length_paths] at hj
      rw [List.getElem_eraseIdx, List.Vector.get_ofFn]
      split_ifs with hji hshift hshift
      · exact absurd hshift.1 (not_le.mpr (Fin.lt_def.mpr hji))
      · rw [getElem_paths]
      · rw [getElem_paths]
      · exact absurd ⟨Fin.le_def.mpr (not_lt.mp hji), by simp; omega⟩ hshift

end StorageServerInfo

namespace Message

/-- The paths that a registration names. -/
def listedPaths (msg : Message) : List Path :=
  (NamingServer.pathIndices msg).map fun i => (msg.accessiblePaths.get i).str

theorem length_listedPaths (msg : Message) :
    msg.listedPaths.length = min msg.numAccessiblePaths.toInt.toNat maxAccessiblePaths := by
  rw [listedPaths, List.length_map, NamingServer.pathIndices, List.length_take,
    List.length_finRange]

end Message

/-- What the naming server is for. -/
@[ext]
structure Directory where
  map : Path → Option Slot
  lists : Slot → List Path
  count : Fin (maxSs + 1)
  cursor : Slot

namespace Directory

def empty : Directory := ⟨fun _ => none, fun _ => [], 0, 0⟩

/-- The next free slot. -/
def free (d : Directory) : Option Slot := if h : d.count.val < maxSs then some ⟨_, h⟩ else none

/-- The slot for a new file, chosen in turn. -/
def pick (d : Directory) : Option (Slot × Directory) :=
  if h : 0 < d.count.val then
    some (d.cursor,
      { d with cursor := ⟨(d.cursor + 1) % d.count.val,
          (Nat.mod_lt _ h).trans_le (Nat.lt_succ_iff.mp d.count.isLt)⟩ })
  else none

/-- A new server with these paths. -/
def register (d : Directory) (paths : List Path) (slot : Slot) : Directory :=
  { d with
    map := paths.foldl (fun map path => Function.update map path (some slot)) d.map
    lists := Function.update d.lists slot paths
    count := slot.succ }

def record (d : Directory) (path : Path) (slot : Slot) : Directory :=
  { d with
    map := Function.update d.map path (some slot)
    lists := Function.update d.lists slot
      (if (d.lists slot).length < maxAccessiblePaths then d.lists slot ++ [path]
       else d.lists slot) }

def forget (d : Directory) (path : Path) (slot : Slot) : Directory :=
  { d with
    map := Function.update d.map path none
    lists := Function.update d.lists slot ((d.lists slot).erase path) }

/-- How a request goes: it is answered without a storage server, with `none` for a reply that the
directory does not decide; or the storage server `server` is asked about a file of `target`, and
the directory is `failed` or `succeeded` in the end. -/
inductive Course
  | answered (d : Directory) (reply : Option Message)
  | asked (server target : Slot) (failed succeeded : Directory)

def course (d : Directory) (msg : Message) : Course :=
  match msg.operation with
  | .registerSs =>
    match d.free with
    | none => .answered d (some (.nack .ssUnavailable))
    | some slot => .answered (d.register msg.listedPaths slot) (some .ack)
  | .createFile =>
    match d.map msg.path.str, d.pick with
    | some _, _ => .answered d (some (.nack .fileExists))
    | none, none => .answered d (some (.nack .ssUnavailable))
    | none, some (slot, d) => .asked slot slot d (d.record msg.path.str slot)
  | .deleteFile =>
    match d.map msg.path.str with
    | none => .answered d (some (.nack .fileNotFound))
    | some slot => .asked slot slot d (d.forget msg.path.str slot)
  | .copyFile =>
    match d.map msg.path.str, d.map msg.path2.str, d.pick with
    | none, _, _ => .answered d (some (.nack .fileNotFound))
    | some source, some target, _ => .asked source target d d
    | some _, none, none => .answered d (some (.nack .ssUnavailable))
    | some source, none, some (target, d) =>
      .asked source target d (d.record msg.path2.str target)
  | .listPaths | .readFile | .writeFile | .getFileInfo => .answered d none
  | _ => .answered d (some (.nack .invalidOperation))

namespace Course

/-- The server asked, and the server of the file. -/
def contact : Course → Option (Slot × Slot)
  | answered _ _ => none
  | asked server target _ _ => some (server, target)

def directory (exchange : Exchange) : Course → Directory
  | answered d _ => d
  | asked _ _ failed succeeded => if exchange.Succeeded then succeeded else failed

def reply (exchange : Exchange) : Course → Option Message
  | answered _ r => r
  | asked _ _ _ _ =>
    some <| match exchange.result with
      | .error code => .nack code
      | .ok response => if response.Succeeded then .ack else .nack response.errorCode

end Course

def handle (d : Directory) (req : Message × Surroundings) : Directory :=
  (d.course req.1).directory req.2.exchange

/-- The directory after these requests. -/
def after (reqs : List (Message × Surroundings)) : Directory := reqs.foldl handle empty

end Directory

namespace NamingServer

section

variable {κ : Type} (ns : NamingServer κ) (path : Path) (slot : Slot) (msg : Message)

/-- The directory that the trie and the path arrays hold. -/
def directory (ns : NamingServer κ) : Directory where
  map := ns.search
  lists := fun slot => (ns.registeredSs slot).paths
  count := ns.numRegisteredSs
  cursor := ns.currentSsIndex

/-- The storage server that the handler turns to, and the request that it sends there. -/
def forwards (ns : NamingServer κ) (msg : Message) : Option (Slot × Message) :=
  match msg.operation with
  | .createFile =>
    match ns.search msg.path.str with
    | some _ => none
    | none => ns.getAvailableSsForCreation.map fun found => (found.1, msg)
  | .deleteFile => (ns.search msg.path.str).map (·, msg)
  | .copyFile =>
    (ns.search msg.path.str).bind fun source =>
      match ns.search msg.path2.str with
      | some dest => some (source, msg.copyRequest (ns.registeredSs dest))
      | none => ns.getAvailableSsForCreation.map fun found =>
          (source, msg.copyRequest (ns.registeredSs found.1))
  | _ => none

theorem directory_init (cache : κ) : (init cache).directory = .empty := by
  ext path
  · simp [directory, Directory.empty]
  · simp [directory, init, Directory.empty, StorageServerInfo.paths, StorageServerInfo.zero]
  · rfl
  · rfl

theorem lists_updateSs (f : StorageServerInfo → StorageServerInfo) :
    (fun j => ((ns.updateSs slot f).registeredSs j).paths) =
      Function.update (fun j => (ns.registeredSs j).paths) slot
        (f (ns.registeredSs slot)).paths := by
  funext j
  by_cases hj : j = slot
  · subst hj
    simp [updateSs]
  · simp [updateSs, hj]

theorem directory_recordPath :
    (ns.recordPath path slot).directory = ns.directory.record path slot := by
  ext1
  · funext q
    exact (search_recordPath ns path q slot).trans (Function.update_apply ..).symm
  · refine (lists_updateSs ns slot (·.appendPath path)).trans ?_
    rw [StorageServerInfo.paths_appendPath]
    rfl
  · rfl
  · rfl

theorem directory_forgetPath (cache : κ) :
    ((ns.dropPath path).forgetPath path slot cache).directory =
      ns.directory.forget path slot := by
  ext1
  · funext q
    exact (search_dropPath ns path q).trans (Function.update_apply ..).symm
  · refine (lists_updateSs (ns.dropPath path) slot (·.removePath path)).trans ?_
    rw [StorageServerInfo.paths_removePath]
    rfl
  · rfl
  · rfl

theorem map_directory : ns.directory.map = ns.search := rfl

theorem free_directory : ns.directory.free = ns.nextSlot := rfl

theorem pick_directory :
    ns.directory.pick =
      ns.getAvailableSsForCreation.map fun found => (found.1, found.2.directory) := by
  rw [Directory.pick, getAvailableSsForCreation]
  change (if h : 0 < ns.numRegisteredSs.val then _ else _) = _
  split_ifs <;> rfl

variable {ns path slot msg}

theorem registeredSs_foldl_registerPath (l : List (Fin maxAccessiblePaths))
    (ns : NamingServer κ) :
    (l.foldl (·.registerPath msg slot ·) ns).registeredSs =
      Function.update ns.registeredSs slot
        { ns.registeredSs slot with
          accessiblePaths := l.foldl (fun v i => v.set i (msg.accessiblePaths.get i).str)
            (ns.registeredSs slot).accessiblePaths } := by
  induction l generalizing ns with
  | nil => exact (Function.update_eq_self slot _).symm
  | cons i l ih =>
      rw [List.foldl_cons, ih]
      simp [registerPath, updateSs]

theorem get_foldl_set {β : Type} {n : ℕ} (f : Fin n → β) (l : List (Fin n)) (i : Fin n) :
    ∀ v : List.Vector β n, (l.foldl (fun v i => v.set i (f i)) v).get i =
      if i ∈ l then f i else v.get i := by
  induction l with
  | nil => simp
  | cons k l ih =>
      intro v
      rw [List.foldl_cons, ih]
      by_cases hl : i ∈ l
      · rw [if_pos hl, if_pos (List.mem_cons_of_mem _ hl)]
      · by_cases hik : i = k
        · subst hik
          simp [hl]
        · simp [hl, hik, List.Vector.get_set_of_ne (Ne.symm hik)]

theorem mem_pathIndices {i : Fin maxAccessiblePaths} :
    i ∈ pathIndices msg ↔ i.val < msg.numAccessiblePaths.toInt.toNat := by
  rw [pathIndices, List.mem_take_iff_getElem]
  constructor
  · rintro ⟨k, hk, hki⟩
    have hki : k = i.val := by simpa using congrArg Fin.val hki
    omega
  · intro hi
    exact ⟨i.val, by simpa using hi, by simp⟩

theorem map_foldl_registerPath (l : List (Fin maxAccessiblePaths)) :
    (l.foldl (·.registerPath msg slot ·) ns).search =
      (l.map fun i => (msg.accessiblePaths.get i).str).foldl
        (fun map path => Function.update map path (some slot)) ns.search := by
  induction l generalizing ns with
  | nil => rfl
  | cons i l ih =>
      rw [List.foldl_cons, ih, List.map_cons, List.foldl_cons]
      congr 1
      funext q
      rw [search_registerPath, Function.update_apply]

theorem storeSs_count {ns' : NamingServer κ} (h : ns.storeSs msg slot = some ns') :
    (ns'.registeredSs slot).numAccessiblePaths.val = msg.numAccessiblePaths.toInt.toNat := by
  rw [storeSs] at h
  split_ifs at h
  obtain rfl := Option.some.inj h
  simp [updateSs]

theorem directory_registerSs {ns' : NamingServer κ} (h : ns.storeSs msg slot = some ns') :
    (((pathIndices msg).foldl (·.registerPath msg slot ·) ns').countSs slot).directory =
      ns.directory.register msg.listedPaths slot := by
  obtain ⟨-, -, hother⟩ := storeSs_eq_some h
  obtain ⟨hsearch, -, hcursor, -⟩ := storeSs_frame h
  have hcount := storeSs_count h
  have hrecord : ((pathIndices msg).foldl (·.registerPath msg slot ·) ns').registeredSs = _ :=
    registeredSs_foldl_registerPath (pathIndices msg) ns'
  refine Directory.ext ?_ ?_ rfl ?_
  · refine (map_foldl_registerPath _).trans ?_
    rw [funext hsearch]
    rfl
  · funext j
    change (((pathIndices msg).foldl (·.registerPath msg slot ·) ns').registeredSs j).paths =
      Function.update ns.directory.lists slot msg.listedPaths j
    rw [hrecord]
    by_cases hj : j = slot
    · subst hj
      rw [Function.update_self, Function.update_self]
      refine StorageServerInfo.paths_eq _ ?_ fun i hi hlt => ?_
      · refine (Message.length_listedPaths msg).trans ?_
        change _ = (ns'.registeredSs j).numAccessiblePaths.val
        omega
      · change _ = List.Vector.get (List.foldl _ _ _) _
        have hi' : i < msg.numAccessiblePaths.toInt.toNat := by
          rw [Message.length_listedPaths] at hi
          omega
        rw [get_foldl_set (fun i => (msg.accessiblePaths.get i).str),
          if_pos (mem_pathIndices.mpr hi')]
        simp [Message.listedPaths, pathIndices]
    · rw [Function.update_of_ne hj, Function.update_of_ne hj, hother j hj]
      rfl
  · change ((pathIndices msg).foldl (·.registerPath msg slot ·) ns').currentSsIndex = _
    exact (foldl_registerPath_frame slot msg _ ns').2.2.trans hcursor

/-- The outcome of a handler is the one of the course. -/
def Follows (x : Option (NamingServer κ × Message)) (course : Directory.Course)
    (exchange : Exchange) : Prop :=
  ∀ ns' reply, x = some (ns', reply) →
    ns'.directory = course.directory exchange ∧ ∀ r ∈ course.reply exchange, reply = r

theorem Follows.answered {reply : Message} {exchange : Exchange} :
    Follows (some (ns, reply)) (.answered ns.directory (some reply)) exchange := by
  rintro ns' reply' h
  obtain ⟨rfl, rfl⟩ := Prod.mk.inj (Option.some.inj h)
  exact ⟨rfl, fun _ h => Option.some.inj h⟩

theorem Follows.conclude {update : NamingServer κ → Option (NamingServer κ)} {after : Directory}
    (hupdate : ∀ ns', update ns = some ns' → ns'.directory = after) (server target : Slot)
    (exchange : Exchange) :
    Follows (ns.conclude exchange update) (.asked server target ns.directory after) exchange := by
  intro ns' reply h
  cases exchange with
  | replied response =>
      simp only [NamingServer.conclude, Exchange.result] at h
      by_cases hs : response.Succeeded
      · have hexchange : (Exchange.replied response).Succeeded := ⟨response, rfl, hs⟩
        rw [if_pos hs, Option.map_eq_some_iff] at h
        obtain ⟨ns'', hns, heq⟩ := h
        obtain ⟨rfl, rfl⟩ := Prod.mk.inj heq
        refine ⟨(hupdate _ hns).trans (if_pos hexchange).symm, fun r hr => ?_⟩
        simpa [Directory.Course.reply, Exchange.result, hs] using hr
      · have hexchange : ¬(Exchange.replied response).Succeeded := by
          rintro ⟨response', heq, hs'⟩
          cases heq
          exact hs hs'
        rw [if_neg hs] at h
        obtain ⟨rfl, rfl⟩ := Prod.mk.inj (Option.some.inj h)
        refine ⟨(if_neg hexchange).symm, fun r hr => ?_⟩
        simpa [Directory.Course.reply, Exchange.result, hs] using hr
  | _ =>
      obtain ⟨rfl, rfl⟩ := Prod.mk.inj (Option.some.inj h)
      exact ⟨rfl, fun _ hr => Option.some.inj hr⟩

theorem follows_registerSs (s : Surroundings) (hop : msg.operation = .registerSs) :
    Follows (ns.registerSs msg) (ns.directory.course msg) s.exchange := by
  simp only [registerSs, Directory.course, hop, free_directory]
  cases ns.nextSlot with
  | none => exact .answered
  | some slot =>
      rintro ns' reply h
      obtain ⟨ns₁, hstore, heq⟩ := Option.map_eq_some_iff.mp h
      obtain ⟨rfl, rfl⟩ := Prod.mk.inj heq
      exact ⟨directory_registerSs hstore, fun _ h => Option.some.inj h⟩

theorem follows_createFile (s : Surroundings) (hop : msg.operation = .createFile) :
    Follows (ns.createFile msg s) (ns.directory.course msg) s.exchange := by
  simp only [createFile, Directory.course, hop, map_directory, pick_directory]
  cases ns.search msg.path.str with
  | some _ => exact .answered
  | none =>
      cases ns.getAvailableSsForCreation with
      | none => exact .answered
      | some found =>
          refine .conclude (fun ns' h => ?_) _ _ _
          rw [← Option.some.inj h]
          exact directory_recordPath ..

theorem follows_copyFile (s : Surroundings) (hop : msg.operation = .copyFile) :
    Follows (ns.copyFile msg s) (ns.directory.course msg) s.exchange := by
  simp only [copyFile, Directory.course, hop, map_directory, pick_directory]
  cases ns.search msg.path.str with
  | none => exact .answered
  | some source =>
      cases ns.search msg.path2.str with
      | some target =>
          exact .conclude (fun ns' h => congrArg directory (Option.some.inj h).symm) _ _ _
      | none =>
          cases ns.getAvailableSsForCreation with
          | none => exact .answered
          | some found =>
              refine .conclude (fun ns' h => ?_) _ _ _
              rw [← Option.some.inj h]
              exact directory_recordPath ..

theorem follows_deleteFile {ns : NamingServer LruCache} (s : Surroundings)
    (hop : msg.operation = .deleteFile) :
    Follows (ns.deleteFile msg s) (ns.directory.course msg) s.exchange := by
  simp only [deleteFile, Directory.course, hop, map_directory]
  cases ns.search msg.path.str with
  | none => exact .answered
  | some slot =>
      refine .conclude (fun ns' h => ?_) _ _ _
      obtain ⟨cache, -, rfl⟩ := Option.map_eq_some_iff.mp h
      exact directory_forgetPath ..

/-- A lookup changes nothing but the cache. -/
theorem lookUp_frame {ns ns' : NamingServer LruCache} {s : Surroundings} {reply : Message}
    (h : ns.lookUp msg s = some (ns', reply)) :
    ∃ cache, ns' = { ns with pathLruCache := cache } := by
  obtain ⟨⟨cache, found⟩, hget, -⟩ := Option.bind_eq_some_iff.mp h
  cases found with
  | some info =>
      rw [lookUp_cached hget] at h
      exact ⟨cache, (Prod.mk.inj (Option.some.inj h)).1.symm⟩
  | none =>
      cases hsearch : ns.search msg.path.str with
      | none =>
          rw [lookUp_absent hget hsearch] at h
          exact ⟨cache, (Prod.mk.inj (Option.some.inj h)).1.symm⟩
      | some slot =>
          rw [lookUp_missed hget hsearch] at h
          obtain ⟨cache', -, h⟩ := Option.map_eq_some_iff.mp h
          exact ⟨cache', (Prod.mk.inj h).1.symm⟩

/-- Each request acts on the directory as its course says, whatever the state. -/
theorem follows_handleConnection (ns : NamingServer LruCache) (msg : Message) (s : Surroundings) :
    Follows (ns.handleConnection msg s) (ns.directory.course msg) s.exchange := by
  rw [handleConnection]
  cases hop : msg.operation with
  | registerSs => exact follows_registerSs s hop
  | createFile => exact follows_createFile s hop
  | deleteFile => exact follows_deleteFile s hop
  | copyFile => exact follows_copyFile s hop
  | listPaths =>
      rw [Directory.course, hop]
      rintro ns' reply h
      obtain ⟨rfl, -⟩ := Prod.mk.inj (Option.some.inj h)
      exact ⟨rfl, fun _ h => by cases h⟩
  | readFile | writeFile | getFileInfo =>
      rw [Directory.course, hop]
      intro ns' reply h
      obtain ⟨cache, rfl⟩ := lookUp_frame h
      exact ⟨rfl, fun _ h => by cases h⟩
  | _ =>
      rw [Directory.course, hop]
      exact .answered

/-- The storage server that a request turns to, and what it sends there, as its course says. -/
theorem forwards_eq (ns : NamingServer κ) (msg : Message) :
    ns.forwards msg = (ns.directory.course msg).contact.map fun contact =>
      (contact.1, if msg.operation = .copyFile then
        msg.copyRequest (ns.registeredSs contact.2) else msg) := by
  simp only [forwards, Directory.course, map_directory, pick_directory, free_directory]
  cases hop : msg.operation with
  | registerSs => cases ns.nextSlot <;> rfl
  | createFile =>
      cases ns.search msg.path.str with
      | some _ => rfl
      | none => cases ns.getAvailableSsForCreation <;> rfl
  | deleteFile => cases ns.search msg.path.str <;> rfl
  | copyFile =>
      cases ns.search msg.path.str with
      | none => rfl
      | some source =>
          cases ns.search msg.path2.str with
          | some _ => rfl
          | none => cases ns.getAvailableSsForCreation <;> rfl
  | _ => rfl

theorem directory_of_run {cache : LruCache} {reqs : List (Message × Surroundings)}
    {ns : NamingServer LruCache} (hrun : Machine.run handle (init cache) reqs = some ns) :
    ns.directory = .after reqs := by
  refine (Machine.eachStep_true _ _).history_invariant
    (I := fun reqs ns => ns.directory = .after reqs) (directory_init cache) ?_ hrun
  intro reqs ns req ns' hns _ hstep
  obtain ⟨⟨ns₁, reply⟩, hhandle, rfl⟩ := Option.map_eq_some_iff.mp hstep
  rw [(follows_handleConnection ns req.1 req.2 ns₁ reply hhandle).1, hns, Directory.after,
    Directory.after, List.foldl_append]
  rfl

/-- An operation of the cache follows a freed node in the course of the request. -/
def CacheFault (ns : NamingServer LruCache) (msg : Message) (s : Surroundings) : Prop :=
  match msg.operation with
  | .deleteFile => ns.pathLruCache.lruRemove msg.path.str = none
  | .readFile | .writeFile | .getFileInfo =>
    match ns.pathLruCache.lruGet msg.path.str with
    | none => True
    | some (cache, _) => ∃ info, cache.lruPut msg.path.str info s.malloc = none
  | _ => False

theorem update_eq_none_of_conclude {exchange : Exchange}
    {update : NamingServer κ → Option (NamingServer κ)}
    (h : ns.conclude exchange update = none) : update ns = none := by
  rw [conclude] at h
  split at h
  · cases h
  · split_ifs at h
    exact Option.map_eq_none_iff.mp h

theorem cacheFault_lookUp {ns : NamingServer LruCache} {s : Surroundings}
    (h : ns.lookUp msg s = none) :
    match ns.pathLruCache.lruGet msg.path.str with
    | none => True
    | some (cache, _) => ∃ info, cache.lruPut msg.path.str info s.malloc = none := by
  cases hget : ns.pathLruCache.lruGet msg.path.str with
  | none => trivial
  | some got =>
      obtain ⟨cache, found⟩ := got
      cases found with
      | some info =>
          rw [lookUp_cached hget] at h
          cases h
      | none =>
          cases hsearch : ns.search msg.path.str with
          | none =>
              rw [lookUp_absent hget hsearch] at h
              cases h
          | some slot =>
              rw [lookUp_missed hget hsearch] at h
              exact ⟨ns.registeredSs slot, Option.map_eq_none_iff.mp h⟩

/-- Only the cache leaves a request undefined. -/
theorem cacheFault_of_undefined {ns : NamingServer LruCache} {msg : Message} {s : Surroundings}
    (hfits : FitsArrays msg) (h : ns.handleConnection msg s = none) : ns.CacheFault msg s := by
  rw [handleConnection] at h
  rw [CacheFault]
  cases hop : msg.operation with
  | registerSs =>
      simp only [hop, registerSs] at h
      cases hnext : ns.nextSlot with
      | none => simp [hnext] at h
      | some slot =>
          simp only [hnext, Option.map_eq_none_iff, storeSs] at h
          rw [dif_pos (hfits hop)] at h
          cases h
  | createFile =>
      simp only [hop, createFile] at h
      split at h
      · cases h
      · split at h
        · cases h
        · cases update_eq_none_of_conclude h
  | deleteFile =>
      simp only [hop, deleteFile] at h
      split at h
      · cases h
      · exact Option.map_eq_none_iff.mp (update_eq_none_of_conclude h)
  | copyFile =>
      simp only [hop, copyFile] at h
      split at h
      · cases h
      · split at h
        · cases update_eq_none_of_conclude h
        · split at h
          · cases h
          · cases update_eq_none_of_conclude h
  | listPaths => simp [hop] at h
  | readFile | writeFile | getFileInfo =>
      simp only [hop] at h
      exact cacheFault_lookUp h
  | _ => simp [hop] at h

/-- A run is only left undefined by the cache, in one of its requests. -/
theorem cacheFault_of_run {cache : LruCache} {reqs : List (Message × Surroundings)}
    (hfits : ∀ req ∈ reqs, FitsArrays req.1) (h : Machine.run handle (init cache) reqs = none) :
    ∃ pre req post ns, reqs = pre ++ req :: post ∧
      Machine.run handle (init cache) pre = some ns ∧ ns.CacheFault req.1 req.2 := by
  induction reqs using List.reverseRecOn with
  | nil => cases h
  | append_singleton reqs req ih =>
      cases hrun : Machine.run handle (init cache) reqs with
      | none =>
          obtain ⟨pre, req', post, ns, rfl, hpre, hfault⟩ :=
            ih (fun r hr => hfits r (List.mem_append_left _ hr)) hrun
          exact ⟨pre, req', post ++ [req], ns, by simp, hpre, hfault⟩
      | some ns =>
          rw [Machine.run_concat, hrun, Option.bind_some] at h
          refine ⟨reqs, req, [], ns, rfl, hrun, ?_⟩
          exact cacheFault_of_undefined (hfits req (by simp)) (Option.map_eq_none_iff.mp h)

/-- The request is refused with this error code, without turning to a storage server. -/
def Refuses (ns : NamingServer LruCache) (msg : Message) (s : Surroundings) (code : ErrorCode) :
    Prop :=
  ns.forwards msg = none ∧ ∃ ns', ns.handleConnection msg s = some (ns', .nack code)

theorem refuses_createFile {ns : NamingServer LruCache} {msg : Message} (s : Surroundings)
    (hop : msg.operation = .createFile) :
    ns.Refuses msg s .fileExists ↔ ns.search msg.path.str ≠ none := by
  simp only [Refuses, forwards, handleConnection, hop, createFile]
  cases ns.search msg.path.str with
  | some slot => simp
  | none =>
      cases ns.getAvailableSsForCreation with
      | none => simp [Message.nack, ErrorCode.fileExists, ErrorCode.ssUnavailable]
      | some found => simp

theorem refuses_deleteFile {ns : NamingServer LruCache} {msg : Message} (s : Surroundings)
    (hop : msg.operation = .deleteFile) :
    ns.Refuses msg s .fileNotFound ↔ ns.search msg.path.str = none := by
  simp only [Refuses, forwards, handleConnection, hop, deleteFile]
  cases ns.search msg.path.str <;> simp

theorem refuses_copyFile {ns : NamingServer LruCache} {msg : Message} (s : Surroundings)
    (hop : msg.operation = .copyFile) :
    ns.Refuses msg s .fileNotFound ↔ ns.search msg.path.str = none := by
  simp only [Refuses, forwards, handleConnection, hop, copyFile]
  cases ns.search msg.path.str with
  | none => simp
  | some source =>
      cases ns.search msg.path2.str with
      | some target => simp
      | none =>
          cases ns.getAvailableSsForCreation with
          | none => simp [Message.nack, ErrorCode.fileNotFound, ErrorCode.ssUnavailable]
          | some found => simp

/-- The naming server is a directory: after any requests the trie and the path arrays hold what the
directory holds, and whatever comes next goes as its course says. -/
theorem refines_directory (reqs : List (Message × Surroundings))
    (hfits : ∀ req ∈ reqs, FitsArrays req.1) :
    (Machine.run handle (init LruCache.lruInit) reqs = none →
      ∃ pre req post ns, reqs = pre ++ req :: post ∧
        Machine.run handle (init LruCache.lruInit) pre = some ns ∧ ns.CacheFault req.1 req.2) ∧
    ∀ ns, Machine.run handle (init LruCache.lruInit) reqs = some ns →
      ns.directory = .after reqs ∧ ∀ msg s,
        (ns.forwards msg = ((Directory.after reqs).course msg).contact.map fun contact =>
          (contact.1, if msg.operation = .copyFile then
            msg.copyRequest (ns.registeredSs contact.2) else msg)) ∧
        Follows (ns.handleConnection msg s) ((Directory.after reqs).course msg) s.exchange ∧
        (msg.operation = .createFile →
          (ns.Refuses msg s .fileExists ↔ (Directory.after reqs).map msg.path.str ≠ none)) ∧
        (msg.operation = .deleteFile ∨ msg.operation = .copyFile →
          (ns.Refuses msg s .fileNotFound ↔ (Directory.after reqs).map msg.path.str = none)) := by
  refine ⟨cacheFault_of_run hfits, fun ns hrun => ?_⟩
  have hdirectory := directory_of_run hrun
  refine ⟨hdirectory, fun msg s => ?_⟩
  rw [← hdirectory]
  refine ⟨forwards_eq ns msg, follows_handleConnection ns msg s, refuses_createFile s, ?_⟩
  rintro (hop | hop)
  · exact refuses_deleteFile s hop
  · exact refuses_copyFile s hop

theorem refines_directory_registerA :
    ∃ ns, Machine.run handle (init LruCache.lruInit) [registerA 2] = some ns ∧
      ns.directory = .after [registerA 2] := by
  have hrun : (Machine.run handle (init LruCache.lruInit) [registerA 2]).isSome := by
    decide +kernel
  obtain ⟨ns, hns⟩ := Option.isSome_iff_exists.mp hrun
  have hfits : ∀ req ∈ [registerA 2], FitsArrays req.1 := by
    intro req hreq _
    obtain rfl := List.mem_singleton.mp hreq
    decide
  exact ⟨ns, hns, ((refines_directory [registerA 2] hfits).2 ns hns).1⟩

end

end NamingServer
end NetworkFileSystem
