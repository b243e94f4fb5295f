import NetworkFileSystem.LruCache
import NetworkFileSystem.StorageServer
import NetworkFileSystem.Utils

/-!
# The naming server

The global state of `naming_server.c` and the branches of `handle_connection`. Server pointers are
indices of the `registered_ss` array. What the connections to the storage servers and `malloc` do
is an input of the handler. The state is generic in the lookup cache, which only the lookups and
the update of a deletion touch.
-/

namespace NetworkFileSystem

/-- The address of an element of `registered_ss`. -/
abbrev Slot := Fin maxSs

namespace StorageServerInfo

def zero : StorageServerInfo where
  ip := []
  nmPort := 0
  clientPort := 0
  accessiblePaths := .replicate _ []
  numAccessiblePaths := 0

/-- Append a path to `accessible_paths` unless the array is full. -/
def appendPath (info : StorageServerInfo) (path : Path) : StorageServerInfo :=
  if h : info.numAccessiblePaths.val < maxAccessiblePaths then
    { info with
      accessiblePaths := info.accessiblePaths.set ⟨_, h⟩ path
      numAccessiblePaths := ⟨info.numAccessiblePaths + 1, Nat.succ_lt_succ h⟩ }
  else info

/-- `remove_path_from_ss_info`: the paths behind the first occurrence move up by one. -/
def removePath (info : StorageServerInfo) (path : Path) : StorageServerInfo :=
  match (List.finRange maxAccessiblePaths).find? fun i =>
    i.val < info.numAccessiblePaths.val ∧ info.accessiblePaths.get i = path with
  | none => info
  | some i =>
    { info with
      accessiblePaths := .ofFn fun j =>
        if h : i ≤ j ∧ j.val + 1 < info.numAccessiblePaths.val then
          info.accessiblePaths.get ⟨j + 1, by have := info.numAccessiblePaths.isLt; omega⟩
        else info.accessiblePaths.get j
      numAccessiblePaths := ⟨info.numAccessiblePaths - 1, by
        have := info.numAccessiblePaths.isLt
        omega⟩ }

/-- Where the naming server and the clients reach the storage server. -/
def address (info : StorageServerInfo) : CString × Int32 × Int32 :=
  (info.ip, info.nmPort, info.clientPort)

/-- Where the clients reach it. -/
def location (info : StorageServerInfo) : CString × Int32 := (info.ip, info.clientPort)

@[simp] theorem address_appendPath (info : StorageServerInfo) (path : Path) :
    (info.appendPath path).address = info.address := by
  rw [appendPath]
  split_ifs <;> rfl

@[simp] theorem address_removePath (info : StorageServerInfo) (path : Path) :
    (info.removePath path).address = info.address := by
  rw [removePath]
  split <;> rfl

theorem location_congr {info info' : StorageServerInfo} (h : info.address = info'.address) :
    info.location = info'.location :=
  congrArg (fun a : CString × Int32 × Int32 => (a.1, a.2.2)) h

end StorageServerInfo

namespace Message

/-- READ_FILE, WRITE_FILE or GET_FILE_INFO: the client goes on to a storage server. -/
def IsLookup (msg : Message) : Prop :=
  msg.operation = .readFile ∨ msg.operation = .writeFile ∨ msg.operation = .getFileInfo

instance (msg : Message) : Decidable msg.IsLookup := inferInstanceAs (Decidable (_ ∨ _))

/-- The reply to a lookup that found this server. -/
def located (info : StorageServerInfo) : Message :=
  { ack with ssIp := .ofBytes _ info.ip, ssClientPort := info.clientPort }

/-- The reply to a lookup, given the pointer it found. -/
def answerLookup : Option StorageServerInfo → Message
  | none => nack .fileNotFound
  | some info => located info

theorem located_congr {info info' : StorageServerInfo} (h : info.location = info'.location) :
    located info = located info' := by
  simp only [StorageServerInfo.location, Prod.mk.injEq] at h
  rw [located, located, h.1, h.2]

/-- The request that COPY_FILE sends to the server of the source. -/
def copyRequest (msg : Message) (dest : StorageServerInfo) : Message :=
  { zero with
    operation := .copyFile
    path := .ofBytes _ msg.path.str
    path2 := .ofBytes _ msg.path2.str
    destSsIp := .ofBytes _ dest.ip
    destSsClientPort := dest.clientPort }

/-- The offset of `data` in the structure. -/
def dataOffset : ℕ := 4 + 2 * maxPathLen

/-- The list of paths, copied to `data` as one string. The bytes of a string that is longer than
`data` go to the fields behind it. -/
def pathList (paths : List Path) : Message :=
  let collected := (paths.intersperse [10]).flatten
  { ofBytes (Layout.overwrite zero.toBytes
      (zero.toBytes.toList.take dataOffset ++ collected ++ [0])) with
    dataSize := Int32.ofNat collected.length
    operation := .ack
    errorCode := .success }

end Message

structure NamingServer (κ : Type) where
  registeredSs : Slot → StorageServerInfo
  numRegisteredSs : Fin (maxSs + 1)
  currentSsIndex : Slot
  pathTrie : TrieNode Slot
  pathLruCache : κ

namespace NamingServer

variable {κ : Type}

def init (cache : κ) : NamingServer κ where
  registeredSs := fun _ => .zero
  numRegisteredSs := 0
  currentSsIndex := 0
  pathTrie := createTrieNode
  pathLruCache := cache

/-- The pointer that `trie_search` returns for the path. -/
def search (ns : NamingServer κ) (path : Path) : Option Slot := ns.pathTrie.trieSearch path

/-- The cursor moves on round-robin. -/
def getAvailableSsForCreation (ns : NamingServer κ) : Option (Slot × NamingServer κ) :=
  if h : 0 < ns.numRegisteredSs.val then
    some (ns.currentSsIndex,
      { ns with
        currentSsIndex := ⟨(ns.currentSsIndex + 1) % ns.numRegisteredSs.val,
          (Nat.mod_lt _ h).trans_le (Nat.lt_succ_iff.mp ns.numRegisteredSs.isLt)⟩ })
  else none

/-- Change the record of a storage server. -/
def updateSs (ns : NamingServer κ) (slot : Slot)
    (f : StorageServerInfo → StorageServerInfo) : NamingServer κ :=
  { ns with registeredSs := Function.update ns.registeredSs slot (f (ns.registeredSs slot)) }

/-! ### REGISTER_SS -/

/-- Store the address of a new storage server in the next free slot; undefined for a count that
does not fit the arrays. -/
def storeSs (ns : NamingServer κ) (msg : Message) (slot : Slot) : Option (NamingServer κ) :=
  if h : 0 ≤ msg.numAccessiblePaths.toInt ∧ msg.numAccessiblePaths.toInt ≤ maxAccessiblePaths then
    some <| ns.updateSs slot fun info =>
      { info with
        ip := msg.ssIp.str
        nmPort := msg.ssNmPort
        clientPort := msg.ssClientPort
        numAccessiblePaths := ⟨msg.numAccessiblePaths.toInt.toNat, by omega⟩ }
  else none

/-- One iteration of the loop over the accessible paths. -/
def registerPath (ns : NamingServer κ) (msg : Message) (slot : Slot)
    (i : Fin maxAccessiblePaths) : NamingServer κ :=
  let path := (msg.accessiblePaths.get i).str
  let ns := ns.updateSs slot fun info =>
    { info with accessiblePaths := info.accessiblePaths.set i path }
  { ns with pathTrie := ns.pathTrie.trieInsert slot path }

/-- The indices of the paths that a registration names. -/
def pathIndices (msg : Message) : List (Fin maxAccessiblePaths) :=
  (List.finRange _).take msg.numAccessiblePaths.toInt.toNat

def nextSlot (ns : NamingServer κ) : Option Slot :=
  if h : ns.numRegisteredSs.val < maxSs then some ⟨_, h⟩ else none

/-- `num_registered_ss++` for a new server in this slot. -/
def countSs (ns : NamingServer κ) (slot : Slot) : NamingServer κ :=
  { ns with numRegisteredSs := slot.succ }

def registerSs (ns : NamingServer κ) (msg : Message) : Option (NamingServer κ × Message) :=
  match ns.nextSlot with
  | none => some (ns, .nack .ssUnavailable)
  | some slot =>
    (ns.storeSs msg slot).map fun ns =>
      (((pathIndices msg).foldl (·.registerPath msg slot ·) ns).countSs slot, .ack)

/-! ### Operations that involve a storage server -/

/-- The update after a CREATE_FILE or a COPY_FILE to a new path. -/
def recordPath (ns : NamingServer κ) (path : Path) (slot : Slot) : NamingServer κ :=
  { ns.updateSs slot (·.appendPath path) with pathTrie := ns.pathTrie.trieInsert slot path }

/-- The first half of the update after a DELETE_FILE; `lru_remove` follows. -/
def dropPath (ns : NamingServer κ) (path : Path) : NamingServer κ :=
  { ns with pathTrie := ns.pathTrie.trieDelete path }

/-- The second half of the update after a DELETE_FILE, with the cache that `lru_remove` leaves. -/
def forgetPath (ns : NamingServer κ) (path : Path) (slot : Slot) (cache : κ) : NamingServer κ :=
  { ns.updateSs slot (·.removePath path) with pathLruCache := cache }

/-! ### What the updates do -/

section Updates

variable (ns : NamingServer κ) (path q : Path) (slot j : Slot) (msg : Message)

def address (ns : NamingServer κ) (slot : Slot) : CString × Int32 × Int32 :=
  (ns.registeredSs slot).address

@[simp] theorem search_init (cache : κ) : (init cache).search path = none :=
  TrieNode.trieSearch_create path

@[simp] theorem search_recordPath :
    (ns.recordPath path slot).search q = if q = path then some slot else ns.search q :=
  TrieNode.trieSearch_trieInsert slot path q _

@[simp] theorem search_dropPath :
    (ns.dropPath path).search q = if q = path then none else ns.search q :=
  TrieNode.trieSearch_trieDelete path q _

@[simp] theorem search_forgetPath (cache : κ) :
    (ns.forgetPath path slot cache).search q = ns.search q := rfl

theorem address_updateSs {f : StorageServerInfo → StorageServerInfo}
    (hf : ∀ info, (f info).address = info.address) :
    (ns.updateSs slot f).address j = ns.address j := by
  by_cases hj : j = slot
  · subst hj
    simp [address, updateSs, hf]
  · simp [address, updateSs, hj]

@[simp] theorem address_recordPath : (ns.recordPath path slot).address j = ns.address j :=
  address_updateSs ns slot j fun info => info.address_appendPath path

@[simp] theorem address_forgetPath (cache : κ) :
    (ns.forgetPath path slot cache).address j = ns.address j :=
  address_updateSs ns slot j fun info => info.address_removePath path

@[simp] theorem search_registerPath (i : Fin maxAccessiblePaths) :
    (ns.registerPath msg slot i).search q =
      if q = (msg.accessiblePaths.get i).str then some slot else ns.search q :=
  TrieNode.trieSearch_trieInsert slot _ q _

@[simp] theorem address_registerPath (i : Fin maxAccessiblePaths) :
    (ns.registerPath msg slot i).address j = ns.address j :=
  address_updateSs ns slot j (f := fun info => { info with
    accessiblePaths := info.accessiblePaths.set i (msg.accessiblePaths.get i).str }) fun _ => rfl

theorem search_foldl_registerPath (l : List (Fin maxAccessiblePaths)) :
    ∀ ns : NamingServer κ, (l.foldl (·.registerPath msg slot ·) ns).search q =
      if ∃ i ∈ l, q = (msg.accessiblePaths.get i).str then some slot else ns.search q := by
  induction l with
  | nil => intro ns; simp
  | cons i l ih =>
      intro ns
      rw [List.foldl_cons, ih, search_registerPath]
      by_cases hl : ∃ i ∈ l, q = (msg.accessiblePaths.get i).str
      · rw [if_pos hl, if_pos]
        exact hl.imp fun _ => And.imp_left (List.mem_cons_of_mem _)
      · by_cases hi : q = (msg.accessiblePaths.get i).str
        · rw [if_neg hl, if_pos hi, if_pos ⟨i, List.mem_cons_self, hi⟩]
        · rw [if_neg hl, if_neg hi, if_neg]
          rintro ⟨k, hk, hq⟩
          rcases List.mem_cons.mp hk with rfl | hk
          · exact hi hq
          · exact hl ⟨k, hk, hq⟩

theorem foldl_registerPath_frame (l : List (Fin maxAccessiblePaths)) :
    ∀ ns : NamingServer κ,
      (∀ j, (l.foldl (·.registerPath msg slot ·) ns).address j = ns.address j) ∧
        (l.foldl (·.registerPath msg slot ·) ns).pathLruCache = ns.pathLruCache ∧
        (l.foldl (·.registerPath msg slot ·) ns).currentSsIndex = ns.currentSsIndex := by
  induction l with
  | nil => exact fun ns => ⟨fun _ => rfl, rfl, rfl⟩
  | cons i l ih =>
      intro ns
      obtain ⟨haddress, hcache, hcursor⟩ := ih (ns.registerPath msg slot i)
      exact ⟨fun j => (haddress j).trans (address_registerPath ns slot j msg i), hcache, hcursor⟩

variable {ns path q slot j msg}

theorem getAvailableSsForCreation_eq_some {ns' : NamingServer κ}
    (h : ns.getAvailableSsForCreation = some (slot, ns')) :
    0 < ns.numRegisteredSs.val ∧ slot = ns.currentSsIndex ∧
      ns'.currentSsIndex.val = (ns.currentSsIndex + 1) % ns.numRegisteredSs.val ∧
      ns' = { ns with currentSsIndex := ns'.currentSsIndex } := by
  rw [getAvailableSsForCreation] at h
  split_ifs at h with hpos
  obtain ⟨rfl, rfl⟩ := Prod.mk.inj (Option.some.inj h)
  exact ⟨hpos, rfl, rfl, rfl⟩

theorem getAvailableSsForCreation_frame {ns' : NamingServer κ}
    (h : ns.getAvailableSsForCreation = some (slot, ns')) :
    (∀ q, ns'.search q = ns.search q) ∧ (∀ j, ns'.address j = ns.address j) ∧
      ns'.numRegisteredSs = ns.numRegisteredSs ∧ ns'.pathLruCache = ns.pathLruCache := by
  obtain ⟨-, -, -, hns⟩ := getAvailableSsForCreation_eq_some h
  rw [hns]
  exact ⟨fun _ => rfl, fun _ => rfl, rfl, rfl⟩

theorem nextSlot_eq_some (h : ns.nextSlot = some slot) : slot.val = ns.numRegisteredSs.val := by
  rw [nextSlot] at h
  split_ifs at h
  exact congrArg Fin.val (Option.some.inj h).symm

theorem storeSs_eq_some {ns' : NamingServer κ} (h : ns.storeSs msg slot = some ns') :
    ns'.address slot = (msg.ssIp.str, msg.ssNmPort, msg.ssClientPort) ∧
      ns' = { ns with registeredSs := ns'.registeredSs } ∧
      ∀ j, j ≠ slot → ns'.registeredSs j = ns.registeredSs j := by
  rw [storeSs] at h
  split_ifs at h
  obtain rfl := Option.some.inj h
  refine ⟨?_, rfl, fun j hj => Function.update_of_ne hj _ _⟩
  simp [address, updateSs, StorageServerInfo.address]

theorem storeSs_frame {ns' : NamingServer κ} (h : ns.storeSs msg slot = some ns') :
    (∀ q, ns'.search q = ns.search q) ∧ ns'.numRegisteredSs = ns.numRegisteredSs ∧
      ns'.currentSsIndex = ns.currentSsIndex ∧ ns'.pathLruCache = ns.pathLruCache := by
  obtain ⟨-, hns, -⟩ := storeSs_eq_some h
  rw [hns]
  exact ⟨fun _ => rfl, rfl, rfl, rfl⟩

end Updates

end NamingServer

/-- What happens on the connection to a storage server. -/
inductive Exchange
  | socketFailed
  | connectFailed
  | sendFailed
  | receiveFailed
  | replied (response : Message)

/-- The reply of the storage server, or the error code that the failure gives. -/
def Exchange.result : Exchange → Except ErrorCode Message
  | socketFailed => .error .networkError
  | connectFailed => .error .ssUnavailable
  | sendFailed => .error .networkError
  | receiveFailed => .error .networkError
  | replied response => .ok response

/-- The storage server reported success. -/
def Exchange.Succeeded (e : Exchange) : Prop :=
  ∃ response, e = replied response ∧ response.Succeeded

instance : DecidablePred Exchange.Succeeded
  | .replied response => decidable_of_iff response.Succeeded (by simp [Exchange.Succeeded])
  | .socketFailed | .connectFailed | .sendFailed | .receiveFailed =>
    isFalse (by simp [Exchange.Succeeded])

/-- What the handler of one request gets from its surroundings. -/
structure Surroundings where
  exchange : Exchange
  /-- Allocations succeed. -/
  malloc : Bool
  /-- The contents of the path buffer that LIST_PATHS leaves uninitialized. -/
  tempPath : ℕ → UInt8

namespace NamingServer

variable {κ : Type}

/-- The end of an operation that involves a storage server: the update only follows its success. -/
def conclude (ns : NamingServer κ) (exchange : Exchange)
    (update : NamingServer κ → Option (NamingServer κ)) : Option (NamingServer κ × Message) :=
  match exchange.result with
  | .error code => some (ns, .nack code)
  | .ok response =>
    if response.Succeeded then (update ns).map (·, .ack)
    else some (ns, .nack response.errorCode)

theorem conclude_cases {ns ns' : NamingServer κ} {exchange : Exchange} {reply : Message}
    {update : NamingServer κ → Option (NamingServer κ)}
    (h : ns.conclude exchange update = some (ns', reply)) :
    (¬exchange.Succeeded ∧ ns' = ns) ∨ exchange.Succeeded ∧ update ns = some ns' := by
  cases exchange with
  | replied response =>
      simp only [conclude, Exchange.result] at h
      split_ifs at h with hs
      · obtain ⟨ns'', hns, heq⟩ := Option.map_eq_some_iff.mp h
        exact Or.inr ⟨⟨response, rfl, hs⟩, hns.trans (congrArg some (Prod.mk.inj heq).1)⟩
      · refine Or.inl ⟨?_, (Prod.mk.inj (Option.some.inj h)).1.symm⟩
        rintro ⟨response', heq, hs'⟩
        cases heq
        exact hs hs'
  | _ =>
      refine Or.inl ⟨?_, (Prod.mk.inj (Option.some.inj h)).1.symm⟩
      rintro ⟨response, heq, -⟩
      cases heq

def listPaths (ns : NamingServer κ) (s : Surroundings) : Message :=
  if s.malloc then .pathList (ns.pathTrie.trieCollectPaths s.tempPath) else .nack .networkError

def createFile (ns : NamingServer κ) (msg : Message) (s : Surroundings) :
    Option (NamingServer κ × Message) :=
  match ns.search msg.path.str with
  | some _ => some (ns, .nack .fileExists)
  | none =>
    match ns.getAvailableSsForCreation with
    | none => some (ns, .nack .ssUnavailable)
    | some (slot, ns) => ns.conclude s.exchange fun ns => some (ns.recordPath msg.path.str slot)

def deleteFile (ns : NamingServer LruCache) (msg : Message) (s : Surroundings) :
    Option (NamingServer LruCache × Message) :=
  match ns.search msg.path.str with
  | none => some (ns, .nack .fileNotFound)
  | some slot =>
    ns.conclude s.exchange fun ns =>
      ((ns.dropPath msg.path.str).pathLruCache.lruRemove msg.path.str).map fun cache =>
        (ns.dropPath msg.path.str).forgetPath msg.path.str slot cache

def copyFile (ns : NamingServer κ) (msg : Message) (s : Surroundings) :
    Option (NamingServer κ × Message) :=
  match ns.search msg.path.str with
  | none => some (ns, .nack .fileNotFound)
  | some _ =>
    match ns.search msg.path2.str with
    | some _ => ns.conclude s.exchange some
    | none =>
      match ns.getAvailableSsForCreation with
      | none => some (ns, .nack .ssUnavailable)
      | some (slot, ns) => ns.conclude s.exchange fun ns => some (ns.recordPath msg.path2.str slot)

/-- READ_FILE, WRITE_FILE and GET_FILE_INFO: look in the cache, else in the trie. -/
def lookUp (ns : NamingServer LruCache) (msg : Message) (s : Surroundings) :
    Option (NamingServer LruCache × Message) := do
  let (cache, found) ← ns.pathLruCache.lruGet msg.path.str
  let ns := { ns with pathLruCache := cache }
  match found with
  | some info => some (ns, .answerLookup (some info))
  | none =>
    match (ns.search msg.path.str).map ns.registeredSs with
    | none => some (ns, .answerLookup none)
    | some info => do
      let cache ← ns.pathLruCache.lruPut msg.path.str info s.malloc
      some ({ ns with pathLruCache := cache }, .answerLookup (some info))

/-- The new state and the reply; undefined if the cache follows a freed node. -/
def handleConnection (ns : NamingServer LruCache) (msg : Message) (s : Surroundings) :
    Option (NamingServer LruCache × Message) :=
  match msg.operation with
  | .registerSs => ns.registerSs msg
  | .listPaths => some (ns, ns.listPaths s)
  | .createFile => ns.createFile msg s
  | .deleteFile => ns.deleteFile msg s
  | .copyFile => ns.copyFile msg s
  | .readFile | .writeFile | .getFileInfo => ns.lookUp msg s
  | _ => some (ns, .nack .invalidOperation)

end NamingServer
end NetworkFileSystem
