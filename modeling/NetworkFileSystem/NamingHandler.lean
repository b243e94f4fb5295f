import NetworkFileSystem.Sockets
import NetworkFileSystem.Directory

/-!
# The handler of the naming server, call by call

`handle_connection` with its system calls and its accesses to global state. Whatever the calls
return, a handler gives back what it owns and replies once to a request that it receives; it holds
`ss_list_mutex` where it must and never while it communicates; and it does what the sequential
model of the naming server says.
-/

namespace NetworkFileSystem

open Interaction

namespace Sockets

/-- The accesses to the global state of the naming server. -/
inductive NmAccess
  | lock
  | unlock
  | nextSlot
  | storeSs (msg : Message) (slot : Slot)
  | registerPath (msg : Message) (slot : Slot) (i : Fin maxAccessiblePaths)
  | countSs (slot : Slot)
  | collectPaths
  | search (path : Path)
  | ssInfo (slot : Slot)
  | nextForCreation
  | trieInsert (path : Path) (slot : Slot)
  | appendPath (path : Path) (slot : Slot)
  | trieDelete (path : Path)
  | lruRemove (path : Path)
  | removePath (path : Path) (slot : Slot)
  | lruGet (path : Path)
  | lruPut (path : Path) (info : StorageServerInfo)

def NmAccess.Response : NmAccess → Type
  | nextSlot | search _ | nextForCreation => Option Slot
  | collectPaths => List Path
  | ssInfo _ => StorageServerInfo
  | lruGet _ => Option StorageServerInfo
  -- whether the allocation of a node succeeds, which the caller does not learn
  | lruPut _ _ => Bool
  | _ => Unit

abbrev NmProg (α : Type) := Prog NmAccess.Response α

namespace Naming

def lockList : NmProg Unit := access NmAccess.lock

def unlockList : NmProg Unit := access NmAccess.unlock

def trieSearch (path : Path) : NmProg (Option Slot) := access (NmAccess.search path)

def ssInfo (slot : Slot) : NmProg StorageServerInfo := access (NmAccess.ssInfo slot)

def getAvailableSsForCreation : NmProg (Option Slot) := do
  lockList
  let slot ← access NmAccess.nextForCreation
  unlockList
  pure slot

/-! ### The operations -/

def registerPaths (msg : Message) (slot : Slot) : List (Fin maxAccessiblePaths) → NmProg Unit
  | [] => pure ()
  | i :: l => do
    access (NmAccess.registerPath msg slot i)
    registerPaths msg slot l

def registerSs (msg : Message) : NmProg Message := do
  lockList
  let slot : Option Slot ← access NmAccess.nextSlot
  match slot with
  | some slot =>
    access (NmAccess.storeSs msg slot)
    registerPaths msg slot (NamingServer.pathIndices msg)
    access (NmAccess.countSs slot)
    unlockList
    pure .ack
  | none =>
    unlockList
    pure (.nack .ssUnavailable)

def listPaths : NmProg Message := do
  let block : Option Block ← call .malloc
  match block with
  | none => pure (.nack .networkError)
  | some block =>
    let paths : List Path ← access NmAccess.collectPaths
    free block
    pure (.pathList paths)

/-- Send the request to the NM port of a server; the record of the server is read on the way. -/
def forward (slot : Slot) (request : NmProg Message) : NmProg Exchange :=
  exchange (do
    let info ← ssInfo slot
    pure (info.ip, info.nmPort)) request

/-- The update after the success of the storage server, and the reply. -/
def conclude (exchange : Exchange) (update : NmProg Unit) : NmProg Message :=
  match exchange.result with
  | .error code => pure (.nack code)
  | .ok response =>
    if response.Succeeded then do
      update
      pure .ack
    else pure (.nack response.errorCode)

def recordPath (path : Path) (slot : Slot) : NmProg Unit := do
  lockList
  access (NmAccess.trieInsert path slot)
  access (NmAccess.appendPath path slot)
  unlockList

def forgetPath (path : Path) (slot : Slot) : NmProg Unit := do
  lockList
  access (NmAccess.trieDelete path)
  access (NmAccess.lruRemove path)
  access (NmAccess.removePath path slot)
  unlockList

def createFile (msg : Message) : NmProg Message := do
  match ← trieSearch msg.path.str with
  | some _ => pure (.nack .fileExists)
  | none =>
    match ← getAvailableSsForCreation with
    | none => pure (.nack .ssUnavailable)
    | some slot =>
      let exchange ← forward slot (pure msg)
      conclude exchange (recordPath msg.path.str slot)

def deleteFile (msg : Message) : NmProg Message := do
  match ← trieSearch msg.path.str with
  | none => pure (.nack .fileNotFound)
  | some slot =>
    let exchange ← forward slot (pure msg)
    conclude exchange (forgetPath msg.path.str slot)

/-- COPY_FILE once the server of the destination is known. -/
def copyTo (msg : Message) (source dest : Slot) (update : NmProg Unit) : NmProg Message := do
  let exchange ← forward source (do
    let info ← ssInfo dest
    pure (msg.copyRequest info))
  conclude exchange update

def copyFile (msg : Message) : NmProg Message := do
  match ← trieSearch msg.path.str with
  | none => pure (.nack .fileNotFound)
  | some source =>
    match ← trieSearch msg.path2.str with
    | some dest => copyTo msg source dest (pure ())
    | none =>
      match ← getAvailableSsForCreation with
      | none => pure (.nack .ssUnavailable)
      | some dest => copyTo msg source dest (recordPath msg.path2.str dest)

def lookUp (msg : Message) : NmProg Message := do
  let found : Option StorageServerInfo ← access (NmAccess.lruGet msg.path.str)
  match found with
  | some info => pure (.located info)
  | none =>
    match ← trieSearch msg.path.str with
    | none => pure (.nack .fileNotFound)
    | some slot =>
      let info ← ssInfo slot
      let _ ← access (NmAccess.lruPut msg.path.str info)
      pure (.located info)

def dispatch (msg : Message) : NmProg Message :=
  match msg.operation with
  | .registerSs => registerSs msg
  | .listPaths => listPaths
  | .createFile => createFile msg
  | .deleteFile => deleteFile msg
  | .copyFile => copyFile msg
  | .readFile | .writeFile | .getFileInfo => lookUp msg
  | _ => pure (.nack .invalidOperation)

def handleConnection (fd : Fd) (block : Block) : NmProg Unit :=
  serveConnection dispatch fd block

/-! ### What a handler owns -/

variable {conn : Fd}

theorem keepsOwned_registerPaths (msg : Message) (slot : Slot)
    (l : List (Fin maxAccessiblePaths)) : KeepsOwned (some conn) (registerPaths msg slot l) := by
  induction l with
  | nil => exact keeps_pure ()
  | cons i l ih => exact (keepsOwned_access _).bind fun _ => ih

theorem keepsOwned_getAvailable : KeepsOwned (some conn) getAvailableSsForCreation :=
  (keepsOwned_access _).bind fun _ => (keepsOwned_access _).bind fun slot =>
    (keepsOwned_access _).bind fun _ => keeps_pure slot

theorem keepsOwned_conclude (e : Exchange) {update : NmProg Unit}
    (hupdate : KeepsOwned (some conn) update) : KeepsOwned (some conn) (conclude e update) := by
  unfold conclude
  split
  · exact keeps_pure _
  · split_ifs
    · exact hupdate.bind fun _ => keeps_pure _
    · exact keeps_pure _

theorem keepsOwned_forward (slot : Slot) {request : NmProg Message}
    (hrequest : KeepsOwned (some conn) request) : KeepsOwned (some conn) (forward slot request) :=
  keepsOwned_exchange ((keepsOwned_access _).bind fun _ => keeps_pure _) hrequest

theorem keepsOwned_recordPath (path : Path) (slot : Slot) :
    KeepsOwned (some conn) (recordPath path slot) :=
  (keepsOwned_access _).bind fun _ => (keepsOwned_access _).bind fun _ =>
    (keepsOwned_access _).bind fun _ => keepsOwned_access _

theorem keepsOwned_forgetPath (path : Path) (slot : Slot) :
    KeepsOwned (some conn) (forgetPath path slot) :=
  (keepsOwned_access _).bind fun _ => (keepsOwned_access _).bind fun _ =>
    (keepsOwned_access _).bind fun _ => (keepsOwned_access _).bind fun _ => keepsOwned_access _

theorem keepsOwned_copyTo (msg : Message) (source dest : Slot) {update : NmProg Unit}
    (hupdate : KeepsOwned (some conn) update) :
    KeepsOwned (some conn) (copyTo msg source dest update) :=
  (keepsOwned_forward source ((keepsOwned_access _).bind fun _ => keeps_pure _)).bind fun e =>
    keepsOwned_conclude e hupdate

theorem keepsOwned_registerSs (msg : Message) : KeepsOwned (some conn) (registerSs msg) := by
  refine (keepsOwned_access _).bind fun _ => (keepsOwned_access _).bind fun slot => ?_
  cases slot with
  | none => exact (keepsOwned_access _).bind fun _ => keeps_pure _
  | some slot =>
      exact (keepsOwned_access _).bind fun _ => (keepsOwned_registerPaths msg slot _).bind fun _ =>
        (keepsOwned_access _).bind fun _ => (keepsOwned_access _).bind fun _ => keeps_pure _

theorem keepsOwned_listPaths : KeepsOwned (some conn) listPaths := by
  refine fun s _ => ⟨trivial, fun block hfresh => ?_⟩
  cases block with
  | none => exact rfl
  | some block =>
      have hblock : block ∉ s.blocks := hfresh block rfl
      refine ⟨trivial, fun _ _ => ⟨Finset.mem_insert_self block s.blocks, fun _ _ => ?_⟩⟩
      change { s with blocks := (insert block s.blocks).erase block } = s
      rw [Finset.erase_insert hblock]

theorem keepsOwned_createFile (msg : Message) : KeepsOwned (some conn) (createFile msg) := by
  refine (keepsOwned_access _).bind fun found => ?_
  cases found with
  | some _ => exact keeps_pure _
  | none =>
      refine keepsOwned_getAvailable.bind fun slot => ?_
      cases slot with
      | none => exact keeps_pure _
      | some slot =>
          exact (keepsOwned_forward slot (keeps_pure msg)).bind fun e =>
            keepsOwned_conclude e (keepsOwned_recordPath _ slot)

theorem keepsOwned_deleteFile (msg : Message) : KeepsOwned (some conn) (deleteFile msg) := by
  refine (keepsOwned_access _).bind fun found => ?_
  cases found with
  | none => exact keeps_pure _
  | some slot =>
      exact (keepsOwned_forward slot (keeps_pure msg)).bind fun e =>
        keepsOwned_conclude e (keepsOwned_forgetPath _ slot)

theorem keepsOwned_copyFile (msg : Message) : KeepsOwned (some conn) (copyFile msg) := by
  refine (keepsOwned_access _).bind fun source => ?_
  cases source with
  | none => exact keeps_pure _
  | some source =>
      refine (keepsOwned_access _).bind fun dest => ?_
      cases dest with
      | some dest => exact keepsOwned_copyTo msg source dest (keeps_pure ())
      | none =>
          refine keepsOwned_getAvailable.bind fun dest => ?_
          cases dest with
          | none => exact keeps_pure _
          | some dest => exact keepsOwned_copyTo msg source dest (keepsOwned_recordPath _ dest)

theorem keepsOwned_lookUp (msg : Message) : KeepsOwned (some conn) (lookUp msg) := by
  refine (keepsOwned_access _).bind fun found => ?_
  cases found with
  | some info => exact keeps_pure _
  | none =>
      refine (keepsOwned_access _).bind fun slot => ?_
      cases slot with
      | none => exact keeps_pure _
      | some slot =>
          exact (keepsOwned_access _).bind fun _ => (keepsOwned_access _).bind fun _ =>
            keeps_pure _

theorem keepsOwned_dispatch (msg : Message) : KeepsOwned (some conn) (dispatch msg) := by
  unfold dispatch
  split
  · exact keepsOwned_registerSs msg
  · exact keepsOwned_listPaths
  · exact keepsOwned_createFile msg
  · exact keepsOwned_deleteFile msg
  · exact keepsOwned_copyFile msg
  · exact keepsOwned_lookUp msg
  · exact keepsOwned_lookUp msg
  · exact keepsOwned_lookUp msg
  · exact keeps_pure _

/-- Whatever its calls return, a handler uses only what it owns, at every moment; when it is done
it has given back everything, and has sent one reply if it received a request. -/
theorem handleConnection_owned {block : Block} {tr : List (Sigma (Call.Response NmAccess.Response))}
    {rest : NmProg Unit} (htr : Trace (handleConnection conn block) tr rest)
    (hresponds : (ownership NmAccess.Response (some conn)).Responds (.start conn block) tr) :
    (ownership NmAccess.Response (some conn)).Allows (.start conn block) tr ∧
      (rest = pure () →
        ((ownership NmAccess.Response (some conn)).final (.start conn block) tr).Done) := by
  obtain ⟨hallows, hrest⟩ := (meets_serveConnection keepsOwned_dispatch).of_trace htr hresponds
  refine ⟨hallows, fun hdone => ?_⟩
  rwa [hdone] at hrest

/-- A naming server with one storage server, which has the file `a`. -/
def oneServer : NamingServer LruCache :=
  { NamingServer.init LruCache.lruInit with
    registeredSs := Function.update (fun _ => .zero) 0
      { StorageServerInfo.zero with ip := text "1.1.1.1", nmPort := 9 }
    numRegisteredSs := 1 }.recordPath [97] 0

/-- A request to copy the file `a` to `b`. -/
def copyMsg : Message :=
  { Message.zero with operation := .copyFile, path := .ofBytes _ [97], path2 := .ofBytes _ [98] }

/-- Every call of the handler succeeds. -/
def granting (_ : ℕ) : (c : Call NmAccess) → c.Response NmAccess.Response
  | .socket | .accept _ => some (4 : ℕ)
  | .connect _ _ _ | .bind _ _ | .listen _ | .send _ _ => true
  | .recv fd => some (if fd = 3 then copyMsg else .ack)
  | .getsockname _ => none
  | .malloc => some (0 : ℕ)
  | .createThread _ _ => (0 : Int32)
  | .access .nextSlot => oneServer.nextSlot
  | .access .collectPaths => oneServer.pathTrie.trieCollectPaths fun _ => 0
  | .access (.search path) => oneServer.search path
  | .access (.ssInfo slot) => oneServer.registeredSs slot
  | .access .nextForCreation => oneServer.getAvailableSsForCreation.map Prod.fst
  | .access (.lruGet _) => (none : Option StorageServerInfo)
  | .access (.lruPut _ _) => true
  | .access .lock | .access .unlock | .access (.storeSs _ _) | .access (.registerPath _ _ _)
  | .access (.countSs _) | .access (.trieInsert _ _) | .access (.appendPath _ _)
  | .access (.trieDelete _) | .access (.lruRemove _) | .access (.removePath _ _)
  | .close _ | .free _ | .detach => ()

/-- The calls of the handler of this request. -/
def copied : List (Sigma (Call.Response NmAccess.Response)) :=
  ((handleConnection 3 0).play granting 0).1

theorem trace_copied : Trace (handleConnection 3 0) copied (pure ()) :=
  trace_play granting 0 _

theorem handleConnection_owned_copied :
    ((ownership NmAccess.Response (some 3)).final (.start 3 0) copied).Done :=
  (handleConnection_owned trace_copied (by decide +kernel)).2 rfl

/-! ### What a handler does -/

structure State where
  ns : NamingServer LruCache
  /-- The handler holds `ss_list_mutex`. -/
  locked : Bool
  request : Option Message
  reply : Option Message

/-- The handler of the request does not hold the mutex and has not replied. -/
abbrev State.serving (ns : NamingServer LruCache) (msg : Message) : State :=
  ⟨ns, false, some msg, none⟩

/-- The global state, for a handler that runs alone on the connection `conn` and finds `ns₀`. The
shared records are only written with the mutex, which is not held while the handler communicates.
The storage server that it turns to and what it sends there are those of the model. -/
def globals (ns₀ : NamingServer LruCache) (conn : Fd) :
    Protocol (Call.Response NmAccess.Response) State where
  allowed s
    | .connect _ addr port => s.locked = false ∧ ∃ msg slot m, s.request = some msg ∧
        ns₀.forwards msg = some (slot, m) ∧ inetPton (ns₀.registeredSs slot).ip = some addr ∧
        htons (ns₀.registeredSs slot).nmPort = port
    | .send fd m => s.locked = false ∧ (fd ≠ conn →
        ∃ msg slot, s.request = some msg ∧ ns₀.forwards msg = some (slot, m))
    | .recv _ => s.locked = false
    | .access .lock => s.locked = false
    | .access .unlock | .access .nextSlot | .access (.storeSs _ _)
    | .access (.registerPath _ _ _) | .access (.countSs _) | .access .nextForCreation
    | .access (.trieInsert _ _) | .access (.appendPath _ _) | .access (.trieDelete _)
    | .access (.removePath _ _) => s.locked = true
    | .access (.lruRemove path) => s.locked = true ∧ (s.ns.pathLruCache.lruRemove path).isSome
    | .access (.lruGet path) => (s.ns.pathLruCache.lruGet path).isSome
    | .access (.lruPut path info) => ∀ malloc, (s.ns.pathLruCache.lruPut path info malloc).isSome
    | _ => True
  responds s
    | .socket, (fd : Option Fd) => fd ≠ some conn
    | .recv fd, (msg : Option Message) =>
      fd = conn → ∀ m, msg = some m → ∀ x, (ns₀.handleConnection m x).isSome
    | .access .nextSlot, slot => slot = s.ns.nextSlot
    | .access .nextForCreation, slot => slot = s.ns.getAvailableSsForCreation.map Prod.fst
    | .access .collectPaths, paths =>
      ∃ tempPath, paths = s.ns.pathTrie.trieCollectPaths tempPath
    | .access (.search path), slot => slot = s.ns.search path
    | .access (.ssInfo slot), info => info = s.ns.registeredSs slot
    | .access (.lruGet path), found =>
      found = (s.ns.pathLruCache.lruGet path).bind Prod.snd
    | _, _ => True
  after s
    | .recv fd, (msg : Option Message) => if fd = conn then { s with request := msg } else s
    | .send fd msg, _ => if fd = conn then { s with reply := some msg } else s
    | .access .lock, _ => { s with locked := true }
    | .access .unlock, _ => { s with locked := false }
    | .access (.storeSs msg slot), _ => { s with ns := (s.ns.storeSs msg slot).getD s.ns }
    | .access (.registerPath msg slot i), _ => { s with ns := s.ns.registerPath msg slot i }
    | .access (.countSs slot), _ => { s with ns := s.ns.countSs slot }
    | .access .nextForCreation, _ =>
      { s with ns := (s.ns.getAvailableSsForCreation.map Prod.snd).getD s.ns }
    | .access (.trieInsert path slot), _ =>
      { s with ns := { s.ns with pathTrie := s.ns.pathTrie.trieInsert slot path } }
    | .access (.appendPath path slot), _ => { s with ns := s.ns.updateSs slot (·.appendPath path) }
    | .access (.trieDelete path), _ => { s with ns := s.ns.dropPath path }
    | .access (.lruRemove path), _ =>
      { s with ns := { s.ns with
          pathLruCache := (s.ns.pathLruCache.lruRemove path).getD s.ns.pathLruCache } }
    | .access (.removePath path slot), _ => { s with ns := s.ns.updateSs slot (·.removePath path) }
    | .access (.lruGet path), _ =>
      { s with ns := { s.ns with
          pathLruCache :=
            ((s.ns.pathLruCache.lruGet path).map Prod.fst).getD s.ns.pathLruCache } }
    | .access (.lruPut path info), (malloc : Bool) =>
      { s with ns := { s.ns with
          pathLruCache :=
            (s.ns.pathLruCache.lruPut path info malloc).getD s.ns.pathLruCache } }
    | _, _ => s

section Meets

variable {ns₀ ns : NamingServer LruCache} {msg : Message} {slot : Slot} {path : Path}

theorem meets_recordPath :
    Meets (globals ns₀ conn) (recordPath path slot)
      (fun _ t => t = .serving (ns.recordPath path slot) msg) (.serving ns msg) :=
  ⟨rfl, fun _ _ => ⟨rfl, fun _ _ => ⟨rfl, fun _ _ => ⟨rfl, fun _ _ => rfl⟩⟩⟩⟩

theorem meets_forgetPath {cache : LruCache}
    (hcache : (ns.dropPath path).pathLruCache.lruRemove path = some cache) :
    Meets (globals ns₀ conn) (forgetPath path slot)
      (fun _ t => t = .serving ((ns.dropPath path).forgetPath path slot cache) msg)
      (.serving ns msg) := by
  have hns : ({ ns.dropPath path with
      pathLruCache := ((ns.dropPath path).pathLruCache.lruRemove path).getD
        (ns.dropPath path).pathLruCache } : NamingServer LruCache).updateSs slot
        (·.removePath path) = (ns.dropPath path).forgetPath path slot cache := by
    rw [hcache]
    rfl
  exact ⟨rfl, fun _ _ => ⟨rfl, fun _ _ => ⟨⟨rfl, Option.isSome_of_eq_some hcache⟩,
    fun _ _ => ⟨rfl, fun _ _ => ⟨rfl, fun _ _ => congrArg (State.serving · msg) hns⟩⟩⟩⟩⟩

/-- The exchange with the storage server that the model names, whatever comes of it. -/
theorem meets_forward {m : Message} {request : NmProg Message}
    (hforwards : ns₀.forwards msg = some (slot, m))
    (hslot : ns.registeredSs slot = ns₀.registeredSs slot)
    (hrequest : Meets (globals ns₀ conn) request
      (fun a t => a = m ∧ t = .serving ns msg) (.serving ns msg)) :
    Meets (globals ns₀ conn) (forward slot request)
      (fun _ t => t = .serving ns msg) (.serving ns msg) := by
  have haddress : Meets (globals ns₀ conn) (ssInfo slot >>= fun info =>
      pure (info.ip, info.nmPort))
      (fun a t => a = ((ns.registeredSs slot).ip, (ns.registeredSs slot).nmPort) ∧
        t = .serving ns msg) (.serving ns msg) := by
    refine ⟨trivial, fun info hinfo => ?_⟩
    obtain rfl : info = ns.registeredSs slot := hinfo
    exact ⟨rfl, rfl⟩
  have hother : ∀ fd, fd ≠ conn → (∀ m sent, (globals ns₀ conn).after (.serving ns msg)
      (.send fd m) sent = .serving ns msg) ∧ ∀ r, (globals ns₀ conn).after (.serving ns msg)
      (.recv fd) r = .serving ns msg := fun fd hne => ⟨fun _ _ => if_neg hne, fun _ => if_neg hne⟩
  refine meets_exchange (I := fun fd t => fd ≠ conn ∧ t = .serving ns msg)
    (J := fun a => a = ((ns.registeredSs slot).ip, (ns.registeredSs slot).nmPort))
    (K := fun a => a = m) ⟨trivial, fun fd hfd => ?_⟩ ?_ ?_ ?_ ?_ ?_ ?_
  · refine ⟨fun _ => rfl, fun n hn => ⟨fun h => hfd ?_, rfl⟩⟩
    rw [hn, h]
  · rintro fd _ ⟨hne, rfl⟩
    exact haddress.mono fun _ _ h => ⟨h.1, hne, h.2⟩
  · rintro fd _ _ rfl ⟨hne, rfl⟩
    unfold connectToServer
    split
    · exact ⟨hne, rfl⟩
    · next addr haddr =>
        rw [hslot] at haddr ⊢
        exact ⟨⟨rfl, msg, slot, m, rfl, hforwards, haddr, rfl⟩, fun _ _ => ⟨hne, rfl⟩⟩
  · rintro fd _ ⟨hne, rfl⟩
    exact hrequest.mono fun _ _ h => ⟨h.1, hne, h.2⟩
  · rintro fd _ _ rfl ⟨hne, rfl⟩
    exact ⟨⟨rfl, fun _ => ⟨msg, slot, rfl, hforwards⟩⟩, fun _ _ => ⟨hne, (hother fd hne).1 _ _⟩⟩
  · rintro fd _ ⟨hne, rfl⟩
    refine ⟨rfl, fun response _ => ?_⟩
    rw [(hother fd hne).2]
    exact ⟨fun _ => ⟨trivial, fun _ _ => rfl⟩, fun _ _ => ⟨trivial, fun _ _ => rfl⟩⟩
  · rintro fd _ ⟨-, rfl⟩
    exact ⟨trivial, fun _ _ => ⟨rfl, rfl⟩⟩

theorem meets_conclude (e : Exchange) {update : NmProg Unit}
    {u : NamingServer LruCache → Option (NamingServer LruCache)}
    (hdefined : (ns.conclude e u).isSome)
    (hupdate : ∀ ns', u ns = some ns' → Meets (globals ns₀ conn) update
      (fun _ t => t = .serving ns' msg) (.serving ns msg)) :
    Meets (globals ns₀ conn) (conclude e update)
      (fun reply t => ∃ ns', ns.conclude e u = some (ns', reply) ∧ t = .serving ns' msg)
      (.serving ns msg) := by
  unfold conclude
  unfold NamingServer.conclude at hdefined ⊢
  generalize e.result = result at hdefined ⊢
  cases result with
  | error code => exact ⟨ns, rfl, rfl⟩
  | ok response =>
      dsimp only at hdefined ⊢
      split_ifs at hdefined ⊢ with hresponse
      · obtain ⟨ns', hns'⟩ := Option.isSome_iff_exists.mp (Option.isSome_map.symm.trans hdefined)
        refine meets_bind.mpr ((hupdate ns' hns').mono ?_)
        rintro _ t rfl
        exact ⟨ns', by rw [hns']; rfl, rfl⟩
      · exact ⟨ns, rfl, rfl⟩

/-- The reply and the new state are what a function of the sequential model gives, for some
behaviour of the surroundings. -/
def Follows (f : Surroundings → Option (NamingServer LruCache × Message)) (msg reply : Message)
    (t : State) : Prop :=
  ∃ x ns', f x = some (ns', reply) ∧ t = .serving ns' msg

theorem follows_of_forall {f : Surroundings → Option (NamingServer LruCache × Message)}
    {ns' : NamingServer LruCache} {reply : Message} (h : ∀ x, f x = some (ns', reply)) :
    Follows f msg reply (.serving ns' msg) :=
  ⟨⟨.socketFailed, true, fun _ => 0⟩, ns', h _, rfl⟩

/-- The end of an operation that involves a storage server. -/
theorem meets_forward_conclude {m : Message} {request : NmProg Message} {update : NmProg Unit}
    {u : NamingServer LruCache → Option (NamingServer LruCache)}
    {f : Surroundings → Option (NamingServer LruCache × Message)}
    (hforwards : ns₀.forwards msg = some (slot, m))
    (hslot : ns.registeredSs slot = ns₀.registeredSs slot)
    (hrequest : Meets (globals ns₀ conn) request
      (fun a t => a = m ∧ t = .serving ns msg) (.serving ns msg))
    (hf : ∀ x, f x = ns.conclude x.exchange u) (hdefined : ∀ x, (f x).isSome)
    (hupdate : ∀ ns', u ns = some ns' → Meets (globals ns₀ conn) update
      (fun _ t => t = .serving ns' msg) (.serving ns msg)) :
    Meets (globals ns₀ conn) (forward slot request >>= fun e => conclude e update)
      (Follows f msg) (.serving ns msg) := by
  refine meets_bind.mpr ((meets_forward hforwards hslot hrequest).mono ?_)
  rintro e t rfl
  have hsome : (ns.conclude e u).isSome := hf ⟨e, true, fun _ => 0⟩ ▸ hdefined _
  refine (meets_conclude e hsome hupdate).mono ?_
  rintro reply t ⟨ns', hns', rfl⟩
  exact ⟨⟨e, true, fun _ => 0⟩, ns', (hf _).trans hns', rfl⟩

theorem meets_trieSearch {Q : Option Slot → State → Prop}
    (hQ : Q (ns.search path) (.serving ns msg)) :
    Meets (globals ns₀ conn) (trieSearch path) Q (.serving ns msg) := by
  refine ⟨trivial, fun found hfound => ?_⟩
  obtain rfl : found = ns.search path := hfound
  exact hQ

theorem meets_pick {Q : Option Slot → State → Prop}
    (hnone : ns.getAvailableSsForCreation = none → Q none (.serving ns msg))
    (hsome : ∀ slot ns', ns.getAvailableSsForCreation = some (slot, ns') →
      Q (some slot) (.serving ns' msg)) :
    Meets (globals ns₀ conn) getAvailableSsForCreation Q (.serving ns msg) := by
  have hpick : Q (ns.getAvailableSsForCreation.map Prod.fst)
      (.serving ((ns.getAvailableSsForCreation.map Prod.snd).getD ns) msg) := by
    cases hget : ns.getAvailableSsForCreation with
    | none => exact hnone hget
    | some found => exact hsome found.1 found.2 hget
  refine ⟨rfl, fun _ _ => ⟨rfl, fun found hfound => ⟨rfl, fun _ _ => ?_⟩⟩⟩
  obtain rfl : found = ns.getAvailableSsForCreation.map Prod.fst := hfound
  exact hpick

theorem registeredSs_of_pick {ns' : NamingServer LruCache} (j : Slot)
    (h : ns.getAvailableSsForCreation = some (slot, ns')) :
    ns'.registeredSs j = ns.registeredSs j := by
  rw [(NamingServer.getAvailableSsForCreation_eq_some h).2.2.2]

theorem meets_createFile (hop : msg.operation = .createFile)
    (hdefined : ∀ x, (ns.createFile msg x).isSome) :
    Meets (globals ns conn) (createFile msg) (Follows (ns.createFile msg) msg)
      (.serving ns msg) := by
  refine meets_bind.mpr (meets_trieSearch ?_)
  cases hsearch : ns.search msg.path.str with
  | some found => exact follows_of_forall fun x => by simp [NamingServer.createFile, hsearch]
  | none =>
      refine meets_bind.mpr (meets_pick (fun hnone => ?_) fun slot ns' hpick => ?_)
      · exact follows_of_forall fun x => by simp [NamingServer.createFile, hsearch, hnone]
      · refine meets_forward_conclude (m := msg)
          (u := fun ns => some (ns.recordPath msg.path.str slot)) ?_
          (registeredSs_of_pick slot hpick) ⟨rfl, rfl⟩ (fun x => ?_) hdefined fun ns'' h => ?_
        · simp [NamingServer.forwards, hop, hsearch, hpick]
        · simp [NamingServer.createFile, hsearch, hpick]
        · obtain rfl := Option.some.inj h
          exact meets_recordPath

theorem meets_deleteFile (hop : msg.operation = .deleteFile)
    (hdefined : ∀ x, (ns.deleteFile msg x).isSome) :
    Meets (globals ns conn) (deleteFile msg) (Follows (ns.deleteFile msg) msg)
      (.serving ns msg) := by
  refine meets_bind.mpr (meets_trieSearch ?_)
  cases hsearch : ns.search msg.path.str with
  | none => exact follows_of_forall fun x => by simp [NamingServer.deleteFile, hsearch]
  | some slot =>
      refine meets_forward_conclude (m := msg) (u := fun ns =>
          ((ns.dropPath msg.path.str).pathLruCache.lruRemove msg.path.str).map fun cache =>
            (ns.dropPath msg.path.str).forgetPath msg.path.str slot cache) ?_ rfl ⟨rfl, rfl⟩
        (fun x => ?_) hdefined fun ns' h => ?_
      · simp [NamingServer.forwards, hop, hsearch]
      · simp [NamingServer.deleteFile, hsearch]
      · obtain ⟨cache, hcache, rfl⟩ := Option.map_eq_some_iff.mp h
        exact meets_forgetPath hcache

/-- The request to the server of the source names the server of the destination. -/
theorem meets_copyRequest (dest : Slot) :
    Meets (globals ns₀ conn) (ssInfo dest >>= fun info => pure (msg.copyRequest info))
      (fun a t => a = msg.copyRequest (ns.registeredSs dest) ∧ t = .serving ns msg)
      (.serving ns msg) := by
  refine ⟨trivial, fun info hinfo => ?_⟩
  obtain rfl : info = ns.registeredSs dest := hinfo
  exact ⟨rfl, rfl⟩

theorem meets_copyFile (hop : msg.operation = .copyFile)
    (hdefined : ∀ x, (ns.copyFile msg x).isSome) :
    Meets (globals ns conn) (copyFile msg) (Follows (ns.copyFile msg) msg) (.serving ns msg) := by
  refine meets_bind.mpr (meets_trieSearch ?_)
  cases hsource : ns.search msg.path.str with
  | none => exact follows_of_forall fun x => by simp [NamingServer.copyFile, hsource]
  | some source =>
      refine meets_bind.mpr (meets_trieSearch ?_)
      cases hdest : ns.search msg.path2.str with
      | some dest =>
          refine meets_forward_conclude (u := some) ?_ rfl (meets_copyRequest dest)
            (fun x => ?_) hdefined fun ns' h => ?_
          · simp [NamingServer.forwards, hop, hsource, hdest]
          · simp [NamingServer.copyFile, hsource, hdest]
          · obtain rfl := Option.some.inj h
            exact rfl
      | none =>
          refine meets_bind.mpr (meets_pick (fun hnone => ?_) fun dest ns' hpick => ?_)
          · exact follows_of_forall fun x => by
              simp [NamingServer.copyFile, hsource, hdest, hnone]
          · refine meets_forward_conclude (u := fun ns => some (ns.recordPath msg.path2.str dest))
              ?_ (registeredSs_of_pick source hpick) (meets_copyRequest dest) (fun x => ?_) hdefined
              fun ns'' h => ?_
            · simp [NamingServer.forwards, hop, hsource, hdest, hpick,
                registeredSs_of_pick dest hpick]
            · simp [NamingServer.copyFile, hsource, hdest, hpick]
            · obtain rfl := Option.some.inj h
              exact meets_recordPath

/-- A miss of the cache, for a path of the trie. -/
theorem lookUp_of_miss {cache : LruCache} (x : Surroundings)
    (hget : ns.pathLruCache.lruGet msg.path.str = some (cache, none))
    (hslot : ns.search msg.path.str = some slot) :
    ns.lookUp msg x = (cache.lruPut msg.path.str (ns.registeredSs slot) x.malloc).map fun cache =>
      ({ ns with pathLruCache := cache }, .located (ns.registeredSs slot)) := by
  have hsearch : ({ ns with pathLruCache := cache } : NamingServer LruCache).search
      msg.path.str = some slot := hslot
  unfold NamingServer.lookUp
  simp only [hget, hsearch, Option.map_some, Option.bind_eq_bind, Option.bind_some]
  cases cache.lruPut msg.path.str (ns.registeredSs slot) x.malloc <;> rfl

theorem meets_lookUp (hdefined : ∀ x, (ns.lookUp msg x).isSome) :
    Meets (globals ns conn) (lookUp msg) (Follows (ns.lookUp msg) msg) (.serving ns msg) := by
  cases hget : ns.pathLruCache.lruGet msg.path.str with
  | none =>
      have hnone := hdefined ⟨.socketFailed, true, fun _ => 0⟩
      simp [NamingServer.lookUp, hget] at hnone
  | some found =>
      obtain ⟨cache, found⟩ := found
      refine ⟨Option.isSome_of_eq_some hget, fun r hr => ?_⟩
      obtain rfl : r = found := by
        change r = (ns.pathLruCache.lruGet msg.path.str).bind Prod.snd at hr
        simpa [hget] using hr
      have hafter : (globals ns conn).after (.serving ns msg) (.access (.lruGet msg.path.str)) r =
          .serving { ns with pathLruCache := cache } msg := by
        simp [globals, hget]
      rw [hafter]
      cases r with
      | some info =>
          exact follows_of_forall fun x => by simp [NamingServer.lookUp, hget, Message.answerLookup]
      | none =>
          refine meets_bind.mpr (meets_trieSearch ?_)
          have hsearch : ({ ns with pathLruCache := cache } : NamingServer LruCache).search
              msg.path.str = ns.search msg.path.str := rfl
          rw [hsearch]
          cases hslot : ns.search msg.path.str with
          | none =>
              exact follows_of_forall fun x => by
                simp [NamingServer.lookUp, hget, hsearch, hslot, Message.answerLookup]
          | some slot =>
              have hput : ∀ malloc, (cache.lruPut msg.path.str (ns.registeredSs slot)
                  malloc).isSome := by
                intro malloc
                have h := hdefined ⟨.socketFailed, malloc, fun _ => 0⟩
                rwa [lookUp_of_miss _ hget hslot, Option.isSome_map] at h
              refine ⟨trivial, fun info hinfo => ⟨?_, fun malloc _ => ?_⟩⟩
              · obtain rfl : info = ns.registeredSs slot := hinfo
                exact hput
              · obtain rfl : info = ns.registeredSs slot := hinfo
                obtain ⟨cache', hcache'⟩ := Option.isSome_iff_exists.mp (hput malloc)
                refine ⟨⟨.socketFailed, malloc, fun _ => 0⟩, { ns with pathLruCache := cache' },
                  ?_, ?_⟩
                · rw [lookUp_of_miss _ hget hslot, hcache']
                  rfl
                · exact congrArg (fun c => State.serving { ns with pathLruCache := c } msg)
                    (congrArg (Option.getD · cache) hcache')

theorem meets_registerPaths (l : List (Fin maxAccessiblePaths)) :
    Meets (globals ns₀ conn) (registerPaths msg slot l)
      (fun _ t => t = ⟨l.foldl (·.registerPath msg slot ·) ns, true, some msg, none⟩)
      ⟨ns, true, some msg, none⟩ := by
  induction l generalizing ns with
  | nil => exact rfl
  | cons i l ih => exact ⟨rfl, fun _ _ => ih⟩

theorem meets_registerSs (hdefined : (ns.registerSs msg).isSome) :
    Meets (globals ns conn) (registerSs msg) (Follows (fun _ => ns.registerSs msg) msg)
      (.serving ns msg) := by
  refine ⟨rfl, fun _ _ => ⟨rfl, fun slot hslot => ?_⟩⟩
  replace hslot : ns.nextSlot = slot := hslot.symm
  change Meets (globals ns conn) _ _ ⟨ns, true, some msg, none⟩
  unfold NamingServer.registerSs at hdefined ⊢
  rw [hslot] at hdefined ⊢
  cases slot with
  | none => exact ⟨rfl, fun _ _ => follows_of_forall fun _ => rfl⟩
  | some slot =>
      obtain ⟨ns', hstore⟩ := Option.isSome_iff_exists.mp (Option.isSome_map.symm.trans hdefined)
      refine ⟨rfl, fun stored _ => ?_⟩
      have hafter : (globals ns conn).after ⟨ns, true, some msg, none⟩
          (.access (.storeSs msg slot)) stored = ⟨ns', true, some msg, none⟩ := by
        simp [globals, hstore]
      rw [hafter]
      change Meets (globals ns conn) (registerPaths msg slot _ >>= _) _ _
      refine meets_bind.mpr ((meets_registerPaths _).mono ?_)
      rintro _ t rfl
      refine ⟨rfl, fun _ _ => ⟨rfl, fun _ _ => follows_of_forall fun _ => ?_⟩⟩
      exact congrArg (Option.map _) hstore

theorem meets_listPaths :
    Meets (globals ns conn) listPaths (Follows (fun x => some (ns, ns.listPaths x)) msg)
      (.serving ns msg) := by
  refine ⟨trivial, fun block _ => ?_⟩
  cases block with
  | none => exact ⟨⟨.socketFailed, false, fun _ => 0⟩, ns, rfl, rfl⟩
  | some block =>
      refine ⟨trivial, fun paths hpaths => ⟨trivial, fun _ _ => ?_⟩⟩
      obtain ⟨tempPath, rfl⟩ : ∃ tempPath, paths = ns.pathTrie.trieCollectPaths tempPath := hpaths
      exact ⟨⟨.socketFailed, true, tempPath⟩, ns, rfl, rfl⟩

theorem meets_dispatch (hdefined : ∀ x, (ns.handleConnection msg x).isSome) :
    Meets (globals ns conn) (dispatch msg) (Follows (fun x => ns.handleConnection msg x) msg)
      (.serving ns msg) := by
  unfold dispatch
  cases hop : msg.operation <;> simp only [NamingServer.handleConnection, hop] at hdefined ⊢
  case registerSs => exact meets_registerSs (hdefined ⟨.socketFailed, true, fun _ => 0⟩)
  case listPaths => exact meets_listPaths
  case createFile => exact meets_createFile hop hdefined
  case deleteFile => exact meets_deleteFile hop hdefined
  case copyFile => exact meets_copyFile hop hdefined
  case readFile => exact meets_lookUp hdefined
  case writeFile => exact meets_lookUp hdefined
  case getFileInfo => exact meets_lookUp hdefined
  all_goals exact follows_of_forall fun _ => rfl

/-- What is left of a handler that found `ns`: the outcome of the model for the request that it
received, with the mutex released. -/
def State.Served (ns : NamingServer LruCache) (t : State) : Prop :=
  t.locked = false ∧ (t.request = none → t.ns = ns) ∧
    ∀ msg, t.request = some msg →
      ∃ x reply, ns.handleConnection msg x = some (t.ns, reply) ∧ t.reply = some reply

theorem meets_handleConnection {block : Block} :
    Meets (globals ns conn) (handleConnection conn block) (fun _ t => t.Served ns)
      ⟨ns, false, none, none⟩ := by
  refine ⟨trivial, fun _ _ => ⟨rfl, fun msg hmsg => ?_⟩⟩
  have hreceived : ∀ t : State, (globals ns conn).after t (.recv conn) msg =
      { t with request := msg } := fun _ => if_pos rfl
  rw [hreceived]
  cases msg with
  | none => exact ⟨trivial, fun _ _ => ⟨rfl, fun _ => rfl, fun _ h => absurd h nofun⟩⟩
  | some msg =>
      change Meets (globals ns conn) (dispatch msg >>= _) _ (.serving ns msg)
      refine meets_bind.mpr ((meets_dispatch (hmsg rfl msg rfl)).mono ?_)
      rintro reply t ⟨x, ns', hreply, rfl⟩
      refine ⟨⟨rfl, fun h => absurd rfl h⟩, fun sent _ => ⟨trivial, fun _ _ => ?_⟩⟩
      have hsent : ∀ t : State, (globals ns conn).after t (.send conn reply) sent =
          { t with reply := some reply } := fun _ => if_pos rfl
      rw [hsent]
      refine ⟨rfl, nofun, fun m hm => ⟨x, reply, ?_, rfl⟩⟩
      obtain rfl := Option.some.inj hm
      exact hreply

theorem isSome_copyMsg (x : Surroundings) : (oneServer.handleConnection copyMsg x).isSome := by
  have hsource : oneServer.search copyMsg.path.str = some 0 := NamingServer.search_recordPath ..
  have hdest : oneServer.search copyMsg.path2.str = none := NamingServer.search_recordPath ..
  have hpick : oneServer.getAvailableSsForCreation = some (0, oneServer) := rfl
  change (oneServer.copyFile copyMsg x).isSome
  simp only [NamingServer.copyFile, hsource, hdest, hpick, NamingServer.conclude]
  cases x.exchange.result with
  | error code => rfl
  | ok response =>
      dsimp only
      split_ifs <;> rfl

theorem responds_copied :
    (globals oneServer 3).Responds ⟨oneServer, false, none, none⟩ copied := by
  refine ⟨trivial, ?_, rfl, rfl, trivial, rfl, trivial, ?_, rfl, trivial, rfl, trivial, ?_, trivial,
    trivial, trivial, trivial, trivial, trivial, trivial, trivial⟩
  · intro _ m hm
    obtain rfl : copyMsg = m := Option.some.inj hm
    exact isSome_copyMsg
  · exact nofun
  · exact nofun

end Meets

end Naming

end Sockets
end NetworkFileSystem
