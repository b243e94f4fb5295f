import NetworkFileSystem.NamingServer
import NetworkFileSystem.StorageServer
import NetworkFileSystem.Library.Interleaving

/-!
# The servers and clients together

Each request of a client is one process: the client program, the handler thread of the naming
server, the NM handler thread of one storage server, and the client handler thread of one storage
server. A thread that sends a message puts the receiving thread into a state that holds the
message; a reply stays with its sender until it is received. A message arrives whole or not at
all. A thread does one access to shared state per step, so that the requests interleave between any
two of these accesses. The lookup cache is a map from paths to servers.
-/

namespace NetworkFileSystem

abbrev Server := ℕ

/-- The storage server that listens at an address, for the naming server and for clients. -/
structure Network where
  nmListener : CString → Int32 → Option Server
  clientListener : CString → Int32 → Option Server

abbrev IdealCache := Path → Option StorageServerInfo

structure Shared where
  nm : NamingServer IdealCache
  /-- The request whose handler holds `ss_list_mutex` from one step to the next. -/
  ssListMutex : Option ℕ
  disks : Server → Disk

/-- What a handler of the naming server has a storage server do. -/
inductive Job
  | create (msg : Message) (target : Slot)
  | delete (msg : Message) (target : Slot)
  | copy (msg : Message) (source dest : Slot) (isNew : Bool)

namespace Job

/-- The request of the client. -/
def msg : Job → Message
  | create msg _ | delete msg _ | copy msg _ _ _ => msg

/-- The storage server that gets the request. -/
def target : Job → Slot
  | create _ target | delete _ target => target
  | copy _ source _ _ => source

/-- The request to the storage server. -/
def request (nm : NamingServer IdealCache) : Job → Message
  | create msg _ | delete msg _ => msg
  | copy msg _ dest _ => .copyRequest msg (nm.registeredSs dest)

end Job

inductive ClientThread
  | idle
  | asked (msg : Message)
  /-- The reply of the naming server is there, or on its way. -/
  | replied (msg reply : Message)
  /-- The request was sent to the storage server that the reply names. -/
  | contacted
  | finished

/-- The naming server sends its reply; a client that gave up does not get it. -/
def ClientThread.hear (c : ClientThread) (msg reply : Message) : ClientThread :=
  match c with
  | asked _ => replied msg reply
  | c => c

inductive NmThread
  | idle
  | incoming (msg : Message)
  | received (msg : Message)
  /-- In the loop over the accessible paths, with the mutex. -/
  | registering (msg : Message) (slot : Slot) (i : ℕ)
  | createChecked (msg : Message)
  | copyFound (msg : Message) (source : Slot)
  | copyUnplaced (msg : Message) (source : Slot)
  | lookupMissed (msg : Message)
  | lookupFound (msg : Message) (slot : Slot)
  | connecting (job : Job)
  | awaiting (job : Job)
  /-- The storage server reported success. -/
  | concluding (job : Job)
  /-- Between `trie_delete` and `lru_remove`, with the mutex. -/
  | deleteDropped (msg : Message) (slot : Slot)
  | answering (msg reply : Message)
  | finished

inductive SsNmThread
  | idle
  | incoming (s : Server) (msg : Message)
  /-- The source of a copy was read. -/
  | copyRead (s : Server) (msg : Message) (bytes : List UInt8)
  /-- The bytes were sent to the server of the destination. -/
  | copyAwaiting (s : Server) (msg : Message) (bytes : List UInt8)
  | answering (s : Server) (response : Message)
  | finished

inductive SsClientThread
  | idle
  | incoming (s : Server) (msg : Message)
  | answering (s : Server) (response : Message)
  | finished

/-- The threads that serve one request. -/
structure Threads where
  client : ClientThread
  nm : NmThread
  ssNm : SsNmThread
  ssClient : SsClientThread

namespace Threads

def start : Threads := ⟨.idle, .idle, .idle, .idle⟩

/-- The handler of the naming server settles on its reply. -/
def answer (t : Threads) (msg reply : Message) : Threads :=
  { t with nm := .answering msg reply }

end Threads

inductive FileOp
  | create (path : Path) (type : FileType)
  | delete (path : Path)
  | read (path : Path) (bytes : List UInt8)
  | write (path : Path) (data : List UInt8)

inductive Event
  /-- A handler of the naming server received the request. -/
  | handling (msg : Message)
  /-- `trie_search` returned this. -/
  | searched (path : Path) (found : Option Slot)
  /-- `get_available_ss_for_creation` returned this. -/
  | picked (slot : Slot)
  /-- A storage server performed the file operation, with this result. -/
  | executed (s : Server) (op : FileOp) (os : Os) (code : ErrorCode)
  /-- The handler of a request for this operation inserted the path in the trie. -/
  | inserted (operation : OperationType) (path : Path)
  /-- The path was deleted from the trie. -/
  | erased (path : Path)
  /-- The path was removed from the lookup cache. -/
  | invalidated (path : Path)
  /-- The request was sent to a storage server, and receiving its reply failed. -/
  | lostReply
  /-- The naming server sent the reply to the client. -/
  | answered (msg reply : Message)

/-- The call on a connection that fails. -/
inductive Failure
  | socket
  | connect
  | send
  | receive

def Failure.code : Failure → ErrorCode
  | connect => .ssUnavailable
  | socket | send | receive => .networkError

/-- One step of one of the threads of a request; a failing step is an action of its own. -/
inductive Action
  | submit (msg : Message)
  | client
  | clientFail
  | nm
  | nmFail (f : Failure)
  /-- LIST_PATHS gets no buffer. -/
  | nmMallocFail
  | ssNm (os : Os)
  | ssNmFail (f : Failure)
  | ssClient (os : Os)
  | ssClientFail

/-- The strings of the request are terminated, and the sizes fit the arrays. Other requests are left
out: the servers would read and write beyond the arrays. -/
def Message.Sendable (msg : Message) : Prop :=
  msg.path.str.length < maxPathLen ∧ msg.path2.str.length < maxPathLen ∧
    msg.ssIp.str.length < inetAddrStrLen ∧
    (0 ≤ msg.dataSize.toInt ∧ msg.dataSize.toInt ≤ maxDataSize) ∧
    (0 ≤ msg.numAccessiblePaths.toInt ∧ msg.numAccessiblePaths.toInt ≤ maxAccessiblePaths)

instance (msg : Message) : Decidable msg.Sendable := inferInstanceAs (Decidable (_ ∧ _))

/-- The path that the request may change. -/
def Message.target (msg : Message) : Path :=
  if msg.operation = .copyFile then msg.path2.str else msg.path.str

abbrev Outcome := Option (Shared × Threads × List Event)

section Steps

variable (net : Network) (r : ℕ) (sh : Shared) (t : Threads)

/-! ### The handler of the naming server -/

/-- The first access to shared state, by operation. -/
def dispatch (msg : Message) : Outcome :=
  match msg.operation with
  | .registerSs =>
    if sh.ssListMutex = none then
      match sh.nm.nextSlot with
      | none => some (sh, t.answer msg (.nack .ssUnavailable), [])
      | some slot =>
        (sh.nm.storeSs msg slot).map fun nm =>
          ({ sh with nm := nm, ssListMutex := some r },
            { t with nm := .registering msg slot 0 }, [])
    else none
  | .listPaths =>
    some (sh, t.answer msg (.pathList (sh.nm.pathTrie.trieCollectPaths fun _ => 0)), [])
  | .createFile =>
    match sh.nm.search msg.path.str with
    | some slot =>
      some (sh, t.answer msg (.nack .fileExists), [.searched msg.path.str (some slot)])
    | none => some (sh, { t with nm := .createChecked msg }, [.searched msg.path.str none])
  | .deleteFile =>
    match sh.nm.search msg.path.str with
    | none => some (sh, t.answer msg (.nack .fileNotFound), [.searched msg.path.str none])
    | some slot =>
      some (sh, { t with nm := .connecting (.delete msg slot) },
        [.searched msg.path.str (some slot)])
  | .copyFile =>
    match sh.nm.search msg.path.str with
    | none => some (sh, t.answer msg (.nack .fileNotFound), [.searched msg.path.str none])
    | some slot =>
      some (sh, { t with nm := .copyFound msg slot }, [.searched msg.path.str (some slot)])
  | .readFile | .writeFile | .getFileInfo =>
    match sh.nm.pathLruCache msg.path.str with
    | some info => some (sh, t.answer msg (.located info), [])
    | none => some (sh, { t with nm := .lookupMissed msg }, [])
  | _ => some (sh, t.answer msg (.nack .invalidOperation), [])

/-- `get_available_ss_for_creation`, and on to the connection. -/
def pick (msg : Message) (job : Slot → Job) : Outcome :=
  if sh.ssListMutex = none then
    match sh.nm.getAvailableSsForCreation with
    | none => some (sh, t.answer msg (.nack .ssUnavailable), [])
    | some (slot, nm) =>
      some ({ sh with nm := nm }, { t with nm := .connecting (job slot) }, [.picked slot])
  else none

/-- Connect to the storage server and send the request, which arrives whole. -/
def forward (job : Job) : Outcome :=
  let info := sh.nm.registeredSs job.target
  match net.nmListener info.ip info.nmPort with
  | none => some (sh, t.answer job.msg (.nack .ssUnavailable), [])
  | some s =>
    some (sh, { t with nm := .awaiting job, ssNm := .incoming s (job.request sh.nm) }, [])

/-- Receive the whole reply of the storage server. -/
def receiveResponse (job : Job) : Outcome :=
  match t.ssNm with
  | .answering _ response =>
    if response.Succeeded then
      some (sh, { t with nm := .concluding job, ssNm := .finished }, [])
    else
      some (sh, { t.answer job.msg (.nack response.errorCode) with ssNm := .finished }, [])
  | _ => none

/-- The update after the success of the storage server. -/
def conclude : Job → Outcome
  | .create msg slot =>
    if sh.ssListMutex = none then
      some ({ sh with nm := sh.nm.recordPath msg.path.str slot }, t.answer msg .ack,
        [.inserted .createFile msg.path.str])
    else none
  | .delete msg slot =>
    if sh.ssListMutex = none then
      some ({ sh with nm := sh.nm.dropPath msg.path.str, ssListMutex := some r },
        { t with nm := .deleteDropped msg slot }, [.erased msg.path.str])
    else none
  | .copy msg _ dest isNew =>
    if isNew then
      if sh.ssListMutex = none then
        some ({ sh with nm := sh.nm.recordPath msg.path2.str dest }, t.answer msg .ack,
          [.inserted .copyFile msg.path2.str])
      else none
    else some (sh, t.answer msg .ack, [])

def nmStep : Outcome :=
  match t.nm with
  | .incoming msg => some (sh, { t with nm := .received msg }, [.handling msg])
  | .received msg => dispatch r sh t msg
  | .registering msg slot i =>
    match (NamingServer.pathIndices msg)[i]? with
    | some k =>
      some ({ sh with nm := sh.nm.registerPath msg slot k },
        { t with nm := .registering msg slot (i + 1) },
        [.inserted .registerSs (msg.accessiblePaths.get k).str])
    | none =>
      some ({ sh with nm := sh.nm.countSs slot, ssListMutex := none }, t.answer msg .ack, [])
  | .createChecked msg => pick sh t msg (.create msg)
  | .copyFound msg source =>
    match sh.nm.search msg.path2.str with
    | some dest =>
      some (sh, { t with nm := .connecting (.copy msg source dest false) },
        [.searched msg.path2.str (some dest)])
    | none =>
      some (sh, { t with nm := .copyUnplaced msg source }, [.searched msg.path2.str none])
  | .copyUnplaced msg source => pick sh t msg (.copy msg source · true)
  | .lookupMissed msg =>
    match sh.nm.search msg.path.str with
    | none => some (sh, t.answer msg (.nack .fileNotFound), [.searched msg.path.str none])
    | some slot =>
      some (sh, { t with nm := .lookupFound msg slot }, [.searched msg.path.str (some slot)])
  | .lookupFound msg slot =>
    let info := sh.nm.registeredSs slot
    let cache := Function.update sh.nm.pathLruCache msg.path.str (some info)
    some ({ sh with nm := { sh.nm with pathLruCache := cache } }, t.answer msg (.located info), [])
  | .connecting job => forward net sh t job
  | .awaiting job => receiveResponse sh t job
  | .concluding job => conclude r sh t job
  | .deleteDropped msg slot =>
    let cache := Function.update sh.nm.pathLruCache msg.path.str none
    some ({ sh with nm := sh.nm.forgetPath msg.path.str slot cache, ssListMutex := none },
      t.answer msg .ack, [.invalidated msg.path.str])
  | .answering msg reply =>
    some (sh, { t with nm := .finished, client := t.client.hear msg reply },
      [.answered msg reply])
  | .idle | .finished => none

def nmFailStep (f : Failure) : Outcome :=
  match t.nm, f with
  | .incoming _, .receive => some (sh, { t with nm := .finished }, [])
  | .connecting _, .receive => none
  | .connecting job, f => some (sh, t.answer job.msg (.nack f.code), [])
  | .awaiting job, .receive => some (sh, t.answer job.msg (.nack f.code), [.lostReply])
  | _, _ => none

/-- `malloc` fails for the list of paths. -/
def nmMallocFailStep : Outcome :=
  match t.nm with
  | .received msg =>
    if msg.operation = .listPaths then some (sh, t.answer msg (.nack .networkError), [])
    else none
  | _ => none

/-! ### The NM handler of a storage server -/

def ssNmStep (os : Os) : Outcome :=
  match t.ssNm with
  | .incoming s msg =>
    match msg.operation with
    | .createFile =>
      let (code, disk) := (sh.disks s).createFile os msg
      some ({ sh with disks := Function.update sh.disks s disk },
        { t with ssNm := .answering s (.result code) },
        [.executed s (.create msg.path.str msg.fileType) os code])
    | .deleteFile =>
      let (code, disk) := (sh.disks s).deleteFile os msg
      some ({ sh with disks := Function.update sh.disks s disk },
        { t with ssNm := .answering s (.result code) },
        [.executed s (.delete msg.path.str) os code])
    | .copyFile =>
      let (code, bytes) := (sh.disks s).readFile os msg
      some (sh,
        { t with
          ssNm := if code = .success then .copyRead s msg bytes else .answering s (.nack code) },
        [.executed s (.read msg.path.str bytes) os code])
    | _ => some (sh, { t with ssNm := .answering s (.nack .invalidOperation) }, [])
  | .copyRead s msg bytes =>
    match net.clientListener msg.destSsIp.str msg.destSsClientPort with
    | none => some (sh, { t with ssNm := .answering s (.nack .ssUnavailable) }, [])
    | some dest =>
      some (sh,
        { t with
          ssNm := .copyAwaiting s msg bytes, ssClient := .incoming dest (.writeRequest msg bytes) },
        [])
  | .copyAwaiting s _ _ =>
    match t.ssClient with
    | .answering _ response =>
      let reply := if response.Succeeded then .ack else .nack response.errorCode
      some (sh, { t with ssNm := .answering s reply, ssClient := .finished }, [])
    | _ => none
  | .idle | .answering _ _ | .finished => none

def ssNmFailStep (f : Failure) : Outcome :=
  match t.ssNm, f with
  | .incoming _ _, .receive => some (sh, { t with ssNm := .finished }, [])
  | .copyRead _ _ _, .receive => none
  | .copyRead s _ _, f => some (sh, { t with ssNm := .answering s (.nack f.code) }, [])
  | .copyAwaiting s _ _, .receive =>
    some (sh, { t with ssNm := .answering s (.nack f.code) }, [.lostReply])
  | _, _ => none

/-! ### The client handler of a storage server -/

def ssClientStep (os : Os) : Outcome :=
  match t.ssClient with
  | .incoming s msg =>
    match msg.operation with
    | .readFile =>
      let (code, bytes) := (sh.disks s).readFile os msg
      some (sh, { t with ssClient := .answering s (.readResult code bytes) },
        [.executed s (.read msg.path.str bytes) os code])
    | .writeFile =>
      let (code, disk) := (sh.disks s).writeFile os msg
      some ({ sh with disks := Function.update sh.disks s disk },
        { t with ssClient := .answering s (.result code) },
        [.executed s (.write msg.path.str msg.payload) os code])
    | .getFileInfo =>
      let (code, type, text) := (sh.disks s).getFileInfo os msg
      some (sh, { t with ssClient := .answering s (.infoResult code type text) }, [])
    | _ => some (sh, { t with ssClient := .answering s (.nack .invalidOperation) }, [])
  | .idle | .answering _ _ | .finished => none

def ssClientFailStep : Outcome :=
  match t.ssClient with
  | .incoming _ _ => some (sh, { t with ssClient := .finished }, [])
  | _ => none

/-! ### The client -/

/-- Connect to the naming server and send the request. -/
def submitStep (msg : Message) : Outcome :=
  match t.client with
  | .idle =>
    if msg.Sendable then some (sh, { t with client := .asked msg, nm := .incoming msg }, [])
    else none
  | _ => none

/-- After a lookup, connect to the storage server that the reply names and send the request. -/
def clientStep : Outcome :=
  match t.client with
  | .replied msg reply =>
    if reply.Succeeded ∧ msg.IsLookup then
      match net.clientListener reply.ssIp.str reply.ssClientPort with
      | none => some (sh, { t with client := .finished }, [])
      | some s => some (sh, { t with client := .contacted, ssClient := .incoming s msg }, [])
    else some (sh, { t with client := .finished }, [])
  | .contacted =>
    match t.ssClient with
    | .answering _ _ => some (sh, { t with client := .finished, ssClient := .finished }, [])
    | _ => none
  | .idle | .asked _ | .finished => none

def clientFailStep : Outcome :=
  match t.client with
  | .idle | .finished => none
  | _ => some (sh, { t with client := .finished }, [])

end Steps

/-- One step of a request. -/
def request (net : Network) : Interleaving.Process Shared Threads Action Event :=
  fun r sh t action =>
    match action with
    | .submit msg => submitStep sh t msg
    | .client => clientStep net sh t
    | .clientFail => clientFailStep sh t
    | .nm => nmStep net r sh t
    | .nmFail f => nmFailStep sh t f
    | .nmMallocFail => nmMallocFailStep sh t
    | .ssNm os => ssNmStep net sh t os
    | .ssNmFail f => ssNmFailStep sh t f
    | .ssClient os => ssClientStep sh t os
    | .ssClientFail => ssClientFailStep sh t

abbrev World := Interleaving.World Shared Threads Event

/-- One step of the system: a request and the action that one of its threads takes. -/
def step (net : Network) : World → ℕ × Action → Option World := Interleaving.step (request net)

/-! ### A small system -/

/-- Server `n` listens at port `n`. -/
def portNetwork : Network where
  nmListener _ port := some port.toInt.toNat
  clientListener _ port := some port.toInt.toNat

/-- The servers 0 and 1 are registered, and there is no file. -/
def twoServers : Shared where
  nm :=
    { NamingServer.init fun _ => none with
      registeredSs := fun slot =>
        { StorageServerInfo.zero with
          ip := [49], nmPort := Int32.ofNat slot, clientPort := Int32.ofNat slot }
      numRegisteredSs := 2 }
  ssListMutex := none
  disks _ := fun _ => none

end NetworkFileSystem
