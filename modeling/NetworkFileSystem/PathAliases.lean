import NetworkFileSystem.CacheSequence
import NetworkFileSystem.Directory
import NetworkFileSystem.FaithfulStore

/-!
# Paths and files

The naming server tells paths apart by their bytes, but which file a path denotes is decided by the
operating system of a storage server. An operation touches the file of the path that it names, and
the answer to a READ_FILE of any other file stays the same. Requests are handled one by one.

A path of a server denotes one fixed file throughout a run. This leaves out paths through `..` or a
link of a directory that a request creates or removes.
-/

namespace NetworkFileSystem

abbrev Files (F : Type) := F → Option FileObject

/-- What happens on a connection to a storage server. -/
inductive Link
  | works
  /-- The call fails, and the request is not served. -/
  | fails (f : Failure)
  /-- The request is served, but the reply is not received. -/
  | lost

namespace Failure

def exchange : Failure → Exchange
  | socket => .socketFailed
  | connect => .connectFailed
  | send => .sendFailed
  | receive => .receiveFailed

end Failure

/-- What the source of a COPY_FILE reports to the naming server. -/
def Exchange.copyReply (e : Exchange) : Message :=
  match e.result with
  | .error code => .nack code
  | .ok response => if response.Succeeded then .ack else .nack response.errorCode

/-- A request to the naming server, with what its surroundings do until it is answered. -/
structure ClientRequest where
  msg : Message
  sendable : msg.Sendable
  malloc : Bool
  tempPath : ℕ → UInt8
  /-- From the naming server, or after a lookup from the client. -/
  link : Link
  os : Os
  /-- From the source of a COPY_FILE to the destination. -/
  copyLink : Link
  copyOs : Os

/-- The servers share one space of files; servers on different hosts resolve to different files. -/
structure Cluster (F : Type) where
  nm : NamingServer LruCache
  files : Files F

section

variable {F : Type} [DecidableEq F] (net : Network) (resolve : Server → Path → F)

/-- The request is served on the file that its path denotes, the same one throughout. -/
def serveAt (files : Files F) (s : Server) (os : Os) (msg : Message) : Message × Files F :=
  let (reply, disk) := serve (fun path => files (resolve s path)) os msg
  (reply, Function.update files (resolve s msg.path.str) (disk msg.path.str))

def Link.exchange (link : Link) (files : Files F) (served : Message × Files F) :
    Exchange × Files F :=
  match link with
  | works => (.replied served.1, served.2)
  | fails f => (f.exchange, files)
  | lost => (.receiveFailed, served.2)

/-- A request to the client port of a storage server. -/
def atClientPort (files : Files F) (ip : CString) (port : Int32) (link : Link) (os : Os)
    (msg : Message) : Exchange × Files F :=
  match net.clientListener ip port with
  | none => (.connectFailed, files)
  | some s => link.exchange files (serveAt resolve files s os msg)

/-- COPY_FILE at the server of the source. -/
def copyAt (files : Files F) (s : Server) (req : ClientRequest) (msg : Message) :
    Message × Files F :=
  let read := Disk.readFile (fun path => files (resolve s path)) req.os msg
  if read.1 = .success then
    let written := atClientPort net resolve files msg.destSsIp.str msg.destSsClientPort req.copyLink
      req.copyOs (.writeRequest msg read.2)
    (written.1.copyReply, written.2)
  else (.nack read.1, files)

/-- A request to the port of a storage server for the naming server. -/
def atNmPort (files : Files F) (info : StorageServerInfo) (req : ClientRequest) (msg : Message) :
    Exchange × Files F :=
  match net.nmListener info.ip info.nmPort with
  | none => (.connectFailed, files)
  | some s =>
    req.link.exchange files
      (if msg.operation = .copyFile then copyAt net resolve files s req msg
       else serveAt resolve files s req.os msg)

namespace Cluster

def start (files : Files F) : Cluster F := ⟨.init LruCache.lruInit, files⟩

/-- What the storage server makes of the request that the naming server sends there, if it sends
one. -/
def forward (cl : Cluster F) (req : ClientRequest) : Exchange × Files F :=
  match cl.nm.forwards req.msg with
  | none => (.receiveFailed, cl.files)
  | some (slot, msg) => atNmPort net resolve cl.files (cl.nm.registeredSs slot) req msg

def surroundings (cl : Cluster F) (req : ClientRequest) : Surroundings :=
  ⟨(cl.forward net resolve req).1, req.malloc, req.tempPath⟩

/-- After a lookup the client goes on to the storage server. -/
def finish (files : Files F) (req : ClientRequest) (reply : Message) : Exchange × Files F :=
  if reply.Succeeded ∧ req.msg.IsLookup then
    atClientPort net resolve files reply.ssIp.str reply.ssClientPort req.link req.os req.msg
  else (.replied reply, files)

/-- The state after the request, and what the client gets. -/
def handle (cl : Cluster F) (req : ClientRequest) : Option (Cluster F × Exchange) :=
  (cl.nm.handleConnection req.msg (cl.surroundings net resolve req)).map fun (nm, reply) =>
    let finished := finish net resolve (cl.forward net resolve req).2 req reply
    (⟨nm, finished.2⟩, finished.1)

def step (cl : Cluster F) (req : ClientRequest) : Option (Cluster F) :=
  (cl.handle net resolve req).map Prod.fst

/-- What a READ_FILE after the requests gets, and what it gets after one more operation. -/
def readsAround (files : Files F) (reqs : List ClientRequest) (op read : ClientRequest) :
    Option (Exchange × Exchange) := do
  let cl ← Machine.run (step net resolve) (start files) reqs
  let (cl', _) ← cl.handle net resolve op
  let (_, before) ← cl.handle net resolve read
  let (_, after) ← cl'.handle net resolve read
  some (before, after)

/-- The request keeps the cache in agreement with the trie. -/
def KeepsCacheFresh (cl : Cluster F) (req : ClientRequest) : Prop :=
  cl.nm.KeepsCacheFresh (req.msg, cl.surroundings net resolve req)

end Cluster

/-! ### Files of other paths -/

variable {net resolve} {files : Files F} {f : F} {s : Server} {os : Os} {msg : Message}
  {req : ClientRequest}

theorem serveAt_of_ne (hf : f ≠ resolve s msg.path.str) :
    (serveAt resolve files s os msg).2 f = files f := Function.update_of_ne hf _ _

omit [DecidableEq F] in
theorem Link.exchange_of_eq {link : Link} {served : Message × Files F}
    (h : served.2 f = files f) : (link.exchange files served).2 f = files f := by
  cases link with
  | works => exact h
  | fails f => rfl
  | lost => exact h

theorem atClientPort_of_ne (ip : CString) (port : Int32) (link : Link) (os : Os)
    (hf : ∀ s, f ≠ resolve s msg.path.str) :
    (atClientPort net resolve files ip port link os msg).2 f = files f := by
  unfold atClientPort
  cases net.clientListener ip port with
  | none => rfl
  | some s => exact Link.exchange_of_eq (serveAt_of_ne (hf s))

theorem copyAt_of_ne (hlen : msg.path2.str.length < maxPathLen)
    (hf : ∀ s, f ≠ resolve s msg.path2.str) :
    (copyAt net resolve files s req msg).2 f = files f := by
  unfold copyAt
  dsimp only
  split_ifs
  · refine atClientPort_of_ne _ _ _ _ fun s => ?_
    rw [Message.path_writeRequest msg _ hlen]
    exact hf s
  · rfl

/-- What the naming server forwards concerns the same file. -/
theorem target_of_forwards {κ : Type} {ns : NamingServer κ} {slot : Slot} {msg msg' : Message}
    (hlen : msg.path2.str.length < maxPathLen) (h : ns.forwards msg = some (slot, msg')) :
    msg'.target = msg.target ∧ msg'.path2.str = msg.path2.str := by
  unfold NamingServer.forwards at h
  split at h
  · split at h
    · cases h
    · obtain ⟨found, -, heq⟩ := Option.map_eq_some_iff.mp h
      obtain rfl := (Prod.mk.inj heq).2
      exact ⟨rfl, rfl⟩
  · obtain ⟨found, -, heq⟩ := Option.map_eq_some_iff.mp h
    obtain rfl := (Prod.mk.inj heq).2
    exact ⟨rfl, rfl⟩
  · next hop =>
      have hstr : ∀ dest, (msg.copyRequest dest).path2.str = msg.path2.str := fun dest =>
        CharArray.str_ofBytes msg.path2.zero_notMem_str hlen
      have htarget : ∀ dest, (msg.copyRequest dest).target = msg.target := fun dest => by
        rw [Message.target, Message.target, if_pos hop]
        exact hstr dest
      obtain ⟨source, -, h⟩ := Option.bind_eq_some_iff.mp h
      split at h
      · obtain rfl := (Prod.mk.inj (Option.some.inj h)).2
        exact ⟨htarget _, hstr _⟩
      · obtain ⟨found, -, heq⟩ := Option.map_eq_some_iff.mp h
        obtain rfl := (Prod.mk.inj heq).2
        exact ⟨htarget _, hstr _⟩
  · cases h

namespace Cluster

variable {cl cl' : Cluster F}

theorem forward_of_ne (hf : ∀ s, f ≠ resolve s req.msg.target) :
    (cl.forward net resolve req).2 f = cl.files f := by
  unfold forward
  cases h : cl.nm.forwards req.msg with
  | none => rfl
  | some found =>
      obtain ⟨slot, msg⟩ := found
      obtain ⟨htarget, hpath2⟩ := target_of_forwards req.sendable.2.1 h
      rw [← htarget] at hf
      change (atNmPort net resolve cl.files (cl.nm.registeredSs slot) req msg).2 f = cl.files f
      unfold atNmPort
      cases net.nmListener (cl.nm.registeredSs slot).ip (cl.nm.registeredSs slot).nmPort with
      | none => rfl
      | some s =>
          refine Link.exchange_of_eq ?_
          unfold Message.target at hf
          split_ifs at hf ⊢
          · exact copyAt_of_ne (hpath2 ▸ req.sendable.2.1) hf
          · exact serveAt_of_ne (hf s)

theorem target_of_isLookup (h : msg.IsLookup) : msg.target = msg.path.str := by
  unfold Message.target
  rcases h with h | h | h <;> simp [h]

/-- A request changes the files of its own path only. -/
theorem handle_of_ne {x : Exchange} (h : cl.handle net resolve req = some (cl', x))
    (hf : ∀ s, f ≠ resolve s req.msg.target) : cl'.files f = cl.files f := by
  obtain ⟨⟨nm, reply⟩, -, heq⟩ := Option.map_eq_some_iff.mp h
  obtain ⟨rfl, -⟩ := Prod.mk.inj heq
  have hforward : (cl.forward net resolve req).2 f = cl.files f := forward_of_ne hf
  rw [← hforward]
  change (finish net resolve (cl.forward net resolve req).2 req reply).2 f = _
  unfold finish
  split_ifs with hfinish
  · rw [target_of_isLookup hfinish.2] at hf
    exact atClientPort_of_ne _ _ _ _ hf
  · rfl

end Cluster
end

/-! ### The naming server -/

namespace NamingServer

/-- The trie agrees but for this path, and the servers keep their addresses. -/
def AgreeExcept {κ : Type} (path : Path) (ns ns' : NamingServer κ) : Prop :=
  (∀ q, q ≠ path → ns'.search q = ns.search q) ∧ ∀ j, ns'.address j = ns.address j

section

variable {κ : Type} {ns ns' ns'' : NamingServer κ} {path : Path} {msg reply : Message}
  {s : Surroundings}

theorem AgreeExcept.refl (path : Path) (ns : NamingServer κ) : AgreeExcept path ns ns :=
  ⟨fun _ _ => rfl, fun _ => rfl⟩

theorem AgreeExcept.trans (h : AgreeExcept path ns ns') (h' : AgreeExcept path ns' ns'') :
    AgreeExcept path ns ns'' :=
  ⟨fun q hq => (h'.1 q hq).trans (h.1 q hq), fun j => (h'.2 j).trans (h.2 j)⟩

theorem agreeExcept_recordPath (path : Path) (slot : Slot) :
    AgreeExcept path ns (ns.recordPath path slot) :=
  ⟨fun q hq => by rw [search_recordPath, if_neg hq], fun j => address_recordPath ns path slot j⟩

theorem agreeExcept_forgetPath (path : Path) (slot : Slot) (cache : κ) :
    AgreeExcept path ns ((ns.dropPath path).forgetPath path slot cache) := by
  refine ⟨fun q hq => ?_, fun j => address_forgetPath (ns.dropPath path) path slot j cache⟩
  rw [search_forgetPath, search_dropPath, if_neg hq]

theorem AgreeExcept.getAvailable {slot : Slot}
    (h : ns.getAvailableSsForCreation = some (slot, ns')) : AgreeExcept path ns ns' :=
  ⟨fun q _ => (getAvailableSsForCreation_frame h).1 q, (getAvailableSsForCreation_frame h).2.1⟩

theorem AgreeExcept.conclude {exchange : Exchange}
    {update : NamingServer κ → Option (NamingServer κ)}
    (hupdate : ∀ ns', update ns = some ns' → AgreeExcept path ns ns')
    (h : ns.conclude exchange update = some (ns', reply)) : AgreeExcept path ns ns' := by
  rcases conclude_cases h with ⟨-, rfl⟩ | ⟨-, hns'⟩
  · exact .refl path _
  · exact hupdate ns' hns'

/-- The path is recorded at the server that was picked. -/
theorem AgreeExcept.recordPicked {exchange : Exchange} {ns₁ : NamingServer κ} {slot : Slot}
    (hget : ns.getAvailableSsForCreation = some (slot, ns₁))
    (h : (ns₁.conclude exchange fun ns => some (ns.recordPath path slot)) = some (ns', reply)) :
    AgreeExcept path ns ns' := by
  refine (AgreeExcept.getAvailable hget).trans (AgreeExcept.conclude (fun ns₂ h₂ => ?_) h)
  obtain rfl := Option.some.inj h₂
  exact agreeExcept_recordPath _ _

theorem AgreeExcept.createFile (h : ns.createFile msg s = some (ns', reply)) :
    AgreeExcept msg.path.str ns ns' := by
  unfold NamingServer.createFile at h
  split at h
  · obtain rfl := (Prod.mk.inj (Option.some.inj h)).1
    exact .refl _ _
  · split at h
    · obtain rfl := (Prod.mk.inj (Option.some.inj h)).1
      exact .refl _ _
    · next slot ns₁ hget => exact .recordPicked hget h

theorem AgreeExcept.copyFile (h : ns.copyFile msg s = some (ns', reply)) :
    AgreeExcept msg.path2.str ns ns' := by
  unfold NamingServer.copyFile at h
  split at h
  · obtain rfl := (Prod.mk.inj (Option.some.inj h)).1
    exact .refl _ _
  · split at h
    · refine AgreeExcept.conclude (fun ns₂ h₂ => ?_) h
      obtain rfl := Option.some.inj h₂
      exact .refl _ _
    · split at h
      · obtain rfl := (Prod.mk.inj (Option.some.inj h)).1
        exact .refl _ _
      · next slot ns₁ hget => exact .recordPicked hget h

end

variable {ns ns' : NamingServer LruCache} {msg reply : Message} {s : Surroundings}

theorem AgreeExcept.deleteFile (h : ns.deleteFile msg s = some (ns', reply)) :
    AgreeExcept msg.path.str ns ns' := by
  unfold NamingServer.deleteFile at h
  split at h
  · obtain rfl := (Prod.mk.inj (Option.some.inj h)).1
    exact .refl _ _
  · refine AgreeExcept.conclude (fun ns₂ h₂ => ?_) h
    obtain ⟨cache, -, rfl⟩ := Option.map_eq_some_iff.mp h₂
    exact agreeExcept_forgetPath _ _ cache

/-- Requests other than registrations concern no path but their own. -/
theorem AgreeExcept.handleConnection (hop : msg.operation ≠ .registerSs)
    (h : ns.handleConnection msg s = some (ns', reply)) : AgreeExcept msg.target ns ns' := by
  unfold NamingServer.handleConnection at h
  unfold Message.target
  split at h
  · contradiction
  · obtain rfl := (Prod.mk.inj (Option.some.inj h)).1
    exact .refl _ _
  · next hcreate =>
      rw [if_neg (by simp [hcreate])]
      exact .createFile h
  · next hdelete =>
      rw [if_neg (by simp [hdelete])]
      exact .deleteFile h
  · next hcopy =>
      rw [if_pos hcopy]
      exact .copyFile h
  all_goals first
    | obtain ⟨cache, rfl⟩ := lookUp_frame h
      exact ⟨fun _ _ => rfl, fun _ => rfl⟩
    | obtain rfl := (Prod.mk.inj (Option.some.inj h)).1
      exact .refl _ _

theorem AgreeExcept.answerLookup_eq {path q : Path} (h : AgreeExcept path ns ns') (hq : q ≠ path) :
    Message.answerLookup ((ns'.search q).map ns'.registeredSs) =
      Message.answerLookup ((ns.search q).map ns.registeredSs) := by
  rw [h.1 q hq]
  cases ns.search q with
  | none => rfl
  | some slot => exact Message.located_congr (StorageServerInfo.location_congr (h.2 slot))

end NamingServer

/-! ### Reading -/

section

variable {F : Type} [DecidableEq F] {net : Network} {resolve : Server → Path → F}
  {files files' : Files F} {s : Server} {os : Os} {msg reply : Message} {req : ClientRequest}

theorem Disk.readFile_congr {disk disk' : Disk} (h : disk msg.path.str = disk' msg.path.str) :
    disk.readFile os msg = disk'.readFile os msg := by
  unfold Disk.readFile Disk.ssRead
  rw [h]

theorem serveAt_read_congr (hop : msg.operation = .readFile)
    (h : files (resolve s msg.path.str) = files' (resolve s msg.path.str)) :
    (serveAt resolve files s os msg).1 = (serveAt resolve files' s os msg).1 := by
  have hread : Disk.readFile (fun path => files (resolve s path)) os msg =
      Disk.readFile (fun path => files' (resolve s path)) os msg := Disk.readFile_congr h
  simp only [serveAt, serve_read hop, hread]

omit [DecidableEq F] in
theorem Link.exchange_congr (link : Link) {served served' : Message × Files F}
    (h : served.1 = served'.1) :
    (link.exchange files served).1 = (link.exchange files' served').1 := by
  cases link with
  | works => exact congrArg Exchange.replied h
  | fails f => rfl
  | lost => rfl

namespace Cluster

variable {cl cl' : Cluster F}

/-- The answer depends on the files to which the path is resolved. -/
theorem finish_congr (hop : req.msg.operation = .readFile)
    (h : ∀ s, files (resolve s req.msg.path.str) = files' (resolve s req.msg.path.str)) :
    (finish net resolve files req reply).1 = (finish net resolve files' req reply).1 := by
  unfold finish
  split_ifs
  · unfold atClientPort
    cases net.clientListener reply.ssIp.str reply.ssClientPort with
    | none => rfl
    | some s => exact Link.exchange_congr _ (serveAt_read_congr hop (h s))
  · rfl

theorem handle_eq {nm : NamingServer LruCache}
    (h : cl.nm.handleConnection req.msg (cl.surroundings net resolve req) = some (nm, reply)) :
    cl.handle net resolve req =
      some (⟨nm, (finish net resolve (cl.forward net resolve req).2 req reply).2⟩,
        (finish net resolve (cl.forward net resolve req).2 req reply).1) := by
  rw [handle, h]
  rfl

theorem agreeExcept_of_handle {x : Exchange} (hop : req.msg.operation ≠ .registerSs)
    (h : cl.handle net resolve req = some (cl', x)) :
    NamingServer.AgreeExcept req.msg.target cl.nm cl'.nm := by
  obtain ⟨⟨nm, reply⟩, hnm, heq⟩ := Option.map_eq_some_iff.mp h
  obtain ⟨rfl, -⟩ := Prod.mk.inj heq
  exact .handleConnection hop hnm

/-- A READ_FILE is answered by the server that the trie knows. -/
theorem handle_read (net : Network) (resolve : Server → Path → F) (h : cl.nm.Fresh)
    (hop : req.msg.operation = .readFile) (hlive : cl.nm.pathLruCache.SlotLive req.msg.path.str) :
    ∃ cl', cl.handle net resolve req = some (cl', (finish net resolve cl.files req
      (.answerLookup ((cl.nm.search req.msg.path.str).map cl.nm.registeredSs))).1) := by
  obtain ⟨nm, hnm, -⟩ := h.lookUp (s := cl.surroundings net resolve req) hlive
  have hforward : (cl.forward net resolve req).2 = cl.files := by
    simp [forward, NamingServer.forwards, hop]
  have hhandle : cl.nm.handleConnection req.msg (cl.surroundings net resolve req) = some (nm,
      .answerLookup ((cl.nm.search req.msg.path.str).map cl.nm.registeredSs)) := by
    simpa only [NamingServer.handleConnection, hop] using hnm
  have heq := handle_eq hhandle
  rw [hforward] at heq
  exact ⟨_, heq⟩

theorem Fresh.step (h : cl.nm.Fresh) (hkeeps : cl.KeepsCacheFresh net resolve req) :
    ∃ cl' x, cl.handle net resolve req = some (cl', x) ∧ cl'.nm.Fresh := by
  have hfits : NamingServer.FitsArrays req.msg := fun _ => req.sendable.2.2.2.2
  obtain ⟨nm, reply, hnm, hfresh⟩ := h.handleConnection hfits hkeeps
  exact ⟨_, _, congrArg (Option.map _) hnm, hfresh⟩

end Cluster
end

/-! ### Spellings of a path -/

/-- Repeated slashes and `.` components do not change the file; servers of one host share it. -/
def oneHost (_ : Server) (path : Path) : Bool × List (List UInt8) :=
  (path.head? = some 47, (path.splitOn 47).filter fun c => c ≠ [] ∧ c ≠ [46])

def hostEach (s : Server) (path : Path) : Server × Path := (s, path)

namespace ClientRequest

/-- Every call succeeds. -/
def ofMessage (msg : Message) (h : msg.Sendable) : ClientRequest :=
  ⟨msg, h, true, fun _ => 0, .works, .ok, .works, .ok⟩

/-- A server that has the path `/a`. -/
def registerTwo : ClientRequest :=
  .ofMessage { (NamingServer.registerA 2).1 with ssNmPort := 2 } (by decide +kernel)

def registerThree : ClientRequest :=
  .ofMessage { (NamingServer.registerA 3).1 with ssNmPort := 3 } (by decide +kernel)

def readA : ClientRequest := .ofMessage NamingServer.readA.1 (by decide +kernel)

/-- The creation of `//a`. -/
def createSlashA : ClientRequest :=
  .ofMessage { Message.zero with operation := .createFile, path := .ofBytes _ [47, 47, 97] }
    (by decide +kernel)

/-- The creation of `0B`, which the cache keeps in the same slot as `/a`. -/
def createB : ClientRequest :=
  .ofMessage { Message.zero with operation := .createFile, path := .ofBytes _ [48, 66] }
    (by decide +kernel)

def readB : ClientRequest :=
  .ofMessage { Message.zero with operation := .readFile, path := .ofBytes _ [48, 66] }
    (by decide +kernel)

def writeB : ClientRequest :=
  .ofMessage { Message.zero with operation := .writeFile, path := .ofBytes _ [48, 66] }
    (by decide +kernel)

end ClientRequest

open ClientRequest

def Exchange.payload : Exchange → Option (List UInt8)
  | replied response => some response.payload
  | _ => none

/-- The file `/a` holds the bytes 104 and 105. -/
def noteAtA : Files (Bool × List (List UInt8)) :=
  Function.update (fun _ => none) (true, [[97]]) (some (.file [104, 105]))

/-- Each server has its own file `/a`. -/
def notesAtA : Files (Server × Path) :=
  Function.update (Function.update (fun _ => none) (2, [47, 97]) (some (.file [104, 105])))
    (3, [47, 97]) (some (.file [104, 111]))

namespace Cluster

end Cluster
end NetworkFileSystem
