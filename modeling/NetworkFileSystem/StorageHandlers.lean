import NetworkFileSystem.Sockets
import NetworkFileSystem.FileThreads
import NetworkFileSystem.PathAliases

/-!
# The handlers of a storage server, call by call

`handle_client_connection` and `handle_nm_connection` with their system calls. Whatever the calls
return, a handler gives back what it owns and replies once to a request that it receives. It takes
the lock of one file, in the mode of its one file operation, and does not hold it while it
communicates. Other threads may change the disk between any two of its calls.
-/

namespace NetworkFileSystem

open Interaction Locks

namespace Sockets

/-- The accesses of a handler to the locks and to the files of its storage server. -/
inductive SsAccess
  | acquire (mode : Mode) (path : Path)
  | release (mode : Mode) (path : Path)
  | operate (path : Path) (op : FileOperation)

def SsAccess.Response : SsAccess → Type
  | acquire _ _ => Bool
  | release _ _ => Unit
  | operate _ _ => FileResult

abbrev SsProg (α : Type) := Prog SsAccess.Response α

namespace Storage

/-- A file operation under the lock of the path, which is released at once. -/
def operate (path : Path) (op : FileOperation) : SsProg FileResult := do
  let acquired : Bool ← access (SsAccess.acquire op.mode path)
  if acquired then
    let result : FileResult ← access (SsAccess.operate path op)
    access (SsAccess.release op.mode path)
    pure result
  else pure (.ofCode .fileInUse)

/-- COPY_FILE, with the bytes of the source. -/
def copyTo (msg : Message) (result : FileResult) : SsProg Message := do
  if result.code = .success then
    let exchange ← exchange (pure (msg.destSsIp.str, msg.destSsClientPort))
      (pure (.writeRequest msg result.data))
    pure exchange.copyReply
  else pure (.nack result.code)

/-- The operations that a port serves; every other one is refused. -/
def dispatch (port : Port) (msg : Message) : SsProg Message :=
  match port.fileOperation msg with
  | none => pure (.nack .invalidOperation)
  | some op => do
    let result ← operate msg.path.str op
    if msg.operation = .copyFile then copyTo msg result
    else pure result.reply

def handleClientConnection (fd : Fd) (block : Block) : SsProg Unit :=
  serveConnection (dispatch .client) fd block

def handleNmConnection (fd : Fd) (block : Block) : SsProg Unit :=
  serveConnection (dispatch .nm) fd block

/-- The handler of a connection at the port. -/
def handleConnection : Port → Fd → Block → SsProg Unit
  | .client => handleClientConnection
  | .nm => handleNmConnection

theorem handleConnection_eq (port : Port) (fd : Fd) (block : Block) :
    handleConnection port fd block = serveConnection (dispatch port) fd block := by
  cases port <;> rfl

/-! ### What a handler owns -/

variable {conn : Fd}

theorem keepsOwned_operate (path : Path) (op : FileOperation) :
    KeepsOwned (some conn) (operate path op) := by
  refine (keepsOwned_access _).bind fun acquired => ?_
  cases acquired with
  | false => exact keeps_pure _
  | true =>
      exact (keepsOwned_access _).bind fun _ => (keepsOwned_access _).bind fun _ => keeps_pure _

theorem keepsOwned_copyTo (msg : Message) (result : FileResult) :
    KeepsOwned (some conn) (copyTo msg result) := by
  unfold copyTo
  split_ifs
  · exact (keepsOwned_exchange (keeps_pure _) (keeps_pure _)).bind fun _ => keeps_pure _
  · exact keeps_pure _

theorem keepsOwned_dispatch (port : Port) (msg : Message) :
    KeepsOwned (some conn) (dispatch port msg) := by
  unfold dispatch
  split
  · exact keeps_pure _
  · refine (keepsOwned_operate _ _).bind fun result => ?_
    split_ifs
    · exact keepsOwned_copyTo msg result
    · exact keeps_pure _

/-- Whatever its calls return, a handler at either port uses only what it owns, at every moment;
when it is done it has given back everything, and has sent one reply if it received a request. -/
theorem storageHandler_owned {port : Port} {block : Block}
    {tr : List (Sigma (Call.Response SsAccess.Response))} {rest : SsProg Unit}
    (htr : Trace (handleConnection port conn block) tr rest)
    (hresponds : (ownership SsAccess.Response (some conn)).Responds (.start conn block) tr) :
    (ownership SsAccess.Response (some conn)).Allows (.start conn block) tr ∧
      (rest = pure () →
        ((ownership SsAccess.Response (some conn)).final (.start conn block) tr).Done) := by
  rw [handleConnection_eq] at htr
  obtain ⟨hallows, hrest⟩ :=
    (meets_serveConnection (keepsOwned_dispatch port)).of_trace htr hresponds
  refine ⟨hallows, fun hdone => ?_⟩
  rwa [hdone] at hrest

/-- A request to copy the file `a` to `b` on the server at 1.1.1.1. -/
def copyRequest : Message :=
  { Message.zero with
    operation := .copyFile
    path := .ofBytes _ [97]
    path2 := .ofBytes _ [98]
    destSsIp := .ofBytes _ (text "1.1.1.1")
    destSsClientPort := 9 }

/-- Every call of the handler succeeds; the file contains `hi`. -/
def replying (_ : ℕ) : (c : Call SsAccess) → c.Response SsAccess.Response
  | .socket | .accept _ => some (4 : ℕ)
  | .connect _ _ _ | .bind _ _ | .listen _ | .send _ _ => true
  | .recv fd => some (if fd = 3 then copyRequest else .ack)
  | .getsockname _ | .malloc => none
  | .createThread _ _ => (0 : Int32)
  | .access (.acquire _ _) => true
  | .access (.operate _ _) => (⟨.success, .file, [104, 105]⟩ : FileResult)
  | .close _ | .free _ | .detach | .access (.release _ _) => ()

/-- The calls of the handler of this request. -/
def copied : List (Sigma (Call.Response SsAccess.Response)) :=
  ((handleConnection .nm 3 0).play replying 0).1

theorem trace_copied : Trace (handleConnection .nm 3 0) copied (pure ()) :=
  trace_play replying 0 _

theorem storageHandler_owned_copied :
    ((ownership SsAccess.Response (some 3)).final (.start 3 0) copied).Done :=
  (storageHandler_owned trace_copied (by decide +kernel)).2 rfl

/-! ### What a handler does -/

/-- What the operating system decides in each call, and what other threads do to the disk after
it. -/
structure Environment where
  os : ℕ → Os
  others : ℕ → Disk → Disk

structure State where
  disk : Disk
  /-- The calls so far. -/
  time : ℕ
  lock : Option (Mode × Path)
  request : Option Message
  /-- The file operation: the disk that it found, its result, and the disk that it left. -/
  operation : Option (Disk × FileResult × Disk)
  /-- The message that came on another connection. -/
  answer : Option Message
  reply : Option Message

def State.start (disk : Disk) : State := ⟨disk, 0, none, none, none, none, none⟩

/-- A handler holds one lock at most, in the mode of its operation, and none while it communicates.
It operates once, and writes as many bytes as its request says. The only connection that it makes is
to the destination of a COPY_FILE, to write what it read. The size in a request is within the
array. -/
def files (env : Environment) (conn : Fd) : Protocol (Call.Response SsAccess.Response) State where
  allowed s
    | .connect _ addr port => s.lock = none ∧ ∃ msg d result d', s.request = some msg ∧
        s.operation = some (d, result, d') ∧ msg.operation = .copyFile ∧ result.code = .success ∧
        inetPton msg.destSsIp.str = some addr ∧ htons msg.destSsClientPort = port
    | .send fd m => s.lock = none ∧ (fd ≠ conn → ∃ msg d result d', s.request = some msg ∧
        s.operation = some (d, result, d') ∧ m = .writeRequest msg result.data)
    | .recv _ => s.lock = none
    | .access (.acquire _ _) => s.lock = none
    | .access (.operate path op) => s.lock = some (op.mode, path) ∧ s.operation = none ∧
        ∀ data, op = .write data →
          ∃ msg, s.request = some msg ∧ (data.length : ℤ) = msg.dataSize.toInt
    | .access (.release mode path) => s.lock = some (mode, path)
    | _ => True
  responds s
    | .socket, (fd : Option Fd) => fd ≠ some conn
    | .recv fd, (msg : Option Message) => fd = conn → ∀ m, msg = some m → m.Sized
    | .access (.operate path op), result => result = (op.apply s.disk (env.os s.time) path).1
    | _, _ => True
  after s c r :=
    let t : State :=
      match c, r with
      | .recv fd, (msg : Option Message) =>
        if fd = conn then { s with request := msg } else { s with answer := msg }
      | .send fd msg, _ => if fd = conn then { s with reply := some msg } else s
      | .access (.acquire mode path), (acquired : Bool) =>
        if acquired then { s with lock := some (mode, path) } else s
      | .access (.release _ _), _ => { s with lock := none }
      | .access (.operate path op), result =>
        let disk := (op.apply s.disk (env.os s.time) path).2
        { s with disk := disk, operation := some (s.disk, result, disk) }
      | _, _ => s
    { t with disk := env.others s.time t.disk, time := s.time + 1 }

section Meets

variable {env : Environment} {port : Port} {msg : Message} {path : Path} {op : FileOperation}
  {s : State} {d : Disk} {os : Os}

/-- The operation with its result, or the lock was not acquired. -/
def State.Operated (s : State) (path : Path) (op : FileOperation) (result : FileResult) : Prop :=
  (s.operation = none ∧ result = .ofCode .fileInUse) ∨
    ∃ d os, s.operation = some (d, result, (op.apply d os path).2) ∧
      result = (op.apply d os path).1

theorem meets_operate (hlock : s.lock = none) (hoperation : s.operation = none)
    (hsize : ∀ data, op = .write data →
      ∃ msg, s.request = some msg ∧ (data.length : ℤ) = msg.dataSize.toInt) :
    Meets (files env conn) (operate path op)
      (fun result t => t.lock = none ∧ t.request = s.request ∧ t.answer = s.answer ∧
        t.Operated path op result) s := by
  refine ⟨hlock, fun acquired _ => ?_⟩
  cases acquired with
  | false => exact ⟨hlock, rfl, rfl, Or.inl ⟨hoperation, rfl⟩⟩
  | true =>
      refine ⟨⟨rfl, hoperation, hsize⟩, fun result hresult => ⟨rfl, fun _ _ => ⟨rfl, rfl, rfl, ?_⟩⟩⟩
      exact Or.inr ⟨_, _, rfl, hresult⟩

/-- The message that comes of an exchange. -/
def response : Exchange → Option Message
  | .replied m => some m
  | _ => none

/-- Between two calls of the handler. -/
def State.pass (s : State) (env : Environment) : State :=
  { s with disk := env.others s.time s.disk, time := s.time + 1 }

theorem after_send {fd : Fd} {m : Message} (hne : fd ≠ conn)
    (sent : Call.Response SsAccess.Response (.send fd m)) :
    (files env conn).after s (.send fd m) sent = s.pass env := by
  simp [files, hne, State.pass]

theorem after_recv {fd : Fd} (hne : fd ≠ conn)
    (m : Call.Response SsAccess.Response (.recv fd)) :
    (files env conn).after s (.recv fd) m = State.pass { s with answer := m } env := by
  simp [files, hne, State.pass]

/-- The exchange with the destination of a COPY_FILE leaves the rest as it is. -/
theorem meets_copyExchange {result : FileResult} {d' : Disk} (hlock : s.lock = none)
    (hrequest : s.request = some msg) (hanswer : s.answer = none)
    (hop : msg.operation = .copyFile) (hoperation : s.operation = some (d, result, d'))
    (hresult : result.code = .success) :
    Meets (files env conn) (exchange (pure (msg.destSsIp.str, msg.destSsClientPort))
        (pure (.writeRequest msg result.data)))
      (fun e t => (t.lock = none ∧ t.request = some msg ∧ t.operation = some (d, result, d')) ∧
        t.answer = response e) s := by
  refine meets_exchange (I := fun fd t => fd ≠ conn ∧ (t.lock = none ∧ t.request = some msg ∧
      t.operation = some (d, result, d')) ∧ t.answer = none)
    (J := fun a => a = (msg.destSsIp.str, msg.destSsClientPort))
    (K := fun m => m = .writeRequest msg result.data) ⟨trivial, fun fd hfd => ?_⟩ ?_ ?_ ?_ ?_ ?_ ?_
  · refine ⟨fun _ => ⟨⟨hlock, hrequest, hoperation⟩, hanswer⟩, fun n hn => ⟨fun h => hfd ?_,
      ⟨hlock, hrequest, hoperation⟩, hanswer⟩⟩
    rw [hn, h]
  · exact fun fd t ht => ⟨rfl, ht⟩
  · rintro fd _ t rfl ⟨hne, ht, hanswer⟩
    unfold connectToServer
    split
    · exact ⟨hne, ht, hanswer⟩
    · next addr haddr =>
        exact ⟨⟨ht.1, msg, d, result, d', ht.2.1, ht.2.2, hop, hresult, haddr, rfl⟩,
          fun _ _ => ⟨hne, ht, hanswer⟩⟩
  · exact fun fd t ht => ⟨rfl, ht⟩
  · rintro fd _ t rfl ⟨hne, ht, hanswer⟩
    refine ⟨⟨ht.1, fun _ => ⟨msg, d, result, d', ht.2.1, ht.2.2, rfl⟩⟩, fun sent _ => ?_⟩
    rw [after_send hne]
    exact ⟨hne, ht, hanswer⟩
  · rintro fd t ⟨hne, ht, -⟩
    refine ⟨ht.1, fun response _ => ?_⟩
    rw [after_recv hne]
    exact ⟨fun hnone => ⟨trivial, fun _ _ => ⟨ht, hnone⟩⟩,
      fun _ hsome => ⟨trivial, fun _ _ => ⟨ht, hsome⟩⟩⟩
  · rintro fd t ⟨-, ht, hanswer⟩
    exact ⟨trivial, fun _ _ => ⟨⟨ht, hanswer⟩, ht, hanswer⟩⟩

/-- The reply and the disk that a port gives for a request on a disk, with what comes of the
exchange with the destination of a COPY_FILE. -/
def served (port : Port) (d : Disk) (os : Os) (msg : Message) (e : Exchange) : Message × Disk :=
  if (port.fileOperation msg).isNone then (.nack .invalidOperation, d)
  else if msg.operation = .copyFile then
    (if (d.readFile os msg).1 = .success then e.copyReply else .nack (d.readFile os msg).1, d)
  else serve d os msg

/-- An operation that gets its lock is the one that the model of the storage server serves. -/
theorem serve_of_fileOperation (hop : port.fileOperation msg = some op)
    (hcopy : msg.operation ≠ .copyFile) :
    serve d os msg = if os.lock then
      ((op.apply d os msg.path.str).1.reply, (op.apply d os msg.path.str).2)
      else ((FileResult.ofCode .fileInUse).reply, d) := by
  cases port <;> cases hoperation : msg.operation <;>
    simp only [Port.fileOperation, hoperation, Option.some.injEq, reduceCtorEq] at hop
  case client.readFile =>
    subst hop
    rw [serve_read hoperation, Disk.readFile]
    split_ifs <;> rfl
  case client.writeFile =>
    subst hop
    rw [serve_write hoperation, Disk.writeFile]
    split_ifs <;> rfl
  case client.getFileInfo =>
    subst hop
    simp only [serve, hoperation, Disk.getFileInfo]
    split_ifs <;> rfl
  case nm.createFile =>
    subst hop
    rw [serve_create hoperation, Disk.createFile]
    split_ifs <;> rfl
  case nm.deleteFile =>
    subst hop
    rw [serve_delete hoperation, Disk.deleteFile]
    split_ifs <;> rfl
  case nm.copyFile => exact absurd hoperation hcopy

/-- The reply is the one of the model on the disk that the file operation found, and the operation
left the disk of the model. -/
def State.LeadsTo (port : Port) (msg reply : Message) (t : State) : Prop :=
  ∃ d os e, reply = (served port d os msg e).1 ∧
    (t.operation = none ∧ (served port d os msg e).2 = d ∨
      ∃ result, t.operation = some (d, result, (served port d os msg e).2)) ∧
    t.answer = response e

theorem apply_lock (d : Disk) (os : Os) (path : Path) (op : FileOperation) (lock : Bool) :
    op.apply d { os with lock := lock } path = op.apply d os path := by
  cases op <;> rfl

theorem leadsTo_of_operated {result : FileResult} (hop : port.fileOperation msg = some op)
    (hcopy : msg.operation ≠ .copyFile) (hanswer : s.answer = none)
    (h : s.Operated msg.path.str op result) :
    s.LeadsTo port msg result.reply := by
  have hserved : ∀ d os, served port d os msg .socketFailed = serve d os msg := fun d os => by
    simp [served, hop, hcopy]
  rcases h with ⟨hoperation, rfl⟩ | ⟨d, os, hoperation, hresult⟩
  · refine ⟨s.disk, { Os.ok with lock := false }, .socketFailed, ?_, Or.inl ⟨hoperation, ?_⟩,
      hanswer⟩ <;> rw [hserved, serve_of_fileOperation hop hcopy] <;> rfl
  · refine ⟨d, { os with lock := true }, .socketFailed, ?_, Or.inr ⟨result, ?_⟩, hanswer⟩
    · rw [hserved, serve_of_fileOperation hop hcopy, if_pos rfl, apply_lock, hresult]
    · rw [hserved, serve_of_fileOperation hop hcopy, if_pos rfl, apply_lock, hoperation]

theorem fileOperation_copy (hop : port.fileOperation msg = some op)
    (hcopy : msg.operation = .copyFile) : op = .read := by
  cases port with
  | client => simp [Port.fileOperation, hcopy] at hop
  | nm => simpa [Port.fileOperation, hcopy] using hop.symm

theorem served_copy (hop : port.fileOperation msg = some op) (hcopy : msg.operation = .copyFile)
    (e : Exchange) : served port d os msg e =
      (if (d.readFile os msg).1 = .success then e.copyReply
        else .nack (d.readFile os msg).1, d) := by
  simp [served, hop, hcopy]

/-- A COPY_FILE that does not read its source. -/
theorem leadsTo_of_unread {result : FileResult} (hop : port.fileOperation msg = some .read)
    (hcopy : msg.operation = .copyFile) (hanswer : s.answer = none)
    (h : s.Operated msg.path.str .read result)
    (hresult : result.code ≠ .success) : s.LeadsTo port msg (.nack result.code) := by
  rcases h with ⟨hoperation, rfl⟩ | ⟨d, os, hoperation, rfl⟩
  · refine ⟨s.disk, { Os.ok with lock := false }, .socketFailed, ?_, Or.inl ⟨hoperation, ?_⟩,
      hanswer⟩ <;> rw [served_copy hop hcopy]
    rfl
  · refine ⟨d, { os with lock := true }, .socketFailed, ?_, Or.inr ?_, hanswer⟩ <;>
      rw [served_copy hop hcopy]
    · exact (if_neg hresult).symm
    · exact ⟨_, hoperation⟩

theorem meets_dispatch (hsized : msg.Sized) (hlock : s.lock = none)
    (hrequest : s.request = some msg) (hoperation : s.operation = none)
    (hanswer : s.answer = none) :
    Meets (files env conn) (dispatch port msg)
      (fun reply t => t.lock = none ∧ t.request = some msg ∧ t.LeadsTo port msg reply) s := by
  unfold dispatch
  cases hop : port.fileOperation msg with
  | none =>
      refine ⟨hlock, hrequest, s.disk, env.os 0, .socketFailed, ?_, Or.inl ⟨hoperation, ?_⟩,
        hanswer⟩ <;> simp [served, hop]
  | some op =>
      have hsize : ∀ data, op = .write data →
          ∃ msg, s.request = some msg ∧ (data.length : ℤ) = msg.dataSize.toInt := by
        rintro data rfl
        obtain ⟨hwrite, rfl⟩ := Port.fileOperation_write hop
        exact ⟨msg, hrequest, hsized.length_payload hwrite⟩
      refine meets_bind.mpr ((meets_operate hlock hoperation hsize).mono ?_)
      rintro result t ⟨hlock', hrequest', hanswer', hoperated⟩
      split_ifs with hcopy
      · obtain rfl := fileOperation_copy hop hcopy
        unfold copyTo
        split_ifs with hresult
        · obtain ⟨-, rfl⟩ | ⟨d, os, hoperation', rfl⟩ := hoperated
          · exact absurd hresult (by decide)
          refine meets_bind.mpr ((meets_copyExchange hlock' (hrequest'.trans hrequest)
            (hanswer'.trans hanswer) hcopy hoperation' hresult).mono ?_)
          rintro e t ⟨⟨hlock, hrequest, hoperation⟩, hanswer⟩
          refine ⟨hlock, hrequest, d, { os with lock := true }, e, ?_, Or.inr ?_, hanswer⟩
          · rw [served_copy hop hcopy]
            exact (if_pos hresult).symm
          · rw [served_copy hop hcopy]
            exact ⟨_, hoperation⟩
        · exact ⟨hlock', hrequest'.trans hrequest,
            leadsTo_of_unread hop hcopy (hanswer'.trans hanswer) hoperated hresult⟩
      · exact ⟨hlock', hrequest'.trans hrequest,
          leadsTo_of_operated hop hcopy (hanswer'.trans hanswer) hoperated⟩

/-- What is left of a handler that is done. -/
def State.Served (port : Port) (t : State) : Prop :=
  t.lock = none ∧
    ∀ msg, t.request = some msg → ∃ reply, t.reply = some reply ∧ t.LeadsTo port msg reply

theorem meets_handleConnection {block : Block} {disk : Disk} :
    Meets (files env conn) (handleConnection port conn block) (fun _ t => t.Served port)
      (.start disk) := by
  rw [handleConnection_eq]
  refine ⟨trivial, fun _ _ => ⟨rfl, fun msg hmsg => ?_⟩⟩
  have hreceived : ∀ t : State, (files env conn).after t (.recv conn) msg =
      State.pass { t with request := msg } env := fun t => by simp [files, State.pass]
  rw [hreceived]
  cases msg with
  | none => exact ⟨trivial, fun _ _ => ⟨rfl, nofun⟩⟩
  | some msg =>
      change Meets (files env conn) (dispatch port msg >>= _) _ _
      refine meets_bind.mpr ((meets_dispatch (hmsg rfl msg rfl) rfl rfl rfl rfl).mono ?_)
      rintro reply t ⟨hlock, hrequest, hreply⟩
      refine ⟨⟨hlock, fun h => absurd rfl h⟩, fun sent _ => ⟨trivial, fun _ _ => ?_⟩⟩
      have hsent : ∀ t : State, (files env conn).after t (.send conn reply) sent =
          State.pass { t with reply := some reply } env := fun t => by simp [files, State.pass]
      rw [hsent]
      refine ⟨hlock, fun m hm => ⟨reply, rfl, ?_⟩⟩
      obtain rfl := Option.some.inj (hrequest.symm.trans hm)
      exact hreply

/-- The file `a`. -/
def onlyA : Disk := fun path => if path = [97] then some (.file [104, 105]) else none

theorem responds_copied :
    (files ⟨fun _ => .ok, fun _ disk => disk⟩ 3).Responds (.start onlyA) copied := by
  refine ⟨trivial, ?_, trivial, ?_, trivial, ?_, trivial, trivial, ?_, trivial, trivial, trivial,
    trivial⟩
  · intro _ m hm
    obtain rfl : copyRequest = m := Option.some.inj hm
    exact nofun
  · rfl
  · exact nofun
  · exact nofun

end Meets

end Storage

end Sockets
end NetworkFileSystem
