import NetworkFileSystem.FileLocks
import NetworkFileSystem.FileSteps
import NetworkFileSystem.StorageServer
import NetworkFileSystem.Library.Linearizability

/-!
# The handlers of the storage servers

The threads of `handle_client_connection` and `handle_nm_connection` on any number of storage
servers, at the level of `file_locks_mutex`, the file locks and the system calls. A COPY_FILE sends
its bytes to the client port of the destination, where a handler of its own writes them.
-/

namespace NetworkFileSystem

open Locks Interleaving

structure FileServer where
  fileLocks : FileLockTable
  fileLocksMutex : Option ℕ
  fs : FileSystem

/-- The connection of a COPY_FILE to the destination. -/
inductive Mail
  | empty
  | request (server : ℕ) (msg : Message)
  /-- A handler of the destination has received the request. -/
  | serving
  | reply (msg : Message)
  | closed

structure FileShared where
  servers : ℕ → FileServer
  /-- By the thread that handles the COPY_FILE. -/
  mail : ℕ → Mail

/-- A file operation on a path of a server. -/
structure FileCall where
  server : ℕ
  path : Path
  op : FileOperation

/-- What a handler does with the result. -/
inductive FollowUp
  | answer
  /-- The rest of COPY_FILE. -/
  | copy (msg : Message)
  /-- The reply goes to the thread that handles the COPY_FILE. -/
  | answerCopy (r : ℕ)

structure FileJob extends FileCall where
  next : FollowUp

/-- The result of an operation, and whether a call of its last step failed. -/
structure FileReturn extends FileResult where
  failed : Bool

/-- The lock could not be had. -/
def FileReturn.inUse : FileReturn := ⟨.ofCode .fileInUse, true⟩

inductive FileThread
  | idle
  /-- Waits for `file_locks_mutex`, to look up the lock. -/
  | acquiring (job : FileJob)
  | finding (job : FileJob)
  | obtained (job : FileJob) (node : Option ℕ)
  /-- Waits for the lock. -/
  | locking (job : FileJob) (node : ℕ)
  | operating (job : FileJob) (st : OpState)
  /-- Waits for `file_locks_mutex`, to look up the lock again. -/
  | releasing (job : FileJob) (result : FileReturn)
  | unlocking (job : FileJob) (result : FileReturn)
  | unlocked (job : FileJob) (result : FileReturn)
  | answering (job : FileJob) (result : FileReturn)
  /-- Has the bytes of the source of a COPY_FILE. -/
  | connecting (msg : Message) (bytes : List UInt8)
  /-- Waits for the reply of the destination. -/
  | awaiting
  | finished

inductive FileEvent
  | started (job : FileJob)
  /-- A call is invoked when the lock is acquired, and returns when the lock is released. -/
  | call (e : Linearizability.Event FileCall FileReturn)
  | replied (response : Message)

inductive Port
  | client
  | nm

inductive FileAction
  | start (port : Port) (server : ℕ) (msg : Message)
  /-- Receive the request of a COPY_FILE. -/
  | accept (r : ℕ)
  | step (os : Os)
  /-- Read or write a piece. -/
  | transfer (os : Os)
  /-- The network fails. -/
  | fail (code : ErrorCode)

/-- A system call fails in the step. -/
def FileAction.Fails : FileAction → Prop
  | .step os => ¬os.Works
  | _ => False

/-- READ_FILE and GET_FILE_INFO lock for reading, and so does COPY_FILE the source. -/
def FileOperation.mode : FileOperation → Mode
  | .read | .getInfo => .read
  | _ => .write

/-- The reply of `handle_client_connection`, and of `handle_nm_connection` but for COPY_FILE. -/
def FileResult.reply (result : FileResult) : Message :=
  .infoResult result.code result.type result.data

namespace FileShared

def updateServer (sh : FileShared) (s : ℕ) (f : FileServer → FileServer) : FileShared :=
  { sh with servers := Function.update sh.servers s (f (sh.servers s)) }

def setMutex (sh : FileShared) (s : ℕ) (holder : Option ℕ) : FileShared :=
  sh.updateServer s fun server => { server with fileLocksMutex := holder }

def setTable (sh : FileShared) (s : ℕ) (table : FileLockTable) : FileShared :=
  sh.updateServer s fun server => { server with fileLocks := table }

def setFs (sh : FileShared) (s : ℕ) (fs : FileSystem) : FileShared :=
  sh.updateServer s fun server => { server with fs := fs }

def setMail (sh : FileShared) (r : ℕ) (mail : Mail) : FileShared :=
  { sh with mail := Function.update sh.mail r mail }

def lockFile (sh : FileShared) (s n r : ℕ) (m : Mode) : FileShared :=
  let table := (sh.servers s).fileLocks
  sh.setTable s (table.setLock n ((table.lock n).acquire r m))

def unlockFile (sh : FileShared) (s n r : ℕ) (m : Mode) : FileShared :=
  let table := (sh.servers s).fileLocks
  sh.setTable s (table.setLock n ((table.lock n).release r m))

end FileShared

abbrev FileOutcome := Option (FileShared × FileThread × List FileEvent)

/-- The operation of a request, by the port on which it comes. -/
def Port.fileOperation (msg : Message) : Port → Option FileOperation
  | client =>
    match msg.operation with
    | .readFile => some .read
    | .writeFile => some (.write msg.payload)
    | .getFileInfo => some .getInfo
    | _ => none
  | nm =>
    match msg.operation with
    | .createFile => some (.create msg.fileType)
    | .deleteFile => some .delete
    | .copyFile => some .read
    | _ => none

theorem Port.fileOperation_write {port : Port} {msg : Message} {data : List UInt8}
    (h : port.fileOperation msg = some (.write data)) :
    msg.operation = .writeFile ∧ data = msg.payload := by
  cases port <;> cases hop : msg.operation <;> simp_all [fileOperation]

/-- A handler has received a request. -/
def handle (sh : FileShared) (port : Port) (s : ℕ) (msg : Message) (next : FollowUp) :
    FileOutcome :=
  match port.fileOperation msg with
  | some op =>
    let job : FileJob := ⟨⟨s, msg.path.str, op⟩, next⟩
    some (sh, .acquiring job, [.started job])
  | none => some (sh, .finished, [.replied (.nack .invalidOperation)])

section Steps

variable (route : CString → Int32 → Option ℕ) (r : ℕ) (sh : FileShared)

/-- The operation has taken a step. -/
def afterStep (job : FileJob) (os : Os) : Option (FileSystem × OpState) → FileOutcome
  | some (fs, .done result) =>
    let result : FileReturn := ⟨result, ¬os.Works⟩
    some (sh.setFs job.server fs, .releasing job result, [.call (.acted job.toFileCall result)])
  | some (fs, st) => some (sh.setFs job.server fs, .operating job st, [])
  | none => none

/-- After the file operation. -/
def answerStep (job : FileJob) (result : FileReturn) : FileOutcome :=
  match job.next with
  | .answer => some (sh, .finished, [.replied result.reply])
  | .answerCopy q =>
    some (sh.setMail q (.reply result.reply), .finished, [.replied result.reply])
  | .copy msg =>
    if result.code = .success then some (sh, .connecting msg result.data, [])
    else some (sh, .finished, [.replied (.nack result.code)])

def fileThreadStep (os : Os) : FileThread → FileOutcome
  | .acquiring job =>
    if (sh.servers job.server).fileLocksMutex = none then
      some (sh.setMutex job.server (some r), .finding job, [])
    else none
  | .finding job =>
    let (node, table) :=
      (sh.servers job.server).fileLocks.getOrCreateFileLockNode job.path os.lock
    some (sh.setTable job.server table, .obtained job node, [])
  | .obtained job (some n) => some (sh.setMutex job.server none, .locking job n, [])
  | .obtained job none =>
    some (sh.setMutex job.server none, .answering job .inUse, [])
  | .locking job n =>
    if os.lock = false then some (sh, .answering job .inUse, [])
    else if ((sh.servers job.server).fileLocks.lock n).Grantable job.op.mode then
      some (sh.lockFile job.server n r job.op.mode, .operating job .begun,
        [.call (.invoked job.toFileCall)])
    else none
  | .operating job st =>
    afterStep sh job os ((sh.servers job.server).fs.opStep job.path os job.op st)
  | .releasing job result =>
    if (sh.servers job.server).fileLocksMutex = none then
      some (sh.setMutex job.server (some r), .unlocking job result, [])
    else none
  | .unlocking job result =>
    match (sh.servers job.server).fileLocks.find job.path with
    | some n =>
      some (sh.unlockFile job.server n r job.op.mode, .unlocked job result,
        [.call (.returned job.toFileCall result)])
    | none => some (sh, .unlocked job result, [])
  | .unlocked job result => some (sh.setMutex job.server none, .answering job result, [])
  | .answering job result => answerStep sh job result
  | .connecting msg bytes =>
    match route msg.destSsIp.str msg.destSsClientPort with
    | some s => some (sh.setMail r (.request s (.writeRequest msg bytes)), .awaiting, [])
    | none => some (sh, .finished, [.replied (.nack .ssUnavailable)])
  | .awaiting =>
    match sh.mail r with
    | .reply msg =>
      some (sh, .finished,
        [.replied (if msg.Succeeded then .ack else .nack msg.errorCode)])
    | .closed => some (sh, .finished, [.replied (.nack .networkError)])
    | _ => none
  | .idle | .finished => none

/-- A connection cannot be made, or breaks. -/
def fileFailStep (code : ErrorCode) : FileThread → FileOutcome
  | .connecting _ _ | .awaiting => some (sh, .finished, [.replied (.nack code)])
  | .answering ⟨_, .answerCopy q⟩ _ => some (sh.setMail q .closed, .finished, [])
  | _ => none

def fileProcess : Process FileShared FileThread FileAction FileEvent :=
  fun r sh t action =>
    match action, t with
    | .start port s msg, .idle =>
      let next :=
        match port, msg.operation with
        | .nm, .copyFile => FollowUp.copy msg
        | _, _ => .answer
      handle sh port s msg next
    | .accept q, .idle =>
      match sh.mail q with
      | .request s msg => handle (sh.setMail q .serving) .client s msg (.answerCopy q)
      | _ => none
    | .step os, t => fileThreadStep route r sh os t
    | .transfer os, .operating job st =>
      afterStep sh job os ((sh.servers job.server).fs.transferStep os st)
    | .fail code, t => fileFailStep sh code t
    | _, _ => none

end Steps

abbrev FileWorld := World FileShared FileThread FileEvent

def fileStep (route : CString → Int32 → Option ℕ) : FileWorld → ℕ × FileAction → Option FileWorld :=
  Interleaving.step (fileProcess route)

/-- No lock yet, and the given files. -/
def fileStart (files : ℕ → FileSystem) : FileWorld :=
  .start ⟨fun s => ⟨.init, none, files s⟩, fun _ => .empty⟩ .idle

/-- The steps of a handler, one by one; `fails` tells that a system call fails in the step. -/
inductive FileThreadStep (r : ℕ) (sh : FileShared) (fails : Prop) :
    FileThread → FileShared → FileThread → List FileEvent → Prop
  | acquire {job} (h : (sh.servers job.server).fileLocksMutex = none) :
    FileThreadStep r sh fails (.acquiring job) (sh.setMutex job.server (some r)) (.finding job) []
  | find {job node table} (malloc : Bool) (hmalloc : malloc = false → fails)
    (h : (sh.servers job.server).fileLocks.getOrCreateFileLockNode job.path malloc =
      (node, table)) :
    FileThreadStep r sh fails (.finding job) (sh.setTable job.server table) (.obtained job node) []
  | leave {job n} :
    FileThreadStep r sh fails (.obtained job (some n)) (sh.setMutex job.server none)
      (.locking job n) []
  | leaveFailed {job} :
    FileThreadStep r sh fails (.obtained job none) (sh.setMutex job.server none)
      (.answering job .inUse) []
  | lockFailed {job n} (h : fails) :
    FileThreadStep r sh fails (.locking job n) sh (.answering job .inUse) []
  | lock {job n}
    (h : ((sh.servers job.server).fileLocks.lock n).Grantable job.op.mode) :
    FileThreadStep r sh fails (.locking job n) (sh.lockFile job.server n r job.op.mode)
      (.operating job .begun) [.call (.invoked job.toFileCall)]
  | operate {job st fs st'} (os : Os) (hdone : ∀ result, st' ≠ .done result)
    (h : (sh.servers job.server).fs.opStep job.path os job.op st = some (fs, st') ∨
      (sh.servers job.server).fs.transferStep os st = some (fs, st')) :
    FileThreadStep r sh fails (.operating job st) (sh.setFs job.server fs) (.operating job st') []
  | act {job st fs} {result : FileReturn} (os : Os) (hfails : result.failed = true → fails)
    (hworks : result.failed = false → os.Works)
    (h : (sh.servers job.server).fs.opStep job.path os job.op st =
      some (fs, .done result.toFileResult)) :
    FileThreadStep r sh fails (.operating job st) (sh.setFs job.server fs) (.releasing job result)
      [.call (.acted job.toFileCall result)]
  | acquireAgain {job result} (h : (sh.servers job.server).fileLocksMutex = none) :
    FileThreadStep r sh fails (.releasing job result) (sh.setMutex job.server (some r))
      (.unlocking job result) []
  | unlock {job result n} (h : (sh.servers job.server).fileLocks.find job.path = some n) :
    FileThreadStep r sh fails (.unlocking job result) (sh.unlockFile job.server n r job.op.mode)
      (.unlocked job result) [.call (.returned job.toFileCall result)]
  | unlockNothing {job result} (h : (sh.servers job.server).fileLocks.find job.path = none) :
    FileThreadStep r sh fails (.unlocking job result) sh (.unlocked job result) []
  | leaveAgain {job result} :
    FileThreadStep r sh fails (.unlocked job result) (sh.setMutex job.server none)
      (.answering job result) []
  | answer {call result} :
    FileThreadStep r sh fails (.answering ⟨call, .answer⟩ result) sh .finished
      [.replied result.reply]
  | answerCopy {call q result mail es} (hmail : mail = .closed ∨ ∃ msg, mail = .reply msg)
    (hes : es = [] ∨ es = [.replied result.reply]) :
    FileThreadStep r sh fails (.answering ⟨call, .answerCopy q⟩ result) (sh.setMail q mail)
      .finished es
  | copyFailed {call msg result} (h : result.code ≠ .success) :
    FileThreadStep r sh fails (.answering ⟨call, .copy msg⟩ result) sh .finished
      [.replied (.nack result.code)]
  | copy {call msg result} (h : result.code = .success) :
    FileThreadStep r sh fails (.answering ⟨call, .copy msg⟩ result) sh
      (.connecting msg result.data) []
  | send {msg bytes s} :
    FileThreadStep r sh fails (.connecting msg bytes)
      (sh.setMail r (.request s (.writeRequest msg bytes))) .awaiting []
  | sendFailed {msg bytes response} :
    FileThreadStep r sh fails (.connecting msg bytes) sh .finished [.replied response]
  | receive {response} : FileThreadStep r sh fails .awaiting sh .finished [.replied response]

/-- An idle thread receives a request. -/
inductive FileThreadStart (sh : FileShared) : FileShared → FileThread → List FileEvent → Prop
  | start (job : FileJob) (h : ∀ q, job.next ≠ .answerCopy q) :
    FileThreadStart sh sh (.acquiring job) [.started job]
  | invalid (response : Message) : FileThreadStart sh sh .finished [.replied response]
  | accept {q s msg op} (h : sh.mail q = .request s msg)
    (hop : Port.client.fileOperation msg = some op) :
    FileThreadStart sh (sh.setMail q .serving)
      (.acquiring ⟨⟨s, msg.path.str, op⟩, .answerCopy q⟩)
      [.started ⟨⟨s, msg.path.str, op⟩, .answerCopy q⟩]
  | acceptInvalid {q s msg} (h : sh.mail q = .request s msg)
    (hop : Port.client.fileOperation msg = none) (response : Message) :
    FileThreadStart sh (sh.setMail q .serving) .finished [.replied response]

variable {route : CString → Int32 → Option ℕ} {r : ℕ} {sh : FileShared} {t : FileThread}
  {x : FileShared × FileThread × List FileEvent}

theorem FileThreadStep.of_opStep {job : FileJob} {st : OpState} {os : Os}
    (h : afterStep sh job os ((sh.servers job.server).fs.opStep job.path os job.op st) = some x) :
    FileThreadStep r sh (¬os.Works) (.operating job st) x.1 x.2.1 x.2.2 := by
  unfold afterStep at h
  split at h
  · next fs result hop =>
      obtain rfl := Option.some.inj h
      exact .act os of_decide_eq_true (fun hworks => not_not.mp (of_decide_eq_false hworks)) hop
  · next fs st' hdone hop =>
      obtain rfl := Option.some.inj h
      refine .operate os (fun result hst => ?_) (Or.inl hop)
      subst hst
      exact hdone result rfl
  · cases h

theorem FileSystem.transferStep_ne_done {fs fs' : FileSystem} {st : OpState} {os : Os}
    (result : FileResult) : fs.transferStep os st ≠ some (fs', .done result) := by
  cases st <;> simp [transferStep]

/-- A transfer does not end the operation. -/
theorem FileThreadStep.of_transferStep {job : FileJob} {st : OpState} {os : Os} {fails : Prop}
    (h : afterStep sh job os ((sh.servers job.server).fs.transferStep os st) = some x) :
    FileThreadStep r sh fails (.operating job st) x.1 x.2.1 x.2.2 := by
  unfold afterStep at h
  split at h
  · next fs result htransfer => exact absurd htransfer (FileSystem.transferStep_ne_done result)
  · next fs st' hdone htransfer =>
      obtain rfl := Option.some.inj h
      refine .operate os (fun result hst => ?_) (Or.inr htransfer)
      subst hst
      exact hdone result rfl
  · cases h

theorem FileThreadStep.of_step {os : Os} (h : fileThreadStep route r sh os t = some x) :
    FileThreadStep r sh (¬os.Works) t x.1 x.2.1 x.2.2 := by
  cases t with
  | idle => cases h
  | finished => cases h
  | acquiring job =>
      simp only [fileThreadStep, Option.ite_none_right_eq_some, Option.some.injEq] at h
      obtain ⟨hfree, rfl⟩ := h
      exact .acquire hfree
  | finding job =>
      obtain rfl := Option.some.inj h
      exact .find os.lock (fun hmalloc hworks => by simp [hworks.1] at hmalloc) rfl
  | obtained job node =>
      cases node with
      | none =>
          obtain rfl := Option.some.inj h
          exact .leaveFailed
      | some n =>
          obtain rfl := Option.some.inj h
          exact .leave
  | locking job n =>
      rw [fileThreadStep] at h
      split_ifs at h with hfail hgrant
      · obtain rfl := Option.some.inj h
        exact .lockFailed fun hworks => by simp [hworks.1] at hfail
      · obtain rfl := Option.some.inj h
        exact .lock hgrant
  | operating job st => exact .of_opStep h
  | releasing job result =>
      simp only [fileThreadStep, Option.ite_none_right_eq_some, Option.some.injEq] at h
      obtain ⟨hfree, rfl⟩ := h
      exact .acquireAgain hfree
  | unlocking job result =>
      rw [fileThreadStep] at h
      split at h <;> rename_i hfind <;> obtain rfl := Option.some.inj h
      · exact .unlock hfind
      · exact .unlockNothing hfind
  | unlocked job result =>
      obtain rfl := Option.some.inj h
      exact .leaveAgain
  | answering job result =>
      obtain ⟨call, next⟩ := job
      cases next with
      | answer =>
          obtain rfl := Option.some.inj h
          exact .answer
      | answerCopy q =>
          obtain rfl := Option.some.inj h
          exact .answerCopy (Or.inr ⟨_, rfl⟩) (Or.inr rfl)
      | copy msg =>
          simp only [fileThreadStep, answerStep] at h
          split_ifs at h with hcode <;> obtain rfl := Option.some.inj h
          · exact .copy hcode
          · exact .copyFailed hcode
  | connecting msg bytes =>
      rw [fileThreadStep] at h
      split at h <;> obtain rfl := Option.some.inj h
      · exact .send
      · exact .sendFailed
  | awaiting =>
      rw [fileThreadStep] at h
      split at h
      · obtain rfl := Option.some.inj h
        exact .receive
      · obtain rfl := Option.some.inj h
        exact .receive
      · cases h

theorem FileThreadStep.of_fail {code : ErrorCode} {fails : Prop}
    (h : fileFailStep sh code t = some x) : FileThreadStep r sh fails t x.1 x.2.1 x.2.2 := by
  unfold fileFailStep at h
  split at h
  · obtain rfl := Option.some.inj h
    exact .sendFailed
  · obtain rfl := Option.some.inj h
    exact .receive
  · obtain rfl := Option.some.inj h
    exact .answerCopy (Or.inl rfl) (Or.inl rfl)
  · cases h

/-- An idle thread starts, or a handler takes a step. -/
theorem fileProcess_cases {a : FileAction} (h : fileProcess route r sh t a = some x) :
    t = .idle ∧ FileThreadStart sh x.1 x.2.1 x.2.2 ∨
      FileThreadStep r sh a.Fails t x.1 x.2.1 x.2.2 := by
  cases a with
  | start port s msg =>
      cases t <;> simp only [fileProcess, reduceCtorEq] at h
      refine Or.inl ⟨rfl, ?_⟩
      rw [handle] at h
      split at h <;> obtain rfl := Option.some.inj h
      · refine .start _ fun q => ?_
        dsimp only
        split <;> simp
      · exact .invalid _
  | accept q =>
      cases t <;> simp only [fileProcess, reduceCtorEq] at h
      refine Or.inl ⟨rfl, ?_⟩
      split at h
      · next s msg hmail =>
          rw [handle] at h
          split at h <;> rename_i hop <;> obtain rfl := Option.some.inj h
          · exact .accept hmail hop
          · exact .acceptInvalid hmail hop _
      · cases h
  | step os => exact Or.inr (.of_step h)
  | transfer os =>
      cases t <;> simp only [fileProcess, reduceCtorEq] at h
      exact Or.inr (.of_transferStep h)
  | fail code => exact Or.inr (.of_fail h)

end NetworkFileSystem
