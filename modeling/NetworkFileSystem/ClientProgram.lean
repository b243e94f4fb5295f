import NetworkFileSystem.Sockets
import NetworkFileSystem.Listing
import NetworkFileSystem.FaithfulStore

/-!
# The client

`main` of `client.c` with its system calls and its output. Whatever the calls return, the client
leaves no socket open. It sends its request to the naming server and then, if a lookup succeeds, to
the storage server that the reply names; it succeeds and reports what it got exactly when it is
answered. What one client writes another one prints.
-/

namespace NetworkFileSystem

open Interaction

/-- What `%s` prints for `data`: the bytes up to a zero, in the array or behind it. -/
def Message.dataText (m : Message) : CString :=
  (m.toBytes.toList.drop dataOffset).takeWhile (· ≠ 0)

namespace Sockets

/-- What the client prints. -/
inductive ClientAccess
  | printUsage (progName : CString)
  | log (line : CString)

abbrev ClientProg (α : Type) := Prog (fun _ : ClientAccess => Unit) α

namespace Client

def printUsage (progName : CString) : ClientProg Unit := access (.printUsage progName)

def logMessage (line : CString) : ClientProg Unit := access (.log line)

/-- What the command line asks for. -/
inductive Parsed
  | request (msg : Message)
  | wrongArguments
  | unknownCommand

/-- A command with one path. -/
def parsePath (op : OperationType) : List CString → Parsed
  | [path] => .request { Message.zero with operation := op, path := .ofBytes _ path }
  | _ => .wrongArguments

/-- The request, for arguments that fit the arrays of a message. -/
def parse (command : CString) (args : List CString) : Parsed :=
  if command = text "LIST" then .request { Message.zero with operation := .listPaths }
  else if command = text "READ" then parsePath .readFile args
  else if command = text "WRITE" then
    match args with
    | path :: data :: options =>
      .request { Message.zero with
        operation := .writeFile
        path := .ofBytes _ path
        data := .ofBytes _ data
        dataSize := Int32.ofNat data.length
        writeMode := if options = [text "--SYNC"] then .sync else .async }
    | _ => .wrongArguments
  else if command = text "CREATE" then
    match args with
    | path :: options =>
      .request { Message.zero with
        operation := .createFile
        path := .ofBytes _ path
        fileType := if options = [text "--DIR"] then .dir else .file }
    | _ => .wrongArguments
  else if command = text "DELETE" then parsePath .deleteFile args
  else if command = text "INFO" then parsePath .getFileInfo args
  else if command = text "COPY" then
    match args with
    | [source, dest] =>
      .request { Message.zero with
        operation := .copyFile, path := .ofBytes _ source, path2 := .ofBytes _ dest }
    | _ => .wrongArguments
  else .unknownCommand

/-! ### The reports -/

/-- The report on a success of the naming server that needs no storage server. -/
def acknowledged (command : CString) (msg response : Message) : CString :=
  if msg.operation = .listPaths then
    text "Client: Received list of accessible paths from NM:\n" ++ response.dataText
  else
    text "Client: NM acknowledged " ++ command ++ text " operation for path " ++ msg.path.str ++
      text "."

/-- The report on any other reply of the naming server. -/
def refused (command : CString) (response : Message) : CString :=
  if response.operation = .nack then
    text "Client: NM returned NACK for " ++ command ++ text ". Error code: " ++
      decimal response.errorCode
  else
    text "Client: Received unexpected response from NM. Operation: " ++
      decimal response.operation.toCode.toInt32 ++ text ", Error: " ++ decimal response.errorCode

/-- The report on the reply of a storage server. -/
def served (command : CString) (msg response : Message) : CString :=
  if response.Succeeded then
    if msg.operation = .readFile then
      text "Client: Read from file " ++ msg.path.str ++ text ":\n" ++ response.dataText
    else if msg.operation = .writeFile then
      text "Client: Successfully wrote to file " ++ msg.path.str ++ text "."
    else text "Client: Info for file " ++ msg.path.str ++ text ":\n" ++ response.dataText
  else
    text "Client: SS returned NACK for " ++ command ++ text ". Error code: " ++
      decimal response.errorCode

/-! ### The program -/

/-- The end of `main` after a report. -/
def finish (report : CString) : ClientProg ExitStatus := do
  logMessage report
  logMessage (text "Client: Operation completed.")
  pure .success

/-- READ_FILE, WRITE_FILE and GET_FILE_INFO go on to a storage server. -/
def askSs (command : CString) (msg located : Message) : ClientProg ExitStatus := do
  logMessage (text "Client: NM directed to SS at " ++ located.ssIp.str ++ text ":" ++
    decimal located.ssClientPort ++ text " for " ++ command ++ text " operation.")
  match ← createSocket with
  | none => pure .failure
  | some fd =>
    if ← connectToServer fd located.ssIp.str located.ssClientPort then
      logMessage (text "Client: Sending " ++ command ++ text " request to SS.")
      if ← sendMessage fd msg then
        match ← receiveMessage fd with
        | none =>
          logMessage (text "Client: Failed to receive response from SS or connection closed.")
          close fd
          pure .failure
        | some response =>
          close fd
          finish (served command msg response)
      else
        close fd
        pure .failure
    else
      close fd
      logMessage (text "Client: Failed to connect to Storage Server.")
      pure .failure

/-- The rest of `main` after the reply of the naming server. -/
def takeReply (command : CString) (msg response : Message) : ClientProg ExitStatus :=
  if response.Succeeded then
    if msg.IsLookup then askSs command msg response
    else finish (acknowledged command msg response)
  else finish (refused command response)

/-- Send the request to the naming server, to which the socket is connected. -/
def askNm (fd : Fd) (command : CString) (msg : Message) : ClientProg ExitStatus := do
  logMessage (text "Client: Sending " ++ command ++ text " request to NM.")
  if ← sendMessage fd msg then
    match ← receiveMessage fd with
    | none =>
      logMessage (text "Client: Failed to receive response from NM or connection closed.")
      close fd
      pure .failure
    | some response =>
      close fd
      takeReply command msg response
  else
    close fd
    pure .failure

def main (argv : List CString) : ClientProg ExitStatus :=
  match argv with
  | progName :: nmIp :: nmPort :: command :: args => do
    match ← createSocket with
    | none => pure .failure
    | some fd =>
      logMessage (text "Client: Connecting to Naming Server at " ++ nmIp ++ text ":" ++
        decimal (atoi nmPort))
      if ← connectToServer fd nmIp (atoi nmPort) then
        match parse command args with
        | .request msg => askNm fd command msg
        | .wrongArguments =>
          printUsage progName
          close fd
          pure .failure
        | .unknownCommand =>
          logMessage (text "Client: Unknown command: " ++ command)
          printUsage progName
          close fd
          pure .failure
      else
        close fd
        pure .failure
  | _ => do
    printUsage (argv.headD [])
    pure .failure

/-! ### What the client owns -/

variable {fd : Fd} {s : Owned}

theorem keepsOwned_finish (report : CString) : KeepsOwned none (finish report) :=
  (keepsOwned_access _).bind fun _ => (keepsOwned_access _).bind fun _ => keeps_pure _

/-- The state in which the client started, with one more socket. -/
abbrev opened (s : Owned) (fd : Fd) : Owned := { s with fds := insert fd s.fds }

/-- The socket is closed, and the rest keeps what the client owns. -/
theorem meets_close_bind (hfresh : fd ∉ s.fds) {p : ClientProg ExitStatus}
    (hp : KeepsOwned none p) :
    Meets (ownership _ none) (close fd >>= fun _ => p) (fun _ t => t = s) (opened s fd) := by
  refine meets_bind.mpr (meets_close (Finset.mem_insert_self fd s.fds) ?_)
  rw [Finset.erase_insert hfresh]
  exact hp s nofun

/-- Output does not change what the client owns. -/
theorem meets_log_bind {line : CString} {p : ClientProg ExitStatus} {t : Owned}
    (hp : Meets (ownership _ none) p (fun _ t => t = s) t) :
    Meets (ownership _ none) (logMessage line >>= fun _ => p) (fun _ t => t = s) t :=
  (keepsOwned_access _).meets_bind nofun fun _ => hp

theorem keepsOwned_askSs (command : CString) (msg located : Message) :
    KeepsOwned none (askSs command msg located) := by
  intro s _
  refine meets_log_bind (meets_bind.mpr (meets_createSocket rfl fun fd hfresh => ?_))
  have hmem : fd ∈ insert fd s.fds := Finset.mem_insert_self fd s.fds
  refine meets_bind.mpr (meets_connectToServer hmem fun connected => ?_)
  cases connected with
  | false => exact meets_close_bind hfresh ((keepsOwned_access _).bind fun _ => keeps_pure _)
  | true =>
      refine meets_log_bind (meets_bind.mpr (meets_sendMessage hmem nofun fun sent => ?_))
      cases sent with
      | false => exact meets_close_bind hfresh (keeps_pure _)
      | true =>
          refine meets_bind.mpr (meets_receiveMessage hmem nofun fun response => ?_)
          cases response with
          | none => exact meets_log_bind (meets_close_bind hfresh (keeps_pure _))
          | some response => exact meets_close_bind hfresh (keepsOwned_finish _)

theorem keepsOwned_takeReply (command : CString) (msg response : Message) :
    KeepsOwned none (takeReply command msg response) := by
  unfold takeReply
  split_ifs
  · exact keepsOwned_askSs command msg response
  · exact keepsOwned_finish _
  · exact keepsOwned_finish _

theorem meets_askNm (hfresh : fd ∉ s.fds) (command : CString) (msg : Message) :
    Meets (ownership _ none) (askNm fd command msg) (fun _ t => t = s) (opened s fd) := by
  have hmem : fd ∈ insert fd s.fds := Finset.mem_insert_self fd s.fds
  refine meets_log_bind (meets_bind.mpr (meets_sendMessage hmem nofun fun sent => ?_))
  cases sent with
  | false => exact meets_close_bind hfresh (keeps_pure _)
  | true =>
      refine meets_bind.mpr (meets_receiveMessage hmem nofun fun response => ?_)
      cases response with
      | none => exact meets_log_bind (meets_close_bind hfresh (keeps_pure _))
      | some response => exact meets_close_bind hfresh (keepsOwned_takeReply command msg response)

theorem keepsOwned_main (argv : List CString) : KeepsOwned none (main argv) := by
  intro s _
  have husage : ∀ progName : CString, ∀ fd, fd ∉ s.fds → Meets (ownership _ none)
      (printUsage progName >>= fun _ => close fd >>= fun _ => pure ExitStatus.failure)
      (fun _ t => t = s) (opened s fd) := fun progName fd hfresh =>
    (keepsOwned_access _).meets_bind nofun fun _ => meets_close_bind hfresh (keeps_pure _)
  unfold main
  split
  · next progName nmIp nmPort command args =>
      refine meets_bind.mpr (meets_createSocket rfl fun fd hfresh => meets_log_bind ?_)
      have hmem : fd ∈ insert fd s.fds := Finset.mem_insert_self fd s.fds
      refine meets_bind.mpr (meets_connectToServer hmem fun connected => ?_)
      cases connected with
      | false => exact meets_close_bind hfresh (keeps_pure _)
      | true =>
          cases parse command args with
          | request msg => exact meets_askNm hfresh command msg
          | wrongArguments => exact husage progName fd hfresh
          | unknownCommand => exact meets_log_bind (husage progName fd hfresh)
  · exact (keepsOwned_access _).bind (fun _ => keeps_pure _) s nofun

/-- Whatever its calls return, a client uses only what it owns, and its sockets are closed when it
exits. -/
theorem client_owned {argv : List CString}
    {tr : List (Sigma (Call.Response fun _ : ClientAccess => Unit))}
    {rest : ClientProg ExitStatus} (htr : Trace (main argv) tr rest)
    (hresponds : (ownership _ none).Responds (.sockets ∅) tr) :
    (ownership _ none).Allows (.sockets ∅) tr ∧
      ∀ status, rest = pure status →
        (ownership _ none).final (.sockets ∅) tr = .sockets ∅ := by
  obtain ⟨hallows, hrest⟩ := (keepsOwned_main argv _ nofun).of_trace htr hresponds
  refine ⟨hallows, fun status hdone => ?_⟩
  rwa [hdone] at hrest

/-- `client 1.1.1.1 9 READ /a`. -/
def readArgv : List CString :=
  [[99], [49, 46, 49, 46, 49, 46, 49], [57], text "READ", [47, 97]]

/-- Every call succeeds; the replies are that of the naming server and that of the storage
server. -/
def replying (located response : Message) (n : ℕ) :
    (c : Call ClientAccess) → c.Response fun _ => Unit
  | .socket | .accept _ => some (3 : ℕ)
  | .connect _ _ _ | .bind _ _ | .listen _ | .send _ _ => true
  | .recv _ => some (if n < 8 then located else response)
  | .getsockname _ | .malloc => none
  | .createThread _ _ => (0 : Int32)
  | .close _ | .free _ | .detach | .access _ => ()

/-- The reply that names a storage server at the same address. -/
def locatedHere : Message := { Message.ack with ssIp := .ofBytes _ [49, 46, 49, 46, 49, 46, 49] }

/-- The file `/a` contains `hi`. -/
def readRun : List (Sigma (Call.Response fun _ : ClientAccess => Unit)) × ExitStatus :=
  (main readArgv).play (replying locatedHere (.readResult .success [104, 105])) 0

theorem trace_readRun : Trace (main readArgv) readRun.1 (pure .success) := by
  have hstatus : readRun.2 = .success := by decide +kernel
  exact hstatus ▸ trace_play _ 0 (main readArgv)

theorem client_owned_readRun :
    (ownership _ none).final (.sockets ∅) readRun.1 = .sockets ∅ :=
  (client_owned trace_readRun (by decide +kernel)).2 _ rfl

/-! ### What the client says and prints -/

/-- The command and the request of the command line. -/
def requestOf (argv : List CString) : Option (CString × Message) :=
  match argv with
  | _ :: _ :: _ :: command :: args =>
    match parse command args with
    | .request msg => some (command, msg)
    | _ => none
  | _ => none

/-- The report of a complete conversation, from the replies of the naming server and of the storage
server. -/
def report (command : CString) (msg : Message) : List Message → Option CString
  | [response] =>
    if response.Succeeded then
      if msg.IsLookup then none else some (acknowledged command msg response)
    else some (refused command response)
  | [located, response] =>
    if located.Succeeded ∧ msg.IsLookup then some (served command msg response) else none
  | _ => none

structure Conversation where
  /-- The socket that is connected. -/
  connected : Option Fd
  /-- The requests sent so far. -/
  sent : ℕ
  heard : List Message
  output : List CString

/-- The client connects to the naming server of the command line, and then to the storage server
that a successful reply to a lookup names. To each it sends its one request. -/
def conversation (argv : List CString) :
    Protocol (Call.Response fun _ : ClientAccess => Unit) Conversation where
  allowed c
    | .connect _ addr port => c.connected = none ∧
        ((c.heard = [] ∧ inetPton (argv.getD 1 []) = some addr ∧
          htons (atoi (argv.getD 2 [])) = port) ∨
        ∃ command msg located, requestOf argv = some (command, msg) ∧ c.heard = [located] ∧
          located.Succeeded ∧ msg.IsLookup ∧ inetPton located.ssIp.str = some addr ∧
          htons located.ssClientPort = port)
    | .send fd m => c.connected = some fd ∧ c.sent = c.heard.length ∧
        ∃ command, requestOf argv = some (command, m)
    | .recv fd => c.connected = some fd ∧ c.sent = c.heard.length + 1
    | _ => True
  responds _ _ _ := True
  after c
    | .connect fd _ _, (connected : Bool) =>
      if connected then { c with connected := some fd } else c
    | .close _, _ => { c with connected := none }
    | .send _ _, _ => { c with sent := c.sent + 1 }
    | .recv _, (msg : Option Message) => { c with heard := c.heard ++ msg.toList }
    | .access (.log line), _ => { c with output := c.output ++ [line] }
    | _, _ => c

/-- The client succeeds with the report of the conversation, or it fails and there is none. -/
def Conversation.Ended (argv : List CString) (status : ExitStatus) (c : Conversation) : Prop :=
  c.connected = none ∧
  (status = .success → ∃ command msg r lines, requestOf argv = some (command, msg) ∧
    report command msg c.heard = some r ∧
    c.output = lines ++ [r, text "Client: Operation completed."]) ∧
  (status = .failure → ∀ command msg, requestOf argv = some (command, msg) →
    report command msg c.heard = none)

section Meets

variable {argv : List CString} {command : CString} {msg : Message} {n : ℕ} {heard : List Message}
  {output : List CString}

theorem meets_finish {r : CString} (hrequest : requestOf argv = some (command, msg))
    (hreport : report command msg heard = some r) :
    Meets (conversation argv) (finish r) (fun status c => c.Ended argv status)
      ⟨none, n, heard, output⟩ := by
  refine ⟨trivial, fun _ _ => ⟨trivial, fun _ _ => ⟨rfl, fun _ => ?_, nofun⟩⟩⟩
  exact ⟨command, msg, r, output, hrequest, hreport, by simp [conversation]⟩

/-- The conversation is not complete. -/
theorem ended_failure (h : ∀ command msg, requestOf argv = some (command, msg) →
    report command msg heard = none) :
    Conversation.Ended argv .failure ⟨none, n, heard, output⟩ :=
  ⟨rfl, nofun, fun _ => h⟩

theorem meets_connect {Q : Bool → Conversation → Prop} {c : Conversation} {fd : Fd} {ip : CString}
    {port : Int32} (hallowed : ∀ addr, inetPton ip = some addr →
      (conversation argv).allowed c (.connect fd addr (htons port)))
    (hfalse : Q false c) (htrue : Q true { c with connected := some fd }) :
    Meets (conversation argv) (connectToServer fd ip port) Q c := by
  unfold connectToServer
  split
  · exact hfalse
  · next addr haddr =>
      refine ⟨hallowed addr haddr, fun connected _ => ?_⟩
      cases connected with
      | false => exact hfalse
      | true => exact htrue

theorem meets_askSs {located : Message} (hrequest : requestOf argv = some (command, msg))
    (hlocated : located.Succeeded) (hlookup : msg.IsLookup) :
    Meets (conversation argv) (askSs command msg located) (fun status c => c.Ended argv status)
      ⟨none, 1, [located], output⟩ := by
  have hnone : ∀ command msg', requestOf argv = some (command, msg') →
      report command msg' [located] = none := by
    intro command' msg' h
    obtain ⟨rfl, rfl⟩ := Prod.mk.inj (Option.some.inj (hrequest.symm.trans h))
    rw [report, if_pos hlocated, if_pos hlookup]
  refine ⟨trivial, fun _ _ => ⟨trivial, fun fd _ => ?_⟩⟩
  cases fd with
  | none => exact ended_failure hnone
  | some fd =>
      change Meets (conversation argv) (connectToServer fd _ _ >>= _) _ ⟨none, 1, [located], _⟩
      refine meets_bind.mpr (meets_connect (fun addr haddr => ⟨rfl, Or.inr ?_⟩) ?_ ?_)
      · exact ⟨command, msg, located, hrequest, rfl, hlocated, hlookup, haddr, rfl⟩
      · exact ⟨trivial, fun _ _ => ⟨trivial, fun _ _ => ended_failure hnone⟩⟩
      · refine ⟨trivial, fun _ _ => ⟨⟨rfl, rfl, command, hrequest⟩, fun sent _ => ?_⟩⟩
        cases sent with
        | false => exact ⟨trivial, fun _ _ => ended_failure hnone⟩
        | true =>
            refine ⟨⟨rfl, rfl⟩, fun response _ => ?_⟩
            cases response with
            | none =>
                refine ⟨trivial, fun _ _ => ⟨trivial, fun _ _ => ended_failure ?_⟩⟩
                exact hnone
            | some response =>
                refine ⟨trivial, fun _ _ => meets_finish hrequest ?_⟩
                exact if_pos ⟨hlocated, hlookup⟩

/-- The part of `main` after the reply of the naming server. -/
theorem meets_takeReply {response : Message} (hrequest : requestOf argv = some (command, msg)) :
    Meets (conversation argv) (takeReply command msg response) (fun status c => c.Ended argv status)
      ⟨none, 1, [response], output⟩ := by
  unfold takeReply
  split_ifs with hsucceeded hlookup
  · exact meets_askSs hrequest hsucceeded hlookup
  · refine meets_finish hrequest ?_
    rw [report, if_pos hsucceeded, if_neg hlookup]
  · refine meets_finish hrequest ?_
    rw [report, if_neg hsucceeded]

theorem meets_askNm_conversation {fd : Fd} (hrequest : requestOf argv = some (command, msg)) :
    Meets (conversation argv) (askNm fd command msg) (fun status c => c.Ended argv status)
      ⟨some fd, 0, [], output⟩ := by
  refine ⟨trivial, fun _ _ => ⟨⟨rfl, rfl, command, hrequest⟩, fun sent _ => ?_⟩⟩
  cases sent with
  | false => exact ⟨trivial, fun _ _ => ended_failure fun _ _ _ => rfl⟩
  | true =>
      refine ⟨⟨rfl, rfl⟩, fun response _ => ?_⟩
      cases response with
      | none => exact ⟨trivial, fun _ _ => ⟨trivial, fun _ _ => ended_failure fun _ _ _ => rfl⟩⟩
      | some response => exact ⟨trivial, fun _ _ => meets_takeReply hrequest⟩

theorem meets_main (argv : List CString) :
    Meets (conversation argv) (main argv) (fun status c => c.Ended argv status)
      ⟨none, 0, [], []⟩ := by
  unfold main
  split
  · next progName nmIp nmPort command args =>
      refine ⟨trivial, fun fd _ => ?_⟩
      cases fd with
      | none => exact ended_failure fun _ _ _ => rfl
      | some fd =>
          refine ⟨trivial, fun _ _ => ?_⟩
          change Meets (conversation _) (connectToServer fd _ _ >>= _) _ ⟨none, 0, [], _⟩
          refine meets_bind.mpr (meets_connect (fun addr haddr => ⟨rfl, Or.inl ⟨rfl, haddr, rfl⟩⟩)
            ?_ ?_)
          · exact ⟨trivial, fun _ _ => ended_failure fun _ _ _ => rfl⟩
          cases hparse : parse command args with
          | request msg =>
              refine meets_askNm_conversation ?_
              simp only [requestOf, hparse]
          | wrongArguments =>
              exact ⟨trivial, fun _ _ => ⟨trivial, fun _ _ => ended_failure fun _ _ _ => rfl⟩⟩
          | unknownCommand =>
              exact ⟨trivial, fun _ _ => ⟨trivial, fun _ _ => ⟨trivial, fun _ _ =>
                ended_failure fun _ _ _ => rfl⟩⟩⟩
  · exact ⟨trivial, fun _ _ => ended_failure fun _ _ _ => rfl⟩

/-- Whatever the surroundings do, the client connects and sends only as it may; it exits with
success and the report of the conversation, or with failure and there is nothing to report. -/
theorem client_converses {tr : List (Sigma (Call.Response fun _ : ClientAccess => Unit))}
    {rest : ClientProg ExitStatus} (htr : Trace (main argv) tr rest) :
    (conversation argv).Allows ⟨none, 0, [], []⟩ tr ∧
      ∀ status, rest = pure status →
        ((conversation argv).final ⟨none, 0, [], []⟩ tr).Ended argv status := by
  obtain ⟨hallows, hrest⟩ := (meets_main argv).of_trace htr
    (Protocol.responds_of_forall (fun _ _ _ => trivial) _ tr)
  refine ⟨hallows, fun status hdone => ?_⟩
  rwa [hdone] at hrest

theorem client_converses_readRun :
    ((conversation readArgv).final ⟨none, 0, [], []⟩ readRun.1).Ended readArgv .success :=
  (client_converses trace_readRun).2 _ rfl

end Meets

/-! ### What one client writes another one prints -/

theorem dataText_of_data {m : Message} {bytes : List UInt8} (hdata : m.data = .ofBytes _ bytes)
    (hzero : 0 ∉ bytes) (hlen : bytes.length < maxDataSize) : m.dataText = bytes := by
  have hfield : m.data.toList = (m.toBytes.toList.drop Message.dataOffset).take maxDataSize := by
    rw [← Message.data_ofBytes, Message.toBytes, Message.ofBytes, Equiv.symm_apply_apply]
  obtain ⟨k, hk⟩ : ∃ k, maxDataSize = bytes.length + (k + 1) :=
    ⟨maxDataSize - bytes.length - 1, by omega⟩
  have hbytes : m.data.toList = bytes ++ List.replicate (k + 1) 0 := by
    rw [hdata]
    change (bytes ++ List.replicate maxDataSize 0).take maxDataSize = _
    rw [hk, List.take_length_add_append, List.take_replicate]
    congr 1
    congr 1
    omega
  rw [Message.dataText, ← List.take_append_drop maxDataSize (m.toBytes.toList.drop _), ← hfield,
    hbytes, List.append_assoc, List.takeWhile_append_of_pos]
  · simp [List.replicate_succ]
  · intro b hb
    simpa using fun h : b = 0 => hzero (h ▸ hb)

section Store

open Store

variable {disk : Disk} {path data : CString} {reqs₁ reqs₂ : List StoreRequest}

theorem run_append (disk : Disk) (reqs₁ reqs₂ : List StoreRequest) :
    (run disk (reqs₁ ++ reqs₂)).disk = (run (run disk reqs₁).disk reqs₂).disk ∧
      (run disk (reqs₁ ++ reqs₂)).history =
        (run disk reqs₁).history ++ (run (run disk reqs₁).disk reqs₂).history := by
  induction reqs₂ using List.reverseRecOn with
  | nil => simp [run, Store.start]
  | append_singleton reqs₂ req ih =>
      rw [← List.append_assoc, run_concat, run_concat]
      simp only [Store.handle, ih, List.append_assoc, and_self]

/-- A successful WRITE_FILE decides what was stored last, until something else is stored. -/
theorem lastStored_of_written {write : StoreRequest} (hop : write.msg.operation = .writeFile)
    (hpath : write.msg.path.str = path)
    (hwritten : (serve (run disk reqs₁).disk write.os write.msg).1.Succeeded)
    (hothers : ∀ x ∈ (run (run disk (reqs₁ ++ [write])).disk reqs₂).history,
      storedBy path x = none) :
    lastStored (run disk (reqs₁ ++ [write] ++ reqs₂)).history path = some write.msg.payload := by
  have hnone : (run (run disk (reqs₁ ++ [write])).disk reqs₂).history.reverse.findSome?
      (storedBy path) = none :=
    List.findSome?_eq_none_iff.mpr fun x hx => hothers x (List.mem_reverse.mp hx)
  rw [(run_append disk (reqs₁ ++ [write]) reqs₂).2, lastStored, List.reverse_append,
    List.findSome?_append, hnone, Option.none_or, run_concat]
  change lastStored ((run disk reqs₁).history ++ [(write.msg, _)]) path = _
  rw [lastStored_concat, storedBy, if_pos ⟨hpath, hwritten⟩, hop, Option.some_or]

theorem parse_read (path : CString) : parse (text "READ") [path] =
    .request { Message.zero with operation := .readFile, path := .ofBytes _ path } := by
  unfold parse
  rw [if_neg (by decide +kernel), if_pos rfl]
  rfl

theorem parse_write (path data : CString) (options : List CString) :
    parse (text "WRITE") (path :: data :: options) =
      .request { Message.zero with
        operation := .writeFile
        path := .ofBytes _ path
        data := .ofBytes _ data
        dataSize := Int32.ofNat data.length
        writeMode := if options = [text "--SYNC"] then .sync else .async } := by
  rw [parse, if_neg (by decide +kernel), if_neg (by decide +kernel), if_pos rfl]

/-- A client that reads a file prints the data of the last client that wrote it, for requests that
a storage server serves one after the other. -/
theorem client_prints_written (disk : Disk) (reqs₁ reqs₂ : List StoreRequest)
    (write read : StoreRequest) (located : Message) {progName nmIp nmPort : CString}
    {options : List CString} {status : ExitStatus}
    {tr : List (Sigma (Call.Response fun _ : ClientAccess => Unit))}
    (hpath : 0 ∉ path ∧ path.length < maxPathLen)
    (hdata : 0 ∉ data ∧ data.length < maxDataSize)
    (hwrite : parse (text "WRITE") (path :: data :: options) = .request write.msg)
    (hread : parse (text "READ") [path] = .request read.msg)
    (hspecial : disk path ≠ some .special)
    (hwritten : (serve (run disk reqs₁).disk write.os write.msg).1.Succeeded)
    (hothers : ∀ x ∈ (run (run disk (reqs₁ ++ [write])).disk reqs₂).history,
      storedBy path x = none)
    (hok : (serve (run disk (reqs₁ ++ [write] ++ reqs₂)).disk read.os read.msg).1.Succeeded)
    (htr : Trace (main [progName, nmIp, nmPort, text "READ", path]) tr (pure status))
    (hlocated : located.Succeeded)
    (hheard : ((conversation [progName, nmIp, nmPort, text "READ", path]).final
      ⟨none, 0, [], []⟩ tr).heard =
      [located, (serve (run disk (reqs₁ ++ [write] ++ reqs₂)).disk read.os read.msg).1]) :
    status = .success ∧ ∃ lines, ((conversation [progName, nmIp, nmPort, text "READ", path]).final
      ⟨none, 0, [], []⟩ tr).output = lines ++
        [text "Client: Read from file " ++ path ++ text ":\n" ++ data,
          text "Client: Operation completed."] := by
  have hwmsg := (Parsed.request.inj ((parse_write path data options).symm.trans hwrite)).symm
  have hrmsg := (Parsed.request.inj ((parse_read path).symm.trans hread)).symm
  have hstr : (CharArray.ofBytes maxPathLen path).str = path :=
    CharArray.str_ofBytes hpath.1 hpath.2
  have hfits : data.length ≤ maxDataSize - 1 := Nat.le_sub_one_of_lt hdata.2
  have hpayload : write.msg.payload = data :=
    Message.payload_of_ofBytes (by rw [hwmsg]) (by rw [hwmsg]) hfits
  have hholds := holds_run hspecial (reqs₁ ++ [write] ++ reqs₂)
  rw [lastStored_of_written (by rw [hwmsg]) (by rw [hwmsg, hstr]) hwritten hothers,
    hpayload] at hholds
  have hreply := hholds.read (by rw [hrmsg]) (by rw [hrmsg, hstr]) hok
  rw [List.take_of_length_le hfits] at hreply
  rw [hreply] at hheard
  have hrequest : requestOf [progName, nmIp, nmPort, text "READ", path] =
      some (text "READ", read.msg) := by
    simp only [requestOf, hread]
  have hreport : report (text "READ") read.msg [located, .readResult .success data] =
      some (text "Client: Read from file " ++ path ++ text ":\n" ++ data) := by
    have hlookup : read.msg.IsLookup := Or.inl (by rw [hrmsg])
    have hsucceeded : (Message.readResult .success data).Succeeded := ⟨rfl, rfl⟩
    rw [report, if_pos ⟨hlocated, hlookup⟩, served, if_pos hsucceeded, if_pos (by rw [hrmsg]),
      dataText_of_data rfl hdata.1 hdata.2, hrmsg, hstr]
  obtain ⟨-, hended⟩ := (meets_main _).of_trace htr
    (Protocol.responds_of_forall (fun _ _ _ => trivial) _ tr)
  obtain ⟨-, hsuccess, hfailure⟩ := hended
  cases status with
  | failure =>
      have hnone := hfailure rfl _ _ hrequest
      rw [hheard, hreport] at hnone
      cases hnone
  | success =>
      obtain ⟨command, msg, r, lines, hrequest', hreport', houtput⟩ := hsuccess rfl
      obtain ⟨rfl, rfl⟩ := Prod.mk.inj (Option.some.inj (hrequest.symm.trans hrequest'))
      rw [hheard, hreport] at hreport'
      obtain rfl := Option.some.inj hreport'
      exact ⟨rfl, lines, houtput⟩

/-- `client 1.1.1.1 9 WRITE /a hi`. -/
def writeHi : StoreRequest :=
  { writeA [104, 105] with
    msg := { (writeA [104, 105]).msg with dataSize := Int32.ofNat 2, writeMode := .async }
    sized := (writeA [104, 105]).sized }

theorem client_prints_written_readRun :
    ∃ lines, ((conversation readArgv).final ⟨none, 0, [], []⟩ readRun.1).output = lines ++
      [text "Client: Read from file " ++ [47, 97] ++ text ":\n" ++ [104, 105],
        text "Client: Operation completed."] := by
  have hspecial : (none : Option FileObject) ≠ some .special := by decide
  exact (client_prints_written (fun _ => none) [] [] writeHi Store.readA locatedHere
    ⟨by decide, by decide⟩ ⟨by decide, by decide⟩ (parse_write [47, 97] [104, 105] [])
    (parse_read [47, 97]) hspecial (by decide +kernel) (by decide +kernel) (by decide +kernel)
    trace_readRun ⟨rfl, rfl⟩ rfl).2

end Store

end Client

end Sockets
end NetworkFileSystem
