import NetworkFileSystem.Sockets
import Mathlib.Data.Finset.Card

/-!
# The main programs of the servers

`main` of `naming_server.c` and of `storage_server.c`, with the loops that accept connections and
start a thread for each. A server keeps its listening sockets and nothing else as long as every
thread can be created; it misuses what it has exactly when one cannot.
-/

namespace NetworkFileSystem

open Interaction

namespace Sockets

/-- What a server does besides its system calls. -/
inductive ServerAccess
  | printUsage (progName : CString)
  /-- Create the trie and the cache. -/
  | initState
  | initFileLocks
  | destroyFileLocks
  /-- Wait until a connection comes on one of the sockets. -/
  | select (nmSock clientSock : Fd)

def ServerAccess.Response : ServerAccess → Type
  | select _ _ => Bool × Bool
  | _ => Unit

abbrev ServerProg (α : Type) := Prog ServerAccess.Response α

namespace Server

def printUsage (argv : List CString) : ServerProg Unit :=
  access (ServerAccess.printUsage (argv.headD []))

def initFileLocks : ServerProg Unit := access ServerAccess.initFileLocks

def destroyFileLocks : ServerProg Unit := access ServerAccess.destroyFileLocks

/-- Accept a connection and start its handler; the result tells whether the loop body goes on. -/
def acceptOn (listenSock : Fd) : ServerProg Bool := do
  let block : Option Block ← call .malloc
  match block with
  | none => pure false
  | some block =>
    match ← acceptConnection listenSock with
    | none =>
      free block
      pure false
    | some fd =>
      let code : Int32 ← call (.createThread fd block)
      if code.toInt < 0 then
        close fd
        free block
        pure false
      else
        let _ ← call .detach
        pure true

/-- A socket that listens on the port. -/
def openListening (port : Int32) : ServerProg (Option Fd) := do
  match ← createSocket with
  | none => pure none
  | some fd =>
    if ← bindSocket fd port then
      if ← listenSocket fd then pure (some fd)
      else
        close fd
        pure none
    else
      close fd
      pure none

/-- `main` of the naming server, for so many rounds of its loop; no exit status while it runs. -/
def namingMain (argv : List CString) (rounds : ℕ) : ServerProg (Option ExitStatus) :=
  match argv with
  | [_, port] => do
    match ← openListening (atoi port) with
    | none => pure (some .failure)
    | some fd =>
      let _ : Unit ← access ServerAccess.initState
      let _ ← (acceptOn fd).iterate rounds
      pure none
  | _ => do
    printUsage argv
    pure (some .failure)

/-! ### The storage server -/

def localhost : CString := text "127.0.0.1"

/-- The address of the interface that a datagram to a public name server would leave by. -/
def getLocalIp : ServerProg CString := do
  let fd : Option Fd ← call .socket
  match fd with
  | none => pure localhost
  | some fd =>
    let connected : Bool ← call (.connect fd ⟨[8, 8, 8, 8], rfl⟩ (htons 53))
    if connected then
      let addr : Option InAddr ← call (.getsockname fd)
      match addr with
      | none =>
        close fd
        pure localhost
      | some addr =>
        close fd
        pure (inetNtop addr)
    else
      close fd
      pure localhost

/-- The registration, for paths that fit the array. -/
def registerMsg (ip : CString) (nmPort clientPort : Int32) (paths : List CString) : Message :=
  { Message.zero with
    operation := .registerSs
    ssIp := .ofBytes _ ip
    ssNmPort := nmPort
    ssClientPort := clientPort
    numAccessiblePaths := Int32.ofNat paths.length
    accessiblePaths := .ofFn fun i => .ofBytes _ (paths.getD i []) }

/-- One round of the loop; the client socket is left for the next round if the handler of the
naming server's connection does not come about. -/
def serveReady (nmSock clientSock : Fd) : ServerProg Unit := do
  let ready : Bool × Bool ← access (ServerAccess.select nmSock clientSock)
  if ready.1 then
    if ← acceptOn nmSock then
      if ready.2 then
        let _ ← acceptOn clientSock
        pure ()
      else pure ()
    else pure ()
  else if ready.2 then
    let _ ← acceptOn clientSock
    pure ()
  else pure ()

/-- Listen on both ports and serve. The first socket stays open if the second one fails. -/
def listenAndServe (nmPort clientPort : Int32) (rounds : ℕ) : ServerProg (Option ExitStatus) := do
  match ← openListening nmPort with
  | none =>
    destroyFileLocks
    pure (some .failure)
  | some nmSock =>
    match ← openListening clientPort with
    | none =>
      destroyFileLocks
      pure (some .failure)
    | some clientSock =>
      let _ ← (serveReady nmSock clientSock).iterate rounds
      pure none

def storageMain (argv : List CString) (rounds : ℕ) : ServerProg (Option ExitStatus) :=
  match argv with
  | _ :: nmIp :: nmPort :: clientPort :: ssNmPort :: path :: paths => do
    let ip ← getLocalIp
    initFileLocks
    let registration ← exchange (pure (nmIp, atoi nmPort)) (pure (registerMsg ip (atoi ssNmPort)
      (atoi clientPort) ((path :: paths).take maxAccessiblePaths)))
    if registration.Succeeded then listenAndServe (atoi ssNmPort) (atoi clientPort) rounds
    else
      destroyFileLocks
      pure (some .failure)
  | _ => do
    printUsage argv
    pure (some .failure)

/-- The two servers. -/
inductive Kind
  | naming
  | storage

def Kind.main : Kind → List CString → ℕ → ServerProg (Option ExitStatus)
  | naming => namingMain
  | storage => storageMain

/-- The number of sockets on which a server listens. -/
def Kind.listening : Kind → ℕ
  | naming => 1
  | storage => 2

/-! ### What a server owns -/

section Ownership

variable {fd : Fd} {fds : Finset Fd} {s : Owned}

abbrev owned : Protocol (Call.Response ServerAccess.Response) Owned :=
  ownership ServerAccess.Response none

theorem meets_openListening (port : Int32) :
    Meets owned (openListening port) (fun fd t => (fd = none → t = s) ∧
      ∀ n, fd = some n → n ∉ s.fds ∧ t = { s with fds := insert n s.fds }) s := by
  refine meets_bind.mpr (meets_createSocket ⟨fun _ => rfl, nofun⟩ fun fd hfresh => ?_)
  have hmem : fd ∈ insert fd s.fds := Finset.mem_insert_self fd s.fds
  have hclosed : Meets owned (close fd >>= fun _ => pure (none : Option Fd))
      (fun fd t => (fd = none → t = s) ∧
        ∀ n, fd = some n → n ∉ s.fds ∧ t = { s with fds := insert n s.fds })
      { s with fds := insert fd s.fds } := by
    refine meets_bind.mpr (meets_close hmem ⟨fun _ => ?_, nofun⟩)
    rw [Finset.erase_insert hfresh]
  refine ⟨hmem, fun bound _ => ?_⟩
  cases bound with
  | false => exact hclosed
  | true =>
      refine ⟨hmem, fun listening _ => ?_⟩
      cases listening with
      | false => exact hclosed
      | true =>
          refine ⟨nofun, fun n hn => ?_⟩
          obtain rfl := Option.some.inj hn
          exact ⟨hfresh, rfl⟩

theorem keepsOwned_getLocalIp : KeepsOwned none getLocalIp := by
  intro s _
  refine meets_bind.mpr (meets_createSocket rfl fun fd hfresh => ?_)
  have hmem : fd ∈ insert fd s.fds := Finset.mem_insert_self fd s.fds
  have hclosed : ∀ ip : CString, Meets owned (close fd >>= fun _ => pure ip) (fun _ t => t = s)
      { s with fds := insert fd s.fds } := by
    intro ip
    refine meets_bind.mpr (meets_close hmem ?_)
    rw [Finset.erase_insert hfresh]
    exact rfl
  refine ⟨hmem, fun connected _ => ?_⟩
  cases connected with
  | false => exact hclosed _
  | true =>
      refine ⟨hmem, fun addr _ => ?_⟩
      cases addr with
      | none => exact hclosed _
      | some addr => exact hclosed _

/-- Either nothing was misused, and the server owns these sockets; or a thread could not be created,
and the server has misused something. -/
def Sound (fds : Finset Fd) (t : Owned × Prop) : Prop :=
  (t.1 = .sockets fds ∧ ¬ t.2) ∨ (0 < t.1.failures ∧ t.2)

theorem failures_pos (s : Owned) (c : Call ServerAccess) (r : c.Response ServerAccess.Response)
    (h : 0 < s.failures) : 0 < (owned.after s c r).failures := by
  cases c with
  | createThread fd block =>
      simp only [ownership]
      split_ifs
      · exact h
      · exact Nat.succ_pos _
  | socket => cases r <;> exact h
  | accept fd => cases r <;> exact h
  | malloc => cases r <;> exact h
  | recv fd => cases r <;> exact h
  | _ => exact h

theorem after_createThread {block : Block} (code : Int32) (hfd : fd ∉ fds) :
    owned.after ⟨insert fd fds, {block}, .waiting, false, 0⟩ (.createThread fd block) code =
      if code = 0 then ⟨fds, ∅, .waiting, true, 0⟩
      else ⟨insert fd fds, {block}, .waiting, false, 1⟩ := by
  simp only [ownership]
  rw [Finset.erase_insert hfd, Finset.erase_singleton]

theorem meets_acceptOn (hfd : fd ∈ fds) {t : Owned × Prop} (ht : Sound fds t) :
    Meets owned.audit (acceptOn fd) (fun _ u => Sound fds u) t := by
  rcases ht with ⟨hfds, hflag⟩ | ⟨hfailures, hflag⟩
  · obtain ⟨_, v⟩ := t
    obtain rfl : _ = Owned.sockets fds := hfds
    have hup : ∀ {v p : Prop}, ¬ v → p → ¬ (v ∨ ¬ p) := fun hv hp =>
      not_or.mpr ⟨hv, not_not_intro hp⟩
    have hv := hup hflag trivial
    refine ⟨trivial, fun block hblock => ?_⟩
    cases block with
    | none => exact Or.inl ⟨rfl, hv⟩
    | some block =>
        have hmem : block ∈ ({block} : Finset Block) := Finset.mem_singleton_self block
        have hv := hup hv hfd
        refine ⟨trivial, fun conn hconn => ?_⟩
        cases conn with
        | none =>
            have hv := hup hv hmem
            refine ⟨trivial, fun _ _ => Or.inl ⟨?_, hv⟩⟩
            exact congrArg (fun blocks => { Owned.sockets fds with blocks := blocks })
              (Finset.erase_singleton block)
        | some conn =>
            have hfresh : conn ∉ fds := hconn conn rfl
            have hmem' := And.intro (Finset.mem_insert_self conn fds) hmem
            have hv := hup hv hmem'
            refine ⟨trivial, fun code hcode => ?_⟩
            have hstate : owned.after ⟨insert conn fds, {block}, .waiting, false, 0⟩
                (.createThread conn block) code = _ := after_createThread code hfresh
            replace hcode : ¬ Int32.toInt code < 0 := not_lt.mpr hcode
            change Meets owned.audit (if Int32.toInt code < 0 then _ else _) _
              (owned.after ⟨insert conn fds, {block}, .waiting, false, 0⟩ _ code, _)
            rw [if_neg hcode, hstate]
            split_ifs
            · exact ⟨trivial, fun _ _ => Or.inl ⟨rfl, hup hv rfl⟩⟩
            · exact ⟨trivial, fun _ _ => Or.inr ⟨Nat.one_pos, Or.inr nofun⟩⟩
  · exact (meets_audit_of_kept failures_pos _ hfailures hflag).mono fun _ _ => Or.inr

theorem meets_serveReady {nmSock clientSock : Fd} (hnm : nmSock ∈ fds) (hclient : clientSock ∈ fds)
    {t : Owned × Prop} (ht : Sound fds t) :
    Meets owned.audit (serveReady nmSock clientSock) (fun _ u => Sound fds u) t := by
  have hdrop : ∀ u, Sound fds u → Meets owned.audit (acceptOn clientSock >>= fun _ => pure ())
      (fun _ u => Sound fds u) u := fun u hu =>
    meets_bind.mpr ((meets_acceptOn hclient hu).mono fun _ _ h => h)
  refine meets_perform_bind.mpr ⟨trivial, fun ready _ => ?_⟩
  have hsound : Sound fds (owned.audit.after t (.access (.select nmSock clientSock)) ready) :=
    ht.imp (And.imp_right fun hflag => not_or.mpr ⟨hflag, not_not_intro trivial⟩)
      (And.imp_right Or.inl)
  obtain ⟨nmReady, clientReady⟩ : Bool × Bool := ready
  cases nmReady with
  | true =>
      refine meets_bind.mpr ((meets_acceptOn hnm hsound).mono fun started u hu => ?_)
      cases started with
      | false => exact hu
      | true =>
          cases clientReady with
          | false => exact hu
          | true => exact hdrop u hu
  | false =>
      cases clientReady with
      | false => exact hsound
      | true => exact hdrop _ hsound

/-- What is left of a server: its listening sockets while it runs, fewer once it has given up. -/
def Left (kind : Kind) (status : Option ExitStatus) (t : Owned × Prop) : Prop :=
  ∃ fds, Sound fds t ∧ (status = none → fds.card = kind.listening) ∧
    (status ≠ none → fds.card < kind.listening)

theorem meets_namingMain (argv : List CString) (rounds : ℕ) :
    Meets owned.audit (namingMain argv rounds) (Left .naming) (.sockets ∅, False) := by
  have hgiveUp : Left .naming (some .failure) (.sockets ∅, False) :=
    ⟨∅, Or.inl ⟨rfl, not_false⟩, nofun, fun _ => Nat.one_pos⟩
  unfold namingMain
  split
  · refine meets_bind.mpr ((meets_openListening _).audit.mono ?_)
    rintro fd ⟨_, v⟩ ⟨⟨hnone, hsome⟩, hflag⟩
    obtain rfl : v = False := hflag
    cases fd with
    | none =>
        obtain rfl := hnone rfl
        exact hgiveUp
    | some fd =>
        obtain ⟨-, rfl⟩ := hsome fd rfl
        have hsound : Sound {fd} (owned.audit.after (.sockets {fd}, False)
            (.access .initState) ()) := Or.inl ⟨rfl, not_or.mpr ⟨not_false, not_not_intro trivial⟩⟩
        refine meets_perform_bind.mpr ⟨trivial, fun _ _ => meets_bind.mpr ((meets_iterate
          (fun u hu => meets_acceptOn (Finset.mem_singleton_self fd) hu) rounds hsound).mono
          fun _ u hu => ?_)⟩
        exact ⟨{fd}, hu, fun _ => Finset.card_singleton fd, fun h => absurd rfl h⟩
  · exact ⟨trivial, fun _ _ => ⟨∅, Or.inl ⟨rfl, not_or.mpr ⟨not_false, not_not_intro trivial⟩⟩,
      nofun, fun _ => Nat.one_pos⟩⟩

/-- A storage server that gives up, with a socket left open at most. -/
theorem meets_giveUp (hfds : fds.card < 2) :
    Meets owned.audit (destroyFileLocks >>= fun _ => pure (some ExitStatus.failure))
      (Left .storage) (.sockets fds, False) :=
  ⟨trivial, fun _ _ => ⟨fds, Or.inl ⟨rfl, not_or.mpr ⟨not_false, not_not_intro trivial⟩⟩, nofun,
    fun _ => hfds⟩⟩

theorem meets_listenAndServe (nmPort clientPort : Int32) (rounds : ℕ) :
    Meets owned.audit (listenAndServe nmPort clientPort rounds) (Left .storage)
      (.sockets ∅, False) := by
  refine meets_bind.mpr ((meets_openListening _).audit.mono ?_)
  rintro nmSock ⟨_, v⟩ ⟨⟨hnone, hsome⟩, hflag⟩
  obtain rfl : v = False := hflag
  cases nmSock with
  | none =>
      obtain rfl := hnone rfl
      exact meets_giveUp (by decide)
  | some nmSock =>
      obtain ⟨-, rfl⟩ := hsome nmSock rfl
      refine meets_bind.mpr ((meets_openListening _).audit.mono ?_)
      rintro clientSock ⟨_, v⟩ ⟨⟨hnone, hsome⟩, hflag⟩
      obtain rfl : v = False := hflag
      cases clientSock with
      | none =>
          obtain rfl := hnone rfl
          have hcard : ({nmSock} : Finset Fd).card < 2 := by simp
          exact meets_giveUp hcard
      | some clientSock =>
          obtain ⟨hne, rfl⟩ := hsome clientSock rfl
          replace hne : clientSock ∉ ({nmSock} : Finset Fd) := hne
          have hsound : Sound {clientSock, nmSock} (Owned.sockets {clientSock, nmSock}, False) :=
            Or.inl ⟨rfl, not_false⟩
          refine meets_bind.mpr ((meets_iterate (fun u hu => meets_serveReady
            (Finset.mem_insert_of_mem (Finset.mem_singleton_self nmSock))
            (Finset.mem_insert_self clientSock _) hu) rounds hsound).mono fun _ u hu => ?_)
          exact ⟨_, hu, fun _ => Finset.card_pair fun h => hne (Finset.mem_singleton.mpr h),
            fun h => absurd rfl h⟩

theorem meets_storageMain (argv : List CString) (rounds : ℕ) :
    Meets owned.audit (storageMain argv rounds) (Left .storage) (.sockets ∅, False) := by
  unfold storageMain
  split
  · refine meets_bind.mpr ((keepsOwned_getLocalIp _ nofun).audit.mono ?_)
    rintro ip ⟨_, v⟩ ⟨rfl, hflag⟩
    obtain rfl : v = False := hflag
    have hinit : KeepsOwned none initFileLocks := keepsOwned_access ServerAccess.initFileLocks
    refine meets_bind.mpr ((hinit _ nofun).audit.mono ?_)
    rintro _ ⟨_, v⟩ ⟨rfl, hflag⟩
    obtain rfl : v = False := hflag
    have hregister : ∀ address msg, KeepsOwned none
        (exchange (A := ServerAccess.Response) (pure address) (pure msg)) := fun address msg =>
      keepsOwned_exchange (keeps_pure address) (keeps_pure msg)
    refine meets_bind.mpr ((hregister _ _ _ nofun).audit.mono ?_)
    rintro registration ⟨_, v⟩ ⟨rfl, hflag⟩
    obtain rfl : v = False := hflag
    split_ifs
    · exact meets_listenAndServe _ _ rounds
    · exact meets_giveUp (by decide)
  · exact ⟨trivial, fun _ _ => ⟨∅, Or.inl ⟨rfl, not_or.mpr ⟨not_false, not_not_intro trivial⟩⟩,
      nofun, fun _ => Nat.two_pos⟩⟩

/-- In every run of a server, for any number of rounds of its loop, it uses only what it owns
exactly if every thread could be created. Then it owns its listening sockets and nothing else while
it runs, and fewer sockets when it has given up. -/
theorem server_owned_iff {kind : Kind} {argv : List CString} {rounds : ℕ}
    {tr : List (Sigma (Call.Response ServerAccess.Response))} {status : Option ExitStatus}
    (htr : Trace (kind.main argv rounds) tr (pure status))
    (hresponds : owned.Responds (.sockets ∅) tr) :
    (owned.Allows (.sockets ∅) tr ↔ (owned.final (.sockets ∅) tr).failures = 0) ∧
      (owned.Allows (.sockets ∅) tr → ∃ fds, owned.final (.sockets ∅) tr = .sockets fds ∧
        (status = none → fds.card = kind.listening) ∧
        (status ≠ none → fds.card < kind.listening)) := by
  have hmeets : Meets owned.audit (kind.main argv rounds) (Left kind) (.sockets ∅, False) := by
    cases kind with
    | naming => exact meets_namingMain argv rounds
    | storage => exact meets_storageMain argv rounds
  obtain ⟨-, fds, hsound, hleft⟩ := hmeets.of_trace htr (responds_audit _ _ hresponds)
  rw [final_audit, Sound, false_or, not_not] at hsound
  rcases hsound with ⟨hfds, hallows⟩ | ⟨hfailures, hallows⟩
  · refine ⟨iff_of_true hallows ?_, fun _ => ⟨fds, hfds, hleft⟩⟩
    rw [show (owned.final (.sockets ∅) tr) = .sockets fds from hfds]
    rfl
  · exact ⟨iff_of_false hallows hfailures.ne', fun h => absurd h hallows⟩

/-- Every call succeeds; the host is 10.0.0.5. -/
def accepting (_ : ℕ) : (c : Call ServerAccess) → c.Response ServerAccess.Response
  | .socket => some (3 : ℕ)
  | .accept _ => some (4 : ℕ)
  | .malloc => some (0 : ℕ)
  | .connect _ _ _ | .bind _ _ | .listen _ | .send _ _ => true
  | .recv _ => some Message.ack
  | .getsockname _ => some (⟨[10, 0, 0, 5], rfl⟩ : InAddr)
  | .createThread _ _ => (0 : Int32)
  | .access (.select _ _) => (true, true)
  | .close _ | .free _ | .detach | .access (.printUsage _) | .access .initState
  | .access .initFileLocks | .access .destroyFileLocks => ()

/-- A naming server that has started two handlers. -/
def twoHandlers : List (Sigma (Call.Response ServerAccess.Response)) × Option ExitStatus :=
  (namingMain [[110], [57]] 2).play accepting 0

theorem server_owned_iff_twoHandlers : owned.Allows (.sockets ∅) twoHandlers.1 := by
  have hstatus : twoHandlers.2 = none := by decide +kernel
  have htr : Trace (Kind.naming.main [[110], [57]] 2) twoHandlers.1 (pure none) :=
    hstatus ▸ trace_play accepting 0 (namingMain [[110], [57]] 2)
  exact (server_owned_iff htr (by decide +kernel)).1.mpr (by decide +kernel)

end Ownership

end Server

end Sockets
end NetworkFileSystem
