import NetworkFileSystem.Library.Interaction
import NetworkFileSystem.InternetAddress
import NetworkFileSystem.NamingServer
import Mathlib.Data.Finset.Basic

/-!
# Sockets

The system calls of the programs, the functions of `utils.c` that make them, and what a thread
must keep to: it uses a descriptor or a block of memory that it owns, gives each back once, and
receives one request on its connection before it sends one reply.
-/

namespace NetworkFileSystem

open Interaction

inductive ExitStatus
  | success
  | failure
  deriving DecidableEq

namespace Sockets

abbrev Fd := ℕ

abbrev Block := ℕ

/-- System calls, and accesses of other kinds that differ from program to program. -/
inductive Call (X : Type)
  | socket
  | connect (fd : Fd) (addr : InAddr) (port : InPort)
  | bind (fd : Fd) (port : InPort)
  | listen (fd : Fd)
  | accept (fd : Fd)
  | getsockname (fd : Fd)
  | send (fd : Fd) (msg : Message)
  | recv (fd : Fd)
  | close (fd : Fd)
  | malloc
  | free (block : Block)
  /-- Start a handler thread; the block holds the descriptor of its connection. -/
  | createThread (fd : Fd) (block : Block)
  /-- Detach the thread that was created last. -/
  | detach
  | access (x : X)

/-- The results of system calls; `send` and `recv` count as successful for any number of bytes. -/
def Call.Response {X : Type} (A : X → Type) : Call X → Type
  | socket | accept _ => Option Fd
  | connect _ _ _ | bind _ _ | listen _ | send _ _ => Bool
  | getsockname _ => Option InAddr
  | recv _ => Option Message
  | close _ | free _ | detach => Unit
  | malloc => Option Block
  | createThread _ _ => Int32
  | access x => A x

abbrev Prog {X : Type} (A : X → Type) (α : Type) := Program (Call.Response A) α

section

variable {X : Type} {A : X → Type}

def call (c : Call X) : Prog A (c.Response A) := .perform c

def access (x : X) : Prog A (A x) := call (.access x)

/-! ### The functions of `utils.c` -/

def createSocket : Prog A (Option Fd) := call .socket

/-- Bind to the port at every address of the host. -/
def bindSocket (fd : Fd) (port : Int32) : Prog A Bool := call (.bind fd (htons port))

def listenSocket (fd : Fd) : Prog A Bool := call (.listen fd)

def acceptConnection (fd : Fd) : Prog A (Option Fd) := call (.accept fd)

def connectToServer (fd : Fd) (ip : CString) (port : Int32) : Prog A Bool :=
  match inetPton ip with
  | none => pure false
  | some addr => call (.connect fd addr (htons port))

def sendMessage (fd : Fd) (msg : Message) : Prog A Bool := call (.send fd msg)

/-- The message that is there after a call that reports success. -/
def receiveMessage (fd : Fd) : Prog A (Option Message) := call (.recv fd)

def close (fd : Fd) : Prog A Unit := call (.close fd)

def free (block : Block) : Prog A Unit := call (.free block)

/-- Connect to a server, send a request and receive the reply; the socket is closed in any case. -/
def exchange (address : Prog A (CString × Int32)) (request : Prog A Message) :
    Prog A Exchange := do
  match ← createSocket with
  | none => pure .socketFailed
  | some fd =>
    let (ip, port) ← address
    if ← connectToServer fd ip port then
      let request ← request
      if ← sendMessage fd request then
        match ← receiveMessage fd with
        | none =>
          close fd
          pure .receiveFailed
        | some response =>
          close fd
          pure (.replied response)
      else
        close fd
        pure .sendFailed
    else
      close fd
      pure .connectFailed

/-- A handler thread: receive a request, reply to it, and close the connection. -/
def serveConnection (dispatch : Message → Prog A Message) (fd : Fd) (block : Block) :
    Prog A Unit := do
  free block
  match ← receiveMessage fd with
  | none => close fd
  | some msg =>
    let reply ← dispatch msg
    let _ ← sendMessage fd reply
    close fd

end

/-- What holds while the socket is open, for each call of an exchange. -/
theorem meets_exchange {X σ : Type} {A : X → Type} {P : Protocol (Call.Response A) σ}
    {address : Prog A (CString × Int32)} {request : Prog A Message} {I : Fd → σ → Prop}
    {J : CString × Int32 → Prop} {K : Message → Prop} {Q : Exchange → σ → Prop} {s : σ}
    (hsocket : Meets P createSocket
      (fun fd t => (fd = none → Q .socketFailed t) ∧ ∀ n, fd = some n → I n t) s)
    (haddress : ∀ fd t, I fd t → Meets P address (fun a t => J a ∧ I fd t) t)
    (hconnect : ∀ fd a t, J a → I fd t →
      Meets P (connectToServer fd a.1 a.2) (fun _ t => I fd t) t)
    (hrequest : ∀ fd t, I fd t → Meets P request (fun m t => K m ∧ I fd t) t)
    (hsend : ∀ fd m t, K m → I fd t → Meets P (sendMessage fd m) (fun _ t => I fd t) t)
    (hreceive : ∀ fd t, I fd t → Meets P (receiveMessage fd)
      (fun m t => (m = none → Meets P (close fd) (fun _ t => Q .receiveFailed t) t) ∧
        ∀ n, m = some n → Meets P (close fd) (fun _ t => Q (.replied n) t) t) t)
    (hclose : ∀ fd t, I fd t →
      Meets P (close fd) (fun _ t => Q .connectFailed t ∧ Q .sendFailed t) t) :
    Meets P (exchange address request) Q s := by
  refine meets_bind.mpr (hsocket.mono ?_)
  rintro fd t ⟨hnone, hsome⟩
  cases fd with
  | none => exact hnone rfl
  | some fd =>
      refine meets_bind.mpr ((haddress fd t (hsome fd rfl)).mono ?_)
      rintro a t ⟨ha, ht⟩
      refine meets_bind.mpr ((hconnect fd a t ha ht).mono ?_)
      intro connected t ht
      cases connected with
      | false => exact meets_bind.mpr ((hclose fd t ht).mono fun _ _ h => h.1)
      | true =>
          refine meets_bind.mpr ((hrequest fd t ht).mono ?_)
          rintro m t ⟨hm, ht⟩
          refine meets_bind.mpr ((hsend fd m t hm ht).mono ?_)
          intro sent t ht
          cases sent with
          | false => exact meets_bind.mpr ((hclose fd t ht).mono fun _ _ h => h.2)
          | true =>
              refine meets_bind.mpr ((hreceive fd t ht).mono ?_)
              rintro response t ⟨hnone, hsome⟩
              cases response with
              | none => exact meets_bind.mpr ((hnone rfl).mono fun _ _ h => h)
              | some response =>
                  exact meets_bind.mpr ((hsome response rfl).mono fun _ _ h => h)

/-! ### What a thread owns -/

/-- How far a handler is with the request on its connection. -/
inductive Stage
  | waiting
  | received
  | replied

structure Owned where
  fds : Finset Fd
  blocks : Finset Block
  stage : Stage
  /-- A thread was created and not yet detached. -/
  thread : Bool
  /-- So many threads could not be created. -/
  failures : ℕ

/-- A thread, which may serve a connection, only uses what it owns. The operating system gives it
descriptors and blocks that it does not have. -/
def ownership {X : Type} (A : X → Type) (conn : Option Fd) :
    Protocol (Call.Response A) Owned where
  allowed s
    | .connect fd _ _ | .bind fd _ | .listen fd | .accept fd | .getsockname fd | .close fd =>
      fd ∈ s.fds
    | .send fd _ => fd ∈ s.fds ∧ (fd ∈ conn → s.stage = .received)
    | .recv fd => fd ∈ s.fds ∧ (fd ∈ conn → s.stage = .waiting)
    | .free block => block ∈ s.blocks
    | .createThread fd block => fd ∈ s.fds ∧ block ∈ s.blocks
    | .detach => s.thread = true
    | .socket | .malloc | .access _ => True
  responds s
    | .socket, fd | .accept _, fd => ∀ n, fd = some n → n ∉ s.fds
    | .malloc, block => ∀ n, block = some n → n ∉ s.blocks
    -- zero, or the number of an error
    | .createThread _ _, (code : Int32) => 0 ≤ code.toInt
    | _, _ => True
  after s
    | .socket, some fd | .accept _, some fd => { s with fds := insert fd s.fds }
    | .close fd, _ => { s with fds := s.fds.erase fd }
    | .malloc, some block => { s with blocks := insert block s.blocks }
    | .free block, _ => { s with blocks := s.blocks.erase block }
    | .recv fd, some _ => if fd ∈ conn then { s with stage := .received } else s
    | .send fd _, _ => if fd ∈ conn then { s with stage := .replied } else s
    -- the new thread owns the connection and the block
    | .createThread fd block, (code : Int32) =>
      if code = 0 then
        { s with fds := s.fds.erase fd, blocks := s.blocks.erase block, thread := true }
      else { s with failures := s.failures + 1 }
    | .detach, _ => { s with thread := false }
    | _, _ => s

/-- The system gives a descriptor or a block that is not among those in use. -/
instance decidableFresh (used : Finset ℕ) (given : Option ℕ) :
    Decidable (∀ n, given = some n → n ∉ used) :=
  match given with
  | none => isTrue nofun
  | some n => decidable_of_iff (n ∉ used) (by simp)

instance {X : Type} (A : X → Type) (conn : Option Fd) :
    (s : Owned) → (c : Call X) → (r : c.Response A) →
      Decidable ((ownership A conn).responds s c r)
  | s, .socket, fd | s, .accept _, fd => decidableFresh s.fds fd
  | s, .malloc, block => decidableFresh s.blocks block
  | _, .createThread _ _, code => inferInstanceAs (Decidable (0 ≤ Int32.toInt code))
  | _, .connect _ _ _, _ | _, .bind _ _, _ | _, .listen _, _ | _, .getsockname _, _
  | _, .send _ _, _ | _, .recv _, _ | _, .close _, _ | _, .free _, _ | _, .detach, _
  | _, .access _, _ => isTrue trivial

section Ownership

variable {X : Type} {A : X → Type} {conn : Option Fd} {fd : Fd} {s : Owned}

theorem meets_createSocket {Q : Option Fd → Owned → Prop} (hnone : Q none s)
    (hsome : ∀ fd, fd ∉ s.fds → Q (some fd) { s with fds := insert fd s.fds }) :
    Meets (ownership A conn) createSocket Q s :=
  ⟨trivial, fun r hr => match r, hr with
    | none, _ => hnone
    | some fd, hr => hsome fd (hr fd rfl)⟩

theorem meets_connectToServer {Q : Bool → Owned → Prop} {ip : CString} {port : Int32}
    (hfd : fd ∈ s.fds) (hQ : ∀ b, Q b s) :
    Meets (ownership A conn) (connectToServer fd ip port) Q s := by
  unfold connectToServer
  split
  · exact hQ false
  · exact ⟨hfd, fun b _ => hQ b⟩

theorem meets_sendMessage {Q : Bool → Owned → Prop} {msg : Message} (hfd : fd ∈ s.fds)
    (hne : fd ∉ conn) (hQ : ∀ b, Q b s) :
    Meets (ownership A conn) (sendMessage fd msg) Q s := by
  refine ⟨⟨hfd, fun h => absurd h hne⟩, fun b _ => ?_⟩
  have hafter : (ownership A conn).after s (.send fd msg) b = s := if_neg hne
  rw [hafter]
  exact hQ b

theorem meets_receiveMessage {Q : Option Message → Owned → Prop} (hfd : fd ∈ s.fds)
    (hne : fd ∉ conn) (hQ : ∀ msg, Q msg s) :
    Meets (ownership A conn) (receiveMessage fd) Q s := by
  refine ⟨⟨hfd, fun h => absurd h hne⟩, fun r _ => ?_⟩
  cases r with
  | none => exact hQ none
  | some msg =>
      have hafter : (ownership A conn).after s (.recv fd) (some msg) = s := if_neg hne
      rw [hafter]
      exact hQ (some msg)

theorem meets_close {Q : Unit → Owned → Prop} (hfd : fd ∈ s.fds)
    (hQ : Q () { s with fds := s.fds.erase fd }) :
    Meets (ownership A conn) (close fd) Q s :=
  ⟨hfd, fun _ _ => hQ⟩

/-- The program leaves what the thread owns as it is, while the connection is open. -/
abbrev KeepsOwned (conn : Option Fd) {α : Type} (p : Prog A α) : Prop :=
  Keeps (ownership A conn) (fun s => ∀ fd ∈ conn, fd ∈ s.fds) p

theorem keepsOwned_access (x : X) : KeepsOwned conn (access (A := A) x) :=
  fun _ _ => ⟨trivial, fun _ _ => rfl⟩

/-- A socket that is opened, used and closed leaves nothing behind. -/
theorem keepsOwned_exchange {address : Prog A (CString × Int32)} {request : Prog A Message}
    (haddress : KeepsOwned conn address) (hrequest : KeepsOwned conn request) :
    KeepsOwned conn (exchange address request) := by
  intro s hconn
  have hclose : ∀ fd t, (fd ∉ s.fds ∧ t = { s with fds := insert fd s.fds }) →
      Meets (ownership A conn) (close fd) (fun _ t => t = s) t := by
    rintro fd _ ⟨hfresh, rfl⟩
    refine meets_close (Finset.mem_insert_self fd s.fds) ?_
    rw [Finset.erase_insert hfresh]
  have hopen : ∀ fd, fd ∉ s.fds → fd ∉ conn := fun fd hfresh h => hfresh (hconn fd h)
  have hinsert : ∀ fd, ∀ n ∈ conn, n ∈ insert fd s.fds := fun fd n hn =>
    Finset.mem_insert_of_mem (hconn n hn)
  refine meets_exchange (I := fun fd t => fd ∉ s.fds ∧ t = { s with fds := insert fd s.fds })
    (J := fun _ => True) (K := fun _ => True)
    (meets_createSocket ⟨fun _ => rfl, nofun⟩ fun fd hfresh => ⟨nofun, ?_⟩) ?_ ?_ ?_ ?_ ?_ ?_
  · intro n hn
    obtain rfl := Option.some.inj hn
    exact ⟨hfresh, rfl⟩
  · rintro fd _ ⟨hfresh, rfl⟩
    exact (haddress _ (hinsert fd)).mono fun _ _ ht => ⟨trivial, hfresh, ht⟩
  · rintro fd a _ - ⟨hfresh, rfl⟩
    exact meets_connectToServer (Finset.mem_insert_self fd s.fds) fun _ => ⟨hfresh, rfl⟩
  · rintro fd _ ⟨hfresh, rfl⟩
    exact (hrequest _ (hinsert fd)).mono fun _ _ ht => ⟨trivial, hfresh, ht⟩
  · rintro fd m _ - ⟨hfresh, rfl⟩
    exact meets_sendMessage (Finset.mem_insert_self fd s.fds) (hopen fd hfresh)
      fun _ => ⟨hfresh, rfl⟩
  · rintro fd _ ⟨hfresh, rfl⟩
    exact meets_receiveMessage (Finset.mem_insert_self fd s.fds) (hopen fd hfresh)
      fun _ => ⟨fun _ => hclose fd _ ⟨hfresh, rfl⟩, fun _ _ => hclose fd _ ⟨hfresh, rfl⟩⟩
  · exact fun fd t ht => (hclose fd t ht).mono fun _ _ h => ⟨h, h⟩

/-- What is left when a handler is done: nothing, and no request without its reply. -/
def Owned.Done (s : Owned) : Prop := s.fds = ∅ ∧ s.blocks = ∅ ∧ s.stage ≠ .received

/-- A handler starts with its connection and the block that names it. -/
def Owned.start (conn : Fd) (block : Block) : Owned := ⟨{conn}, {block}, .waiting, false, 0⟩

/-- A program that owns these descriptors and nothing else. -/
def Owned.sockets (fds : Finset Fd) : Owned := ⟨fds, ∅, .waiting, false, 0⟩

theorem meets_serveConnection {conn : Fd} {dispatch : Message → Prog A Message} {block : Block}
    (hdispatch : ∀ msg, KeepsOwned (some conn) (dispatch msg)) :
    Meets (ownership A (some conn)) (serveConnection dispatch conn block) (fun _ t => t.Done)
      (.start conn block) := by
  have hmem : conn ∈ ({conn} : Finset Fd) := Finset.mem_singleton_self conn
  have hempty : ({conn} : Finset Fd).erase conn = ∅ := by simp
  have hblocks : ({block} : Finset Block).erase block = ∅ := by simp
  refine ⟨Finset.mem_singleton_self block, fun _ _ => ⟨⟨hmem, fun _ => rfl⟩, fun msg _ => ?_⟩⟩
  cases msg with
  | none => exact meets_close hmem ⟨hempty, hblocks, by simp [ownership, Owned.start]⟩
  | some msg =>
      have hafter : ∀ t : Owned, (ownership A (some conn)).after t (.recv conn) (some msg) =
          { t with stage := .received } := fun _ => if_pos rfl
      rw [hafter]
      have hopen : ∀ fd ∈ some conn, fd ∈ ({conn} : Finset Fd) := fun fd hfd =>
        Finset.mem_singleton.mpr (Option.mem_some.mp hfd).symm
      refine (hdispatch msg).meets_bind hopen fun reply => ?_
      refine ⟨⟨hmem, fun _ => rfl⟩, fun sent _ => ?_⟩
      have hsent : ∀ t : Owned, (ownership A (some conn)).after t (.send conn reply) sent =
          { t with stage := .replied } := fun _ => if_pos rfl
      rw [hsent]
      exact meets_close hmem ⟨hempty, hblocks, by simp⟩

end Ownership

end Sockets
end NetworkFileSystem
