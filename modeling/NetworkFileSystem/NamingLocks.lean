import NetworkFileSystem.Library.Linearizability
import NetworkFileSystem.Library.RwLock
import NetworkFileSystem.TrieHeap
import NetworkFileSystem.NamingServer

/-!
# The locks of the naming server

The threads of `handle_connection` at the level of their locks: `ss_list_mutex`, the mutex of the
lookup cache and the read-write lock of each node of the trie. A thread runs a script, the sequence
of its accesses to shared state on one way through the source. It takes a lock, visits a node under
it and reads the child pointer again after the unlock, each in a step of its own.
-/

namespace NetworkFileSystem

open Locks

inductive Instr (α : Type)
  | lockList
  | unlockList
  | lockCache
  | unlockCache
  /-- `trie_insert`, `trie_search` or `trie_delete`. -/
  | trie (op : TrieOp α)
  /-- `trie_collect_paths`, with the contents of the uninitialized path buffer. -/
  | collect (buffer : ℕ → UInt8)
  /-- Connect to a storage server, send the request and wait for the reply. -/
  | exchange

/-- A node on the way of `_trie_collect_paths_recursive`, with the next child to look at. -/
structure Frame where
  node : ℕ
  next : ℕ

inductive LockThread (α : Type)
  | idle
  | running (script : List (Instr α))
  /-- Waits for the lock of the node. -/
  | locking (op : TrieOp α) (node : ℕ) (rest : Path) (script : List (Instr α))
  /-- Has the lock of the node. -/
  | visiting (op : TrieOp α) (node : ℕ) (rest : Path) (script : List (Instr α))
  /-- Saw a child under the lock, and reads the pointer again. -/
  | reading (op : TrieOp α) (node : ℕ) (c : UInt8) (rest : Path) (seen : ℕ)
    (script : List (Instr α))
  | returning (op : TrieOp α) (result : Option α) (script : List (Instr α))
  /-- Waits for the lock of the node, with those of its ancestors. -/
  | entering (node : ℕ) (frames : List Frame) (acc : PathCollection) (script : List (Instr α))
  /-- In the loop over the children of the first frame. -/
  | scanning (frames : List Frame) (acc : PathCollection) (script : List (Instr α))
  /-- Followed a null pointer. -/
  | crashed

structure LockState (α : Type) where
  heap : TrieHeap α
  nodeLocks : ℕ → RwLock
  ssListMutex : Option ℕ
  cacheMutex : Option ℕ

inductive TrieEvent (α : Type)
  /-- An operation acts with its last visit. -/
  | call (e : Linearizability.Event (TrieOp α) (Option α))
  /-- A child pointer was seen under the lock, and found again without it. -/
  | reread (seen : ℕ) (found : Option ℕ)
  | collected (paths : List Path)

inductive LockAction (α : Type)
  | start (script : List (Instr α))
  | step

variable {α : Type}

/-- Searches lock for reading. -/
def TrieOp.mode : TrieOp α → Mode
  | .search _ => .read
  | _ => .write

namespace LockState

/-- An empty trie, and all locks free. -/
def init : LockState α := ⟨.init, fun _ => .free, none, none⟩

def lockNode (sh : LockState α) (n r : ℕ) (m : Mode) : LockState α :=
  { sh with nodeLocks := Function.update sh.nodeLocks n ((sh.nodeLocks n).acquire r m) }

def unlockNode (sh : LockState α) (n r : ℕ) (m : Mode) : LockState α :=
  { sh with nodeLocks := Function.update sh.nodeLocks n ((sh.nodeLocks n).release r m) }

end LockState

abbrev LockOutcome (α : Type) := Option (LockState α × LockThread α × List (TrieEvent α))

section Steps

variable (r : ℕ) (sh : LockState α)

def instrStep (script : List (Instr α)) : Instr α → LockOutcome α
  | .lockList =>
    if sh.ssListMutex = none then some ({ sh with ssListMutex := some r }, .running script, [])
    else none
  | .unlockList => some ({ sh with ssListMutex := none }, .running script, [])
  | .lockCache =>
    if sh.cacheMutex = none then some ({ sh with cacheMutex := some r }, .running script, [])
    else none
  | .unlockCache => some ({ sh with cacheMutex := none }, .running script, [])
  | .trie op => some (sh, .locking op TrieHeap.root op.path script, [.call (.invoked op)])
  | .collect buffer => some (sh, .entering TrieHeap.root [] ⟨buffer, []⟩ script, [])
  | .exchange => some (sh, .running script, [])

/-- The visit, and the unlock. -/
def visitStep (op : TrieOp α) (n : ℕ) (rest : Path) (script : List (Instr α)) : LockOutcome α :=
  let (heap, visit) := sh.heap.visit op n rest
  let sh := { sh with heap := heap }.unlockNode n r op.mode
  match visit with
  | .returns result => some (sh, .returning op result script, [.call (.acted op result)])
  | .goesOn c seen => some (sh, .reading op n c rest.tail seen script, [])

/-- Look at the next child of the node, or unlock the node after the last one. -/
def scanStep (frame : Frame) (frames : List Frame) (acc : PathCollection)
    (script : List (Instr α)) : LockOutcome α :=
  if frame.next < 256 then
    let c := UInt8.ofNat frame.next
    let frames' := { frame with next := frame.next + 1 } :: frames
    match (sh.heap.cells frame.node).children c with
    | some child =>
      let buffer := Function.update acc.currentPath frames.length c
      some (sh, .entering child frames' { acc with currentPath := buffer } script, [])
    | none => some (sh, .scanning frames' acc script, [])
  else
    let sh := sh.unlockNode frame.node r .read
    match frames with
    | [] => some (sh, .running script, [.collected acc.paths])
    | _ => some (sh, .scanning frames acc script, [])

def threadStep : LockThread α → LockOutcome α
  | .running (instr :: script) => instrStep r sh script instr
  | .locking op n rest script =>
    if (sh.nodeLocks n).Grantable op.mode then
      some (sh.lockNode n r op.mode, .visiting op n rest script, [])
    else none
  | .visiting op n rest script => visitStep r sh op n rest script
  | .reading op n c rest seen script =>
    match (sh.heap.cells n).children c with
    | some m => some (sh, .locking op m rest script, [.reread seen (some m)])
    | none => some (sh, .crashed, [.reread seen none])
  | .returning op result script => some (sh, .running script, [.call (.returned op result)])
  | .entering n frames acc script =>
    if (sh.nodeLocks n).Grantable .read then
      some (sh.lockNode n r .read,
        .scanning (⟨n, 0⟩ :: frames)
          (TrieNode.storePath (sh.heap.cells n).ssInfo frames.length acc) script, [])
    else none
  | .scanning (frame :: frames) acc script => scanStep r sh frame frames acc script
  | _ => none

end Steps

def lockProcess : Interleaving.Process (LockState α) (LockThread α) (LockAction α) (TrieEvent α) :=
  fun r sh t action =>
    match action, t with
    | .start script, .idle => some (sh, .running script, [])
    | .start _, _ => none
    | .step, t => threadStep r sh t

abbrev LockWorld (α : Type) := Interleaving.World (LockState α) (LockThread α) (TrieEvent α)

def lockStep : LockWorld α → ℕ × LockAction α → Option (LockWorld α) :=
  Interleaving.step lockProcess

abbrev lockStart : LockWorld α := .start .init .idle

/-- The steps of a thread, one by one. -/
inductive ThreadStep (r : ℕ) (sh : LockState α) :
    LockThread α → LockState α → LockThread α → List (TrieEvent α) → Prop
  | lockList {script} (h : sh.ssListMutex = none) :
    ThreadStep r sh (.running (.lockList :: script)) { sh with ssListMutex := some r }
      (.running script) []
  | unlockList {script} :
    ThreadStep r sh (.running (.unlockList :: script)) { sh with ssListMutex := none }
      (.running script) []
  | lockCache {script} (h : sh.cacheMutex = none) :
    ThreadStep r sh (.running (.lockCache :: script)) { sh with cacheMutex := some r }
      (.running script) []
  | unlockCache {script} :
    ThreadStep r sh (.running (.unlockCache :: script)) { sh with cacheMutex := none }
      (.running script) []
  | invoke {op script} :
    ThreadStep r sh (.running (.trie op :: script)) sh (.locking op TrieHeap.root op.path script)
      [.call (.invoked op)]
  | collect {buffer script} :
    ThreadStep r sh (.running (.collect buffer :: script)) sh
      (.entering TrieHeap.root [] ⟨buffer, []⟩ script) []
  | exchange {script} : ThreadStep r sh (.running (.exchange :: script)) sh (.running script) []
  | lock {op n rest script} (h : (sh.nodeLocks n).Grantable op.mode) :
    ThreadStep r sh (.locking op n rest script) (sh.lockNode n r op.mode)
      (.visiting op n rest script) []
  | act {op n rest script heap result}
    (h : sh.heap.visit op n rest = (heap, .returns result)) :
    ThreadStep r sh (.visiting op n rest script)
      ({ sh with heap := heap }.unlockNode n r op.mode) (.returning op result script)
      [.call (.acted op result)]
  | goOn {op n rest script heap c seen} (h : sh.heap.visit op n rest = (heap, .goesOn c seen)) :
    ThreadStep r sh (.visiting op n rest script)
      ({ sh with heap := heap }.unlockNode n r op.mode)
      (.reading op n c rest.tail seen script) []
  | reread {op n c rest seen m script} (h : (sh.heap.cells n).children c = some m) :
    ThreadStep r sh (.reading op n c rest seen script) sh (.locking op m rest script)
      [.reread seen (some m)]
  | crash {op n c rest seen script} (h : (sh.heap.cells n).children c = none) :
    ThreadStep r sh (.reading op n c rest seen script) sh .crashed [.reread seen none]
  | ret {op result script} :
    ThreadStep r sh (.returning op result script) sh (.running script)
      [.call (.returned op result)]
  | enter {n frames acc script} (h : (sh.nodeLocks n).Grantable .read) :
    ThreadStep r sh (.entering n frames acc script) (sh.lockNode n r .read)
      (.scanning (⟨n, 0⟩ :: frames)
        (TrieNode.storePath (sh.heap.cells n).ssInfo frames.length acc) script) []
  | descend {n i frames acc script child} (hi : i < 256)
    (h : (sh.heap.cells n).children (UInt8.ofNat i) = some child) :
    ThreadStep r sh (.scanning (⟨n, i⟩ :: frames) acc script) sh
      (.entering child (⟨n, i + 1⟩ :: frames)
        ⟨Function.update acc.currentPath frames.length (UInt8.ofNat i), acc.paths⟩ script) []
  | skip {n i frames acc script} (hi : i < 256)
    (h : (sh.heap.cells n).children (UInt8.ofNat i) = none) :
    ThreadStep r sh (.scanning (⟨n, i⟩ :: frames) acc script) sh
      (.scanning (⟨n, i + 1⟩ :: frames) acc script) []
  | ascend {n i frame frames acc script} (hi : 256 ≤ i) :
    ThreadStep r sh (.scanning (⟨n, i⟩ :: frame :: frames) acc script) (sh.unlockNode n r .read)
      (.scanning (frame :: frames) acc script) []
  | finish {n i acc script} (hi : 256 ≤ i) :
    ThreadStep r sh (.scanning [⟨n, i⟩] acc script) (sh.unlockNode n r .read) (.running script)
      [.collected acc.paths]

theorem threadStep_cases {r : ℕ} {sh : LockState α} {t : LockThread α}
    {x : LockState α × LockThread α × List (TrieEvent α)} (h : threadStep r sh t = some x) :
    ThreadStep r sh t x.1 x.2.1 x.2.2 := by
  cases t with
  | idle => cases h
  | crashed => cases h
  | running script =>
      cases script with
      | nil => cases h
      | cons instr script =>
          cases instr <;> simp only [threadStep, instrStep, Option.some.injEq,
            Option.ite_none_right_eq_some] at h
          case lockList =>
            obtain ⟨hfree, rfl⟩ := h
            exact .lockList hfree
          case lockCache =>
            obtain ⟨hfree, rfl⟩ := h
            exact .lockCache hfree
          all_goals
            subst h
            constructor
  | locking op n rest script =>
      simp only [threadStep, Option.ite_none_right_eq_some, Option.some.injEq] at h
      obtain ⟨hgrant, rfl⟩ := h
      exact .lock hgrant
  | visiting op n rest script =>
      rw [threadStep, visitStep] at h
      rcases hvisit : sh.heap.visit op n rest with ⟨heap, result | ⟨c, seen⟩⟩ <;>
        simp only [hvisit, Option.some.injEq] at h <;> subst h
      · exact .act hvisit
      · exact .goOn hvisit
  | reading op n c rest seen script =>
      rw [threadStep] at h
      split at h <;> rename_i hchild <;> obtain rfl := Option.some.inj h
      · exact .reread hchild
      · exact .crash hchild
  | returning op result script =>
      obtain rfl := Option.some.inj h
      exact .ret
  | entering n frames acc script =>
      simp only [threadStep, Option.ite_none_right_eq_some, Option.some.injEq] at h
      obtain ⟨hgrant, rfl⟩ := h
      exact .enter hgrant
  | scanning frames acc script =>
      cases frames with
      | nil => cases h
      | cons frame frames =>
          obtain ⟨n, i⟩ := frame
          rw [threadStep, scanStep] at h
          by_cases hi : i < 256
          · rw [if_pos hi] at h
            dsimp only at h
            split at h <;> rename_i hchild <;> obtain rfl := Option.some.inj h
            · exact .descend hi hchild
            · exact .skip hi hchild
          · rw [if_neg hi] at h
            cases frames with
            | nil =>
                obtain rfl := Option.some.inj h
                exact .finish (not_lt.mp hi)
            | cons frame frames =>
                obtain rfl := Option.some.inj h
                exact .ascend (not_lt.mp hi)

/-! ### The scripts of the handlers -/

/-- The update under `ss_list_mutex` after a CREATE_FILE, or a COPY_FILE to a new path. -/
def recordScript (path : Path) (slot : Slot) : List (Instr Slot) :=
  [.lockList, .trie (.insert path slot), .unlockList]

/-- The ways through `handle_connection`, up to the reply to the client. -/
inductive HandlerScript (msg : Message) : List (Instr Slot) → Prop
  | registerSs (hop : msg.operation = .registerSs) (slot : Slot) : HandlerScript msg
    (.lockList :: (NamingServer.pathIndices msg).map
      (fun i => .trie (.insert (msg.accessiblePaths.get i).str slot)) ++ [.unlockList])
  | registryFull (hop : msg.operation = .registerSs) : HandlerScript msg [.lockList, .unlockList]
  | listPaths (hop : msg.operation = .listPaths) (buffer : ℕ → UInt8) :
    HandlerScript msg [.collect buffer]
  | listFailed (hop : msg.operation = .listPaths) : HandlerScript msg []
  | createExists (hop : msg.operation = .createFile) :
    HandlerScript msg [.trie (.search msg.path.str)]
  | createUnplaced (hop : msg.operation = .createFile) :
    HandlerScript msg [.trie (.search msg.path.str), .lockList, .unlockList]
  | createFailed (hop : msg.operation = .createFile) :
    HandlerScript msg [.trie (.search msg.path.str), .lockList, .unlockList, .exchange]
  | create (hop : msg.operation = .createFile) (slot : Slot) :
    HandlerScript msg ([.trie (.search msg.path.str), .lockList, .unlockList, .exchange] ++
      recordScript msg.path.str slot)
  | deleteMissing (hop : msg.operation = .deleteFile) :
    HandlerScript msg [.trie (.search msg.path.str)]
  | deleteFailed (hop : msg.operation = .deleteFile) :
    HandlerScript msg [.trie (.search msg.path.str), .exchange]
  | delete (hop : msg.operation = .deleteFile) :
    HandlerScript msg [.trie (.search msg.path.str), .exchange, .lockList,
      .trie (.delete msg.path.str), .lockCache, .unlockCache, .unlockList]
  | copyMissing (hop : msg.operation = .copyFile) :
    HandlerScript msg [.trie (.search msg.path.str)]
  | copyUnplaced (hop : msg.operation = .copyFile) :
    HandlerScript msg [.trie (.search msg.path.str), .trie (.search msg.path2.str), .lockList,
      .unlockList]
  | copyUnsent (hop : msg.operation = .copyFile) :
    HandlerScript msg [.trie (.search msg.path.str), .trie (.search msg.path2.str)]
  /-- To an existing path, or failed. -/
  | copy (hop : msg.operation = .copyFile) :
    HandlerScript msg [.trie (.search msg.path.str), .trie (.search msg.path2.str), .exchange]
  | copyNewFailed (hop : msg.operation = .copyFile) :
    HandlerScript msg [.trie (.search msg.path.str), .trie (.search msg.path2.str), .lockList,
      .unlockList, .exchange]
  | copyNew (hop : msg.operation = .copyFile) (slot : Slot) :
    HandlerScript msg ([.trie (.search msg.path.str), .trie (.search msg.path2.str), .lockList,
      .unlockList, .exchange] ++ recordScript msg.path2.str slot)
  | lookupHit (hop : msg.IsLookup) : HandlerScript msg [.lockCache, .unlockCache]
  | lookupMissing (hop : msg.IsLookup) :
    HandlerScript msg [.lockCache, .unlockCache, .trie (.search msg.path.str)]
  | lookupFound (hop : msg.IsLookup) :
    HandlerScript msg [.lockCache, .unlockCache, .trie (.search msg.path.str), .lockCache,
      .unlockCache]
  | invalid (hop : ¬msg.IsLookup) : HandlerScript msg []

end NetworkFileSystem
