import NetworkFileSystem.FileLocks
import NetworkFileSystem.Library.Interleaving
import NetworkFileSystem.Library.SinglyLinked

/-!
# The chains of the file locks

The nodes of the hash table of `ss_file_operations.c` and the calls that share it: the table is
searched and extended under `file_locks_mutex`, and the lock that was found is taken outside of it.
A path keeps the node that was made for it, so that a release finds what was acquired.
-/

namespace NetworkFileSystem

open Locks Interleaving

structure FileLockNode extends FileLock where
  next : Option ℕ

/-- A node is never freed. -/
structure FileLockHeap where
  fileLocks : Fin maxFileLocks → Option ℕ
  heap : ℕ → Option FileLockNode
  /-- The address that the next successful `malloc` returns. -/
  fresh : ℕ

namespace FileLockHeap

def initFileLocks : FileLockHeap := ⟨fun _ => none, fun _ => none, 0⟩

/-- The loop along the `next` pointers. A walk visits each allocated node at most once, which
bounds the loop. -/
def searchFrom (table : FileLockHeap) (path : Path) : ℕ → Option ℕ → Option (Option ℕ)
  | _, none => some none
  | 0, some _ => none
  | fuel + 1, some current => do
    let node ← table.heap current
    if node.path = path then some (some current) else table.searchFrom path fuel node.next

def search (table : FileLockHeap) (path : Path) : Option (Option ℕ) :=
  table.searchFrom path table.fresh (table.fileLocks (hashPathForLock path))

/-- A new node in front of its chain. -/
def create (table : FileLockHeap) (path : Path) : FileLockHeap where
  fileLocks := Function.update table.fileLocks (hashPathForLock path) (some table.fresh)
  heap := Function.update table.heap table.fresh
    (some ⟨⟨path, .free⟩, table.fileLocks (hashPathForLock path)⟩)
  fresh := table.fresh + 1

/-- `malloc` says whether the memory for a new node is there. -/
def getOrCreateFileLockNode (table : FileLockHeap) (path : Path) (malloc : Bool) :
    Option (Option ℕ × FileLockHeap) := do
  match ← table.search path with
  | some current => some (some current, table)
  | none => if malloc then some (some table.fresh, table.create path) else some (none, table)

def setLock (table : FileLockHeap) (n : ℕ) (node : FileLockNode) (l : RwLock) : FileLockHeap :=
  { table with heap := Function.update table.heap n (some { node with rwlock := l }) }

/-- The node that is unlocked, if there is one for the path. -/
def releaseLock (table : FileLockHeap) (path : Path) (r : ℕ) :
    Option (Option ℕ × FileLockHeap) := do
  match ← table.search path with
  | some current => do
    let node ← table.heap current
    some (some current, table.setLock current node (node.rwlock.unlock r))
  | none => some (none, table)

end FileLockHeap

inductive FileLockCaller
  | idle
  /-- Has the node of the path, and waits for its lock. -/
  | locking (m : Mode) (path : Path) (n : ℕ)
  deriving DecidableEq

inductive FileLockCall
  | acquire (m : Mode) (path : Path) (malloc : Bool)
  /-- `pthread_rwlock_rdlock` or `pthread_rwlock_wrlock` returns. -/
  | lock (ok : Bool)
  | release (m : Mode) (path : Path)

inductive FileLockEvent
  | acquired (m : Mode) (path : Path) (n : ℕ)
  | refused (m : Mode) (path : Path)
  /-- With the node that was unlocked. -/
  | released (m : Mode) (path : Path) (n : Option ℕ)
  deriving DecidableEq

/-- The table is accessed under `file_locks_mutex`, in one step. -/
def fileLockProcess : Process FileLockHeap FileLockCaller FileLockCall FileLockEvent :=
  fun r table caller call =>
    match caller, call with
    | .idle, .acquire m path malloc =>
      (table.getOrCreateFileLockNode path malloc).map fun
        | (some n, table) => (table, .locking m path n, [])
        | (none, table) => (table, .idle, [.refused m path])
    | .locking m path n, .lock ok => do
      let node ← table.heap n
      if ok = false then some (table, .idle, [.refused m path])
      else if node.rwlock.Grantable m then
        some (table.setLock n node (node.rwlock.acquire r m), .idle, [.acquired m path n])
      else none
    | .idle, .release m path =>
      (table.releaseLock path r).map fun (n, table) => (table, .idle, [.released m path n])
    | _, _ => none

/-! ### Lists and chains -/

namespace FileLockTable

/-- Each list holds the locks of its hash, each lock is in its list once, and no path has two. -/
structure Indexed (table : FileLockTable) : Prop where
  hashed : ∀ i, ∀ n ∈ table.fileLocks i, hashPathForLock (table.nodes n).path = i
  allocated : ∀ i, ∀ n ∈ table.fileLocks i, n < table.fresh
  listed : ∀ n < table.fresh, n ∈ table.fileLocks (hashPathForLock (table.nodes n).path)
  nodup : ∀ i, (table.fileLocks i).Nodup
  unique : ∀ n < table.fresh, table.find (table.nodes n).path = some n

variable {table : FileLockTable} {path : Path} {n : ℕ} {l : RwLock}

theorem indexed_init : init.Indexed where
  hashed i n hn := by simp [init] at hn
  allocated i n hn := by simp [init] at hn
  listed n hn := by simp [init] at hn
  nodup i := List.nodup_nil
  unique n hn := by simp [init] at hn

theorem Indexed.setLock (h : table.Indexed) (n : ℕ) (l : RwLock) :
    (table.setLock n l).Indexed where
  hashed i m hm := (congrArg hashPathForLock (path_setLock n m l)).trans (h.hashed i m hm)
  allocated := h.allocated
  listed m hm := by
    rw [path_setLock]
    exact h.listed m hm
  nodup := h.nodup
  unique m hm := by
    rw [path_setLock, find_setLock]
    exact h.unique m hm

theorem mem_fileLocks_create {i : Fin maxFileLocks} :
    n ∈ (table.create path).fileLocks i ↔
      i = hashPathForLock path ∧ n = table.fresh ∨ n ∈ table.fileLocks i := by
  by_cases hi : i = hashPathForLock path
  · subst hi
    simp [create]
  · simp [create, hi]

theorem path_create_of_ne (h : n ≠ table.fresh) :
    ((table.create path).nodes n).path = (table.nodes n).path := by
  simp [create, h]

theorem path_create_fresh : ((table.create path).nodes table.fresh).path = path := by
  simp [create]

theorem Indexed.create (h : table.Indexed) (hpath : table.find path = none) :
    (table.create path).Indexed where
  hashed i n hn := by
    rcases mem_fileLocks_create.mp hn with ⟨rfl, rfl⟩ | hn
    · rw [path_create_fresh]
    · rw [path_create_of_ne (h.allocated i n hn).ne]
      exact h.hashed i n hn
  allocated i n hn := by
    rcases mem_fileLocks_create.mp hn with ⟨-, rfl⟩ | hn
    · exact Nat.lt_succ_self _
    · exact (h.allocated i n hn).trans (Nat.lt_succ_self _)
  listed n hn := by
    rw [mem_fileLocks_create]
    rcases Nat.lt_succ_iff_lt_or_eq.mp hn with hn | rfl
    · rw [path_create_of_ne hn.ne]
      exact Or.inr (h.listed n hn)
    · exact Or.inl ⟨by rw [path_create_fresh], rfl⟩
  nodup i := by
    by_cases hi : i = hashPathForLock path
    · subst hi
      have hfresh : table.fresh ∉ table.fileLocks (hashPathForLock path) := fun hmem =>
        (h.allocated _ _ hmem).ne rfl
      simpa [FileLockTable.create] using ⟨hfresh, h.nodup _⟩
    · simpa [FileLockTable.create, hi] using h.nodup i
  unique n hn := by
    rcases Nat.lt_succ_iff_lt_or_eq.mp hn with hn | rfl
    · have hfind := h.unique n hn
      have hne : (table.nodes n).path ≠ path := fun heq => by
        rw [heq, hpath] at hfind
        cases hfind
      rw [path_create_of_ne hn.ne, find_create_of_ne h.allocated hne, hfind]
    · rw [path_create_fresh]
      exact find_create_self

theorem Indexed.getOrCreateFileLockNode (h : table.Indexed) (path : Path) (malloc : Bool) :
    (table.getOrCreateFileLockNode path malloc).2.Indexed := by
  rw [FileLockTable.getOrCreateFileLockNode]
  cases hfind : table.find path with
  | some n => exact h
  | none =>
      cases malloc with
      | false => exact h
      | true => exact h.create hfind

end FileLockTable

namespace FileLockHeap

open SinglyLinked (Chain)

def next (h : FileLockHeap) (n : ℕ) : Option (Option ℕ) := (h.heap n).map (·.next)

/-- The nodes of the table, linked in the order of its lists. -/
structure Represents (h : FileLockHeap) (table : FileLockTable) : Prop where
  chain : ∀ i, Chain h.next (h.fileLocks i) (table.fileLocks i)
  node : ∀ n, (h.heap n).map (·.toFileLock) = if n < table.fresh then some (table.nodes n) else none
  fresh : h.fresh = table.fresh

variable {h : FileLockHeap} {table : FileLockTable} {path : Path} {n : ℕ} {node : FileLockNode}

theorem represents_init : Represents initFileLocks .init where
  chain i := .nil
  node n := by simp [initFileLocks, FileLockTable.init]
  fresh := rfl

theorem Represents.node_eq (hr : Represents h table) (hn : h.heap n = some node) :
    n < table.fresh ∧ node.toFileLock = table.nodes n := by
  have hnode := hr.node n
  rw [hn, Option.map_some] at hnode
  split_ifs at hnode with hlt
  exact ⟨hlt, Option.some.inj hnode⟩

theorem Represents.exists_node (hr : Represents h table) (hn : n < table.fresh) :
    ∃ node, h.heap n = some node ∧ node.toFileLock = table.nodes n := by
  have hnode := hr.node n
  rw [if_pos hn, Option.map_eq_some_iff] at hnode
  exact hnode

theorem searchFrom_eq {start : Option ℕ} {l : List ℕ} {fuel : ℕ} (hr : Represents h table)
    (hl : Chain h.next start l) (hlt : ∀ n ∈ l, n < table.fresh) (hfuel : l.length ≤ fuel) :
    h.searchFrom path fuel start = some (l.find? fun n => (table.nodes n).path = path) := by
  induction hl generalizing fuel with
  | nil => cases fuel <;> rfl
  | @cons n next l hn _ ih =>
      obtain ⟨fuel, rfl⟩ := Nat.exists_eq_add_one_of_ne_zero (Nat.ne_zero_of_lt hfuel)
      obtain ⟨node, hnode, heq⟩ := hr.exists_node (hlt n (by simp))
      obtain rfl : node.next = next := by simpa [FileLockHeap.next, hnode] using hn
      have hrest := ih (fun m hm => hlt m (by simp [hm])) (Nat.le_of_succ_le_succ hfuel)
      have hpath : node.path = (table.nodes n).path := congrArg FileLock.path heq
      rw [searchFrom, hnode]
      by_cases hp : (table.nodes n).path = path
      · simp [hpath, hp]
      · simp [hpath, hp, hrest]

theorem Represents.search (hr : Represents h table) (hi : table.Indexed) (path : Path) :
    h.search path = some (table.find path) := by
  refine searchFrom_eq hr (hr.chain _) (hi.allocated _) ?_
  have hsub : table.fileLocks (hashPathForLock path) ⊆ List.range table.fresh := fun n hn =>
    List.mem_range.mpr (hi.allocated _ n hn)
  have hlen := (List.subperm_of_subset (hi.nodup _) hsub).length_le
  rw [List.length_range] at hlen
  rw [hr.fresh]
  exact hlen

theorem Represents.create (hr : Represents h table) (hi : table.Indexed) (path : Path) :
    Represents (h.create path) (table.create path) where
  chain i := by
    have hold : ∀ n ∈ table.fileLocks i, (h.create path).next n = h.next n := fun n hn => by
      have hne : n ≠ h.fresh := hr.fresh ▸ (hi.allocated i n hn).ne
      simp [FileLockHeap.next, FileLockHeap.create, hne]
    by_cases hpath : i = hashPathForLock path
    · subst hpath
      have hnew : (h.create path).next table.fresh = some (h.fileLocks (hashPathForLock path)) := by
        simp [FileLockHeap.next, FileLockHeap.create, hr.fresh]
      have hchain := (hr.chain _).push hnew hold
      simpa [FileLockHeap.create, FileLockTable.create, hr.fresh] using hchain
    · have hchain := (hr.chain i).congr hold
      simpa [FileLockHeap.create, FileLockTable.create, hpath] using hchain
  node n := by
    by_cases hn : n = table.fresh
    · subst hn
      simp [FileLockHeap.create, FileLockTable.create, hr.fresh]
    · have hlt : n < table.fresh + 1 ↔ n < table.fresh := by omega
      have hold := hr.node n
      simpa [FileLockHeap.create, FileLockTable.create, hr.fresh, hn, hlt] using hold
  fresh := congrArg (· + 1) hr.fresh

theorem Represents.setLock (hr : Represents h table) (hn : h.heap n = some node) (l : RwLock) :
    Represents (h.setLock n node l) (table.setLock n l) where
  chain i := by
    refine (hr.chain i).congr fun m _ => ?_
    by_cases hm : m = n
    · subst hm
      simp [FileLockHeap.next, FileLockHeap.setLock, hn]
    · simp [FileLockHeap.next, FileLockHeap.setLock, hm]
  node m := by
    obtain ⟨hlt, heq⟩ := hr.node_eq hn
    by_cases hm : m = n
    · subst hm
      simp [FileLockHeap.setLock, FileLockTable.setLock, hlt, ← heq]
    · have hold := hr.node m
      simpa [FileLockHeap.setLock, FileLockTable.setLock, hm] using hold
  fresh := hr.fresh

theorem Represents.getOrCreateFileLockNode (hr : Represents h table) (hi : table.Indexed)
    (path : Path) (malloc : Bool) :
    ∃ h', h.getOrCreateFileLockNode path malloc =
        some ((table.getOrCreateFileLockNode path malloc).1, h') ∧
      Represents h' (table.getOrCreateFileLockNode path malloc).2 := by
  rw [FileLockHeap.getOrCreateFileLockNode, hr.search hi, FileLockTable.getOrCreateFileLockNode]
  cases table.find path with
  | some n => exact ⟨h, rfl, hr⟩
  | none =>
      cases malloc with
      | false => exact ⟨h, rfl, hr⟩
      | true => exact ⟨h.create path, by simp [hr.fresh], hr.create hi path⟩

theorem Represents.releaseLock (hr : Represents h table) (hi : table.Indexed) {path : Path}
    (hfind : table.find path = some n) (r : ℕ) :
    ∃ node, h.heap n = some node ∧ node.path = path ∧
      h.releaseLock path r = some (some n, h.setLock n node (node.rwlock.unlock r)) := by
  obtain ⟨node, hn, heq⟩ := hr.exists_node (hi.allocated _ n (List.mem_of_find?_eq_some hfind))
  have hpath : node.path = path :=
    (congrArg FileLock.path heq).trans (FileLockTable.path_of_find hfind)
  exact ⟨node, hn, hpath, by simp [FileLockHeap.releaseLock, hr.search hi, hfind, hn]⟩

theorem Represents.releaseLock_none (hr : Represents h table) (hi : table.Indexed) {path : Path}
    (hfind : table.find path = none) (r : ℕ) : h.releaseLock path r = some (none, h) := by
  simp [FileLockHeap.releaseLock, hr.search hi, hfind]

/-- Walking along the chains visits every node, each once and in the chain of its hash, and no two
nodes have the same path. -/
structure Chained (h : FileLockHeap) (chains : Fin maxFileLocks → List ℕ) : Prop where
  chain : ∀ i, Chain h.next (h.fileLocks i) (chains i)
  acyclic : ∀ i, (chains i).Nodup
  hashed : ∀ i, ∀ n ∈ chains i, ∃ node, h.heap n = some node ∧ hashPathForLock node.path = i
  reachable : ∀ n node, h.heap n = some node → n ∈ chains (hashPathForLock node.path)
  unique : ∀ n n' node node', h.heap n = some node → h.heap n' = some node' →
    node.path = node'.path → n = n'

theorem Represents.find_path (hr : Represents h table) (hi : table.Indexed)
    (hn : h.heap n = some node) : table.find node.path = some n := by
  obtain ⟨hlt, heq⟩ := hr.node_eq hn
  rw [heq]
  exact hi.unique n hlt

theorem Represents.chained (hr : Represents h table) (hi : table.Indexed) :
    Chained h table.fileLocks where
  chain := hr.chain
  acyclic := hi.nodup
  hashed i n hn := by
    obtain ⟨node, hnode, heq⟩ := hr.exists_node (hi.allocated i n hn)
    exact ⟨node, hnode, by rw [heq, hi.hashed i n hn]⟩
  reachable n node hn := by
    obtain ⟨hlt, heq⟩ := hr.node_eq hn
    rw [heq]
    exact hi.listed n hlt
  unique n n' node node' hn hn' hpath := by
    have hfind := hr.find_path hi hn
    rw [hpath, hr.find_path hi hn'] at hfind
    exact (Option.some.inj hfind).symm

end FileLockHeap

/-! ### Interleaved calls -/

abbrev FileLockWorld := World FileLockHeap FileLockCaller FileLockEvent

namespace FileLockWorld

def init : FileLockWorld := .start .initFileLocks .idle

/-- A release of the path unlocks this node, which is the one of the path, and changes nothing
else. -/
def Unlocks (w : FileLockWorld) (r : ℕ) (m : Mode) (path : Path) (n : ℕ) : Prop :=
  ∃ node, w.shared.heap n = some node ∧ node.path = path ∧
    step fileLockProcess w (r, .release m path) =
      some (w.after r (w.shared.setLock n node (node.rwlock.unlock r), .idle,
        [.released m path (some n)]))

/-- The nodes make up this table, and whoever waits for a node or has acquired it finds it there. -/
structure Finds (w : FileLockWorld) (table : FileLockTable) : Prop where
  represents : w.shared.Represents table
  indexed : table.Indexed
  locking : ∀ r m path n, w.locals r = .locking m path n → table.find path = some n
  acquired : ∀ r m path n, (r, .acquired m path n) ∈ w.history → table.find path = some n

theorem finds_init : Finds init .init where
  represents := FileLockHeap.represents_init
  indexed := FileLockTable.indexed_init
  locking r m path n h := by cases h
  acquired r m path n h := by cases h

variable {w w' : FileLockWorld} {table table' : FileLockTable} {r : ℕ}

/-- A step that keeps what is found, and whose own local state and events are right. -/
theorem Finds.after (h : w.Finds table) {x : FileLockHeap × FileLockCaller × List FileLockEvent}
    (hr : x.1.Represents table') (hi : table'.Indexed)
    (hkept : ∀ path n, table.find path = some n → table'.find path = some n)
    (hlocking : ∀ m path n, x.2.1 = .locking m path n → table'.find path = some n)
    (hacquired : ∀ m path n, .acquired m path n ∈ x.2.2 → table'.find path = some n) :
    Finds (w.after r x) table' where
  represents := hr
  indexed := hi
  locking q m path n hq := by
    by_cases hqr : q = r
    · subst hqr
      rw [World.locals_after_self] at hq
      exact hlocking m path n hq
    · rw [World.locals_after_ne hqr] at hq
      exact hkept path n (h.locking q m path n hq)
  acquired q m path n hq := by
    rcases World.mem_history_after.mp hq with hold | ⟨-, hnew⟩
    · exact hkept path n (h.acquired q m path n hold)
    · exact hacquired m path n hnew

theorem Finds.acquire (h : w.Finds table) (hidle : w.locals r = .idle) (m : Mode) (path : Path)
    (malloc : Bool) : ∃ w' table', step fileLockProcess w (r, .acquire m path malloc) = some w' ∧
      Finds w' table' ∧ ∀ path n, table.find path = some n → table'.find path = some n := by
  obtain ⟨h', hh', hr'⟩ := h.represents.getOrCreateFileLockNode h.indexed path malloc
  have hi' := h.indexed.getOrCreateFileLockNode path malloc
  have hkept : ∀ path' n, table.find path' = some n →
      (table.getOrCreateFileLockNode path malloc).2.find path' = some n := fun _ _ =>
    FileLockTable.find_getOrCreateFileLockNode h.indexed.allocated malloc
  cases hnode : (table.getOrCreateFileLockNode path malloc).1 with
  | none =>
      rw [hnode] at hh'
      have hstep : step fileLockProcess w (r, .acquire m path malloc) =
          some (w.after r (h', .idle, [.refused m path])) := by
        simp [step, fileLockProcess, hidle, hh']
      exact ⟨_, _, hstep, h.after hr' hi' hkept (by simp) (by simp), hkept⟩
  | some n =>
      rw [hnode] at hh'
      have hstep : step fileLockProcess w (r, .acquire m path malloc) =
          some (w.after r (h', .locking m path n, [])) := by
        simp [step, fileLockProcess, hidle, hh']
      have hfind := FileLockTable.find_of_getOrCreateFileLockNode hnode
      refine ⟨_, _, hstep, h.after hr' hi' hkept ?_ (by simp), hkept⟩
      rintro m' path' n' heq
      cases heq
      exact hfind

theorem Finds.setLock (h : w.Finds table) {n : ℕ} {node : FileLockNode}
    (hn : w.shared.heap n = some node) (l : RwLock) {e : FileLockEvent}
    (he : ∀ m path n', e = .acquired m path n' → table.find path = some n') :
    Finds (w.after r (w.shared.setLock n node l, .idle, [e])) (table.setLock n l) := by
  refine h.after (h.represents.setLock hn l) (h.indexed.setLock n l) (fun path n' hfind => ?_)
    (by simp) fun m path n' hmem => ?_
  · exact (FileLockTable.find_setLock n l path).trans hfind
  · rw [FileLockTable.find_setLock]
    exact he m path n' (List.mem_singleton.mp hmem).symm

theorem Finds.unlocks (h : w.Finds table) (hidle : w.locals r = .idle) {path : Path} {n : ℕ}
    (hfind : table.find path = some n) (m : Mode) : w.Unlocks r m path n := by
  obtain ⟨node, hn, hpath, hrelease⟩ := h.represents.releaseLock h.indexed hfind r
  exact ⟨node, hn, hpath, by simp [step, fileLockProcess, hidle, hrelease]⟩

theorem Finds.release_none (h : w.Finds table) (hidle : w.locals r = .idle) {path : Path}
    (hfind : table.find path = none) (m : Mode) : step fileLockProcess w (r, .release m path) =
      some (w.after r (w.shared, .idle, [.released m path none])) := by
  have hrelease := h.represents.releaseLock_none h.indexed hfind r
  simp [step, fileLockProcess, hidle, hrelease]

/-- A lock that was waited for, granted or not. -/
theorem Finds.lock (h : w.Finds table) {m : Mode} {path : Path} {n : ℕ} {ok : Bool}
    (hlocking : w.locals r = .locking m path n)
    (hstep : step fileLockProcess w (r, .lock ok) = some w') :
    ∃ table', Finds w' table' ∧ ∀ path n, table.find path = some n → table'.find path = some n := by
  have hfind := h.locking r m path n hlocking
  obtain ⟨node, hn, -⟩ := h.represents.releaseLock h.indexed hfind r
  obtain ⟨x, hx, rfl⟩ := step_eq_some.mp hstep
  simp only [fileLockProcess, hlocking, hn, Option.bind_eq_bind, Option.bind_some] at hx
  split_ifs at hx with hok hgrant
  · obtain rfl := Option.some.inj hx
    exact ⟨table, h.after h.represents h.indexed (fun _ _ => id) (by simp) (by simp),
      fun _ _ => id⟩
  · obtain rfl := Option.some.inj hx
    refine ⟨_, h.setLock hn _ fun m' path' n' he => ?_, fun path' n' hfind' => ?_⟩
    · cases he
      exact hfind
    · exact (FileLockTable.find_setLock _ _ _).trans hfind'

theorem Finds.release (h : w.Finds table) (hidle : w.locals r = .idle) (m : Mode) (path : Path) :
    ∃ w' table', step fileLockProcess w (r, .release m path) = some w' ∧
      Finds w' table' ∧ ∀ path n, table.find path = some n → table'.find path = some n := by
  cases hfind : table.find path with
  | none =>
      exact ⟨_, table, h.release_none hidle hfind m,
        h.after h.represents h.indexed (fun _ _ => id) (by simp) (by simp), fun _ _ => id⟩
  | some n =>
      obtain ⟨node, hn, -, hstep⟩ := h.unlocks hidle hfind m
      exact ⟨_, _, hstep, h.setLock hn _ (by simp), fun path' n' hfind' =>
        (FileLockTable.find_setLock _ _ _).trans hfind'⟩

theorem Finds.step (h : w.Finds table) {a : ℕ × FileLockCall}
    (hstep : step fileLockProcess w a = some w') :
    ∃ table', Finds w' table' ∧ ∀ path n, table.find path = some n → table'.find path = some n := by
  obtain ⟨r, call⟩ := a
  cases hlocal : w.locals r with
  | idle =>
      cases call with
      | acquire m path malloc =>
          obtain ⟨u, table', hu, hfinds, hkept⟩ := h.acquire hlocal m path malloc
          obtain rfl : u = w' := Option.some.inj (hu.symm.trans hstep)
          exact ⟨table', hfinds, hkept⟩
      | lock ok => simp [Interleaving.step, fileLockProcess, hlocal] at hstep
      | release m path =>
          obtain ⟨u, table', hu, hfinds, hkept⟩ := h.release hlocal m path
          obtain rfl : u = w' := Option.some.inj (hu.symm.trans hstep)
          exact ⟨table', hfinds, hkept⟩
  | locking m path n =>
      cases call with
      | acquire m' path' malloc => simp [Interleaving.step, fileLockProcess, hlocal] at hstep
      | lock ok => exact h.lock hlocal hstep
      | release m' path' => simp [Interleaving.step, fileLockProcess, hlocal] at hstep

/-- What was found once is found ever after. -/
theorem Finds.run (h : w.Finds table) {as : List (ℕ × FileLockCall)}
    (hrun : Machine.run (Interleaving.step fileLockProcess) w as = some w') :
    ∃ table', Finds w' table' ∧ ∀ path n, table.find path = some n → table'.find path = some n := by
  refine Machine.run_invariant (I := fun u => ∃ table', Finds u table' ∧
    ∀ path n, table.find path = some n → table'.find path = some n)
    ⟨table, h, fun _ _ => id⟩ ?_ hrun
  rintro u a u' ⟨table₁, h₁, hkept₁⟩ hstep
  obtain ⟨table₂, h₂, hkept₂⟩ := h₁.step hstep
  exact ⟨table₂, h₂, fun path n hfind => hkept₂ path n (hkept₁ path n hfind)⟩

/-- Two threads lock paths of one chain, and the second node comes in front of the first. -/
def lockColliding : List (ℕ × FileLockCall) :=
  [(0, .acquire .write [47, 97] true), (1, .acquire .read [48, 66] true), (0, .lock true),
    (1, .lock true)]

end FileLockWorld
end NetworkFileSystem
