import NetworkFileSystem.Library.RwLock
import NetworkFileSystem.Common
import Mathlib.Data.List.Find
import Mathlib.Logic.Function.Basic

/-!
# The table of file locks

The hash table of `ss_file_operations.c`. A path gets its lock the first time that it is locked;
later on it is looked up again each time, to acquire and to release it, and is always the same.
-/

namespace NetworkFileSystem

open Locks

abbrev maxFileLocks : ℕ := 1024

structure FileLock where
  path : Path
  rwlock : RwLock

/-- The locks are at addresses below `fresh`; each list of the hash table starts with the newest. -/
structure FileLockTable where
  fileLocks : Fin maxFileLocks → List ℕ
  nodes : ℕ → FileLock
  fresh : ℕ

/-- A `char` is signed: a byte above 127 is added as a negative number. -/
def hashPathForLock (path : Path) : Fin maxFileLocks :=
  Fin.ofNat _ (path.foldl (fun hash c => hash * 31 + c.toInt8.toInt32.toUInt32) (0 : UInt32)).toNat

namespace FileLockTable

def init : FileLockTable := ⟨fun _ => [], fun _ => ⟨[], .free⟩, 0⟩

/-- The loop over the list of the path. -/
def find (table : FileLockTable) (path : Path) : Option ℕ :=
  (table.fileLocks (hashPathForLock path)).find? fun n => (table.nodes n).path = path

/-- A new lock in front of its list. -/
def create (table : FileLockTable) (path : Path) : FileLockTable where
  fileLocks := Function.update table.fileLocks (hashPathForLock path)
    (table.fresh :: table.fileLocks (hashPathForLock path))
  nodes := Function.update table.nodes table.fresh ⟨path, .free⟩
  fresh := table.fresh + 1

/-- `malloc` says whether the memory for a new lock is there. -/
def getOrCreateFileLockNode (table : FileLockTable) (path : Path) (malloc : Bool) :
    Option ℕ × FileLockTable :=
  match table.find path with
  | some n => (some n, table)
  | none => if malloc then (some table.fresh, table.create path) else (none, table)

def lock (table : FileLockTable) (n : ℕ) : RwLock := (table.nodes n).rwlock

def setLock (table : FileLockTable) (n : ℕ) (l : RwLock) : FileLockTable :=
  { table with nodes := Function.update table.nodes n { table.nodes n with rwlock := l } }

structure WellFormed (table : FileLockTable) : Prop where
  allocated : ∀ i, ∀ n ∈ table.fileLocks i, n < table.fresh
  locks : ∀ n, (table.lock n).WellFormed

variable {table : FileLockTable} {path path' : Path} {n m : ℕ} {l : RwLock}

theorem wellFormed_init : init.WellFormed where
  allocated i n hn := by cases hn
  locks n := RwLock.wellFormed_free

theorem path_of_find (h : table.find path = some n) : (table.nodes n).path = path := by
  simpa using List.find?_some h

theorem WellFormed.lt_fresh (htable : table.WellFormed) (h : table.find path = some n) :
    n < table.fresh :=
  htable.allocated _ n (List.mem_of_find?_eq_some h)

/-- Paths have different locks, also where they have the same hash. -/
theorem find_inj (h : table.find path = some n) (h' : table.find path' = some n) : path = path' :=
  (path_of_find h).symm.trans (path_of_find h')

/-! ### Locking and unlocking -/

theorem lock_setLock (n m : ℕ) (l : RwLock) :
    (table.setLock n l).lock m = if m = n then l else table.lock m := by
  by_cases h : m = n
  · subst h
    simp [setLock, lock]
  · simp [setLock, lock, h]

theorem path_setLock (n m : ℕ) (l : RwLock) :
    ((table.setLock n l).nodes m).path = (table.nodes m).path := by
  by_cases h : m = n
  · subst h
    simp [setLock]
  · simp [setLock, h]

theorem find_setLock (n : ℕ) (l : RwLock) (path : Path) :
    (table.setLock n l).find path = table.find path := by
  rw [find, find]
  simp only [path_setLock]
  rfl

theorem WellFormed.setLock (htable : table.WellFormed) (n : ℕ) (hl : l.WellFormed) :
    (table.setLock n l).WellFormed where
  allocated := htable.allocated
  locks m := by
    rw [lock_setLock]
    split_ifs
    · exact hl
    · exact htable.locks m

/-! ### A new lock -/

theorem lock_create_of_ne (h : m ≠ table.fresh) : (table.create path).lock m = table.lock m := by
  simp [create, lock, h]

theorem lock_create_fresh : (table.create path).lock table.fresh = .free := by
  simp [create, lock]

theorem find_create_self : (table.create path).find path = some table.fresh := by
  simp [find, create]

theorem find_create_of_ne (hallocated : ∀ i, ∀ n ∈ table.fileLocks i, n < table.fresh)
    (hne : path' ≠ path) : (table.create path).find path' = table.find path' := by
  -- the locks that were there keep their paths
  have hold : ∀ i, (table.fileLocks i).find? (fun n => ((table.create path).nodes n).path = path') =
      (table.fileLocks i).find? fun n => (table.nodes n).path = path' := fun i =>
    List.find?_congr fun n hn => by simp [create, (hallocated i n hn).ne]
  by_cases hi : hashPathForLock path' = hashPathForLock path
  · have hskip : ((table.create path).nodes table.fresh).path ≠ path' := by
      simp [create, hne.symm]
    have hlist : (table.create path).fileLocks (hashPathForLock path') =
        table.fresh :: table.fileLocks (hashPathForLock path') := by
      simp [create, hi]
    rw [find, hlist, List.find?_cons_of_neg (by simpa using hskip), hold, find]
  · have hlist : (table.create path).fileLocks (hashPathForLock path') =
        table.fileLocks (hashPathForLock path') := by
      simp [create, hi]
    rw [find, hlist, hold, find]

theorem WellFormed.create (htable : table.WellFormed) (path : Path) :
    (table.create path).WellFormed where
  allocated i n hn := by
    have hn' : n = table.fresh ∨ n ∈ table.fileLocks i := by
      by_cases hi : i = hashPathForLock path
      · subst hi
        simpa [FileLockTable.create] using hn
      · exact Or.inr (by simpa [FileLockTable.create, hi] using hn)
    rcases hn' with rfl | hn
    · exact Nat.lt_succ_self _
    · exact (htable.allocated i n hn).trans (Nat.lt_succ_self _)
  locks n := by
    by_cases hn : n = table.fresh
    · subst hn
      rw [lock_create_fresh]
      exact RwLock.wellFormed_free
    · rw [lock_create_of_ne hn]
      exact htable.locks n

theorem malloc_of_obtained_none {malloc : Bool}
    (h : (table.getOrCreateFileLockNode path malloc).1 = none) : malloc = false := by
  rw [getOrCreateFileLockNode] at h
  cases hfind : table.find path with
  | some n => simp [hfind] at h
  | none =>
      cases malloc with
      | false => rfl
      | true => simp [hfind] at h

/-- What `get_or_create_file_lock_node` does: it finds the lock of the path, or makes one, or fails
and changes nothing. Every other path keeps its lock. -/
structure Obtained (table : FileLockTable) (path : Path) (n : Option ℕ)
    (table' : FileLockTable) : Prop where
  wellFormed : table'.WellFormed
  found : ∀ m, n = some m → table'.find path = some m
  kept : ∀ path' m, table.find path' = some m → table'.find path' = some m
  locks : ∀ m, table'.lock m = table.lock m ∨ m = table.fresh ∧ table'.lock m = .free

theorem find_of_getOrCreateFileLockNode {malloc : Bool}
    (h : (table.getOrCreateFileLockNode path malloc).1 = some n) :
    (table.getOrCreateFileLockNode path malloc).2.find path = some n := by
  rw [getOrCreateFileLockNode] at h ⊢
  cases hfind : table.find path with
  | some m =>
      rw [hfind] at h
      exact hfind.trans h
  | none =>
      rw [hfind] at h
      cases malloc with
      | false => cases h
      | true => exact find_create_self.trans h

theorem find_getOrCreateFileLockNode
    (hallocated : ∀ i, ∀ n ∈ table.fileLocks i, n < table.fresh) (malloc : Bool)
    (h : table.find path' = some n) :
    (table.getOrCreateFileLockNode path malloc).2.find path' = some n := by
  rw [getOrCreateFileLockNode]
  cases hfind : table.find path with
  | some m => exact h
  | none =>
      cases malloc with
      | false => exact h
      | true =>
          have hne : path' ≠ path := by
            rintro rfl
            rw [hfind] at h
            cases h
          exact (find_create_of_ne hallocated hne).trans h

theorem obtained (htable : table.WellFormed) (path : Path) (malloc : Bool) :
    table.Obtained path (table.getOrCreateFileLockNode path malloc).1
      (table.getOrCreateFileLockNode path malloc).2 := by
  refine ⟨?_, fun _ => find_of_getOrCreateFileLockNode,
    fun _ _ => find_getOrCreateFileLockNode htable.allocated malloc, fun m => ?_⟩
  · rw [getOrCreateFileLockNode]
    cases table.find path with
    | some n => exact htable
    | none =>
        cases malloc with
        | false => exact htable
        | true => exact htable.create path
  · rw [getOrCreateFileLockNode]
    cases table.find path with
    | some n => exact Or.inl rfl
    | none =>
        cases malloc with
        | false => exact Or.inl rfl
        | true =>
            by_cases hm : m = table.fresh
            · subst hm
              exact Or.inr ⟨rfl, lock_create_fresh⟩
            · exact Or.inl (lock_create_of_ne hm)

end FileLockTable
end NetworkFileSystem
