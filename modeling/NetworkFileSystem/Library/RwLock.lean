import Mathlib.Data.List.Nodup
import Mathlib.Order.WellFounded

/-!
# Locks

A mutex is the process that holds it, if any. A read-write lock has one writer or any number of
readers. A lock is granted to a process when no other one holds it in a conflicting mode. If every
waiting process is kept waiting by the holder of a lock, and locks are taken in a bounded order,
some process can go on.
-/

namespace Locks

inductive Mode
  | read
  | write
  deriving DecidableEq

structure RwLock where
  writer : Option ℕ
  readers : List ℕ

namespace RwLock

def free : RwLock := ⟨none, []⟩

/-- There is no conflicting holder. -/
def Grantable (l : RwLock) : Mode → Prop
  | .read => l.writer = none
  | .write => l.writer = none ∧ l.readers = []

instance (l : RwLock) : DecidablePred l.Grantable
  | .read => inferInstanceAs (Decidable (_ = _))
  | .write => inferInstanceAs (Decidable (_ ∧ _))

def acquire (l : RwLock) (r : ℕ) : Mode → RwLock
  | .read => { l with readers := r :: l.readers }
  | .write => { l with writer := some r }

def release (l : RwLock) (r : ℕ) : Mode → RwLock
  | .read => { l with readers := l.readers.erase r }
  | .write => { l with writer := none }

/-- Give up the lock in whichever mode it is held; one that is not held stays as it is. -/
def unlock (l : RwLock) (r : ℕ) : RwLock :=
  if l.writer = some r then l.release r .write else l.release r .read

def HeldBy (l : RwLock) (r : ℕ) : Mode → Prop
  | .read => r ∈ l.readers
  | .write => l.writer = some r

/-- No reader besides a writer, and no reader twice. -/
structure WellFormed (l : RwLock) : Prop where
  exclusive : l.writer ≠ none → l.readers = []
  nodup : l.readers.Nodup

variable {l : RwLock} {q r : ℕ} {m m' : Mode}

theorem wellFormed_free : free.WellFormed := ⟨fun h => absurd rfl h, List.nodup_nil⟩

theorem Grantable.readable (h : l.Grantable m) : l.Grantable .read := by
  cases m with
  | read => exact h
  | write => exact h.1

/-- A reader and a writer conflict, and so do two writers. -/
theorem Grantable.not_heldBy (h : l.Grantable m) (hconflict : m = .write ∨ m' = .write) :
    ¬l.HeldBy q m' := by
  intro hheld
  cases m' with
  | read =>
      obtain rfl := hconflict.resolve_right (by decide)
      exact List.ne_nil_of_mem hheld h.2
  | write => cases hheld.symm.trans h.readable

theorem WellFormed.acquire (hl : l.WellFormed) (h : l.Grantable m) (hr : ¬l.HeldBy r .read) :
    (l.acquire r m).WellFormed := by
  cases m with
  | read => exact ⟨fun hw => absurd h hw, List.nodup_cons.mpr ⟨hr, hl.nodup⟩⟩
  | write => exact ⟨fun _ => h.2, hl.nodup⟩

theorem WellFormed.release (hl : l.WellFormed) (r : ℕ) (m : Mode) :
    (l.release r m).WellFormed := by
  cases m with
  | read =>
      refine ⟨fun hw => ?_, hl.nodup.erase r⟩
      change l.readers.erase r = []
      rw [hl.exclusive hw, List.erase_nil]
  | write => exact ⟨fun hw => absurd rfl hw, hl.nodup⟩

theorem heldBy_acquire (h : l.Grantable m) :
    (l.acquire r m).HeldBy q m' ↔ l.HeldBy q m' ∨ q = r ∧ m' = m := by
  cases m <;> cases m'
  · simp [acquire, HeldBy, or_comm]
  · simp [acquire, HeldBy]
  · simp [acquire, HeldBy]
  · simp [acquire, HeldBy, h.1, eq_comm]

theorem heldBy_release (hl : l.WellFormed) (h : l.HeldBy r m) :
    (l.release r m).HeldBy q m' ↔ l.HeldBy q m' ∧ ¬(q = r ∧ m' = m) := by
  cases m <;> cases m'
  · simp [release, HeldBy, hl.nodup.mem_erase_iff, and_comm]
  · simp [release, HeldBy]
  · simp [release, HeldBy]
  · have hw : l.writer = some r := h
    simp [release, HeldBy, hw, eq_comm]

/-- A writer has the lock for itself. -/
theorem WellFormed.writer_alone (hl : l.WellFormed) (h : l.HeldBy r .write)
    (h' : l.HeldBy q m) : q = r ∧ m = .write := by
  cases m with
  | read =>
      have hnone := hl.exclusive (Option.isSome_iff_ne_none.mp (h ▸ rfl))
      exact absurd (hnone ▸ h' : q ∈ []) List.not_mem_nil
  | write => exact ⟨Option.some.inj (h'.symm.trans h), rfl⟩

/-- What keeps a process waiting. -/
theorem exists_holder (h : ¬l.Grantable m) : ∃ q m', l.HeldBy q m' := by
  by_cases hw : l.writer = none
  · cases m with
    | read => exact absurd hw h
    | write =>
        have hreaders : l.readers ≠ [] := fun hr => h ⟨hw, hr⟩
        obtain ⟨q, hq⟩ := List.exists_mem_of_ne_nil _ hreaders
        exact ⟨q, .read, hq⟩
  · obtain ⟨q, hq⟩ := Option.ne_none_iff_exists'.mp hw
    exact ⟨q, .write, hq⟩

theorem eq_free (h : ∀ q m, ¬l.HeldBy q m) : l = free := by
  obtain ⟨writer, readers⟩ := l
  have hwriter : writer = none := Option.eq_none_iff_forall_ne_some.mpr fun q => h q .write
  have hreaders : readers = [] := List.eq_nil_iff_forall_not_mem.mpr fun q => h q .read
  rw [hwriter, hreaders, free]

end RwLock

/-- Where each waiting process is kept waiting by one that goes on or waits for a lock of higher
rank, some process goes on. -/
theorem exists_of_rank_bounded {ι : Type*} {waits goesOn : ι → Prop} {rank : ι → ℕ} {bound : ℕ}
    (hbound : ∀ r, waits r → rank r ≤ bound)
    (hblocked : ∀ r, waits r → ∃ q, goesOn q ∨ waits q ∧ rank r < rank q) {r : ι}
    (hr : waits r) : ∃ q, goesOn q := by
  induction hn : bound - rank r using Nat.strong_induction_on generalizing r with
  | _ n ih =>
      obtain ⟨q, hq | ⟨hq, hlt⟩⟩ := hblocked r hr
      · exact ⟨q, hq⟩
      · have := hbound q hq
        exact ih (bound - rank q) (by omega) hq rfl

end Locks
