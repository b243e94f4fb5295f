import NetworkFileSystem.FileThreads

/-!
# Who holds the locks of the storage servers

Where a handler stands says whether it holds `file_locks_mutex` and whether it holds the lock of
its path. The lock that it looks up to release is the one that it has acquired.
-/

namespace NetworkFileSystem

open Locks Interleaving

namespace FileShared

def tables (sh : FileShared) (s : ℕ) : FileLockTable := (sh.servers s).fileLocks

def mutexes (sh : FileShared) (s : ℕ) : Option ℕ := (sh.servers s).fileLocksMutex

def files (sh : FileShared) (s : ℕ) : FileSystem := (sh.servers s).fs

variable (sh : FileShared) (s n r : ℕ) (m : Mode)

/-- A part of every server, where one server is updated. -/
theorem part_updateServer {β : Type} (part : FileServer → β) (f : FileServer → FileServer) :
    (fun s' => part ((sh.updateServer s f).servers s')) =
      Function.update (fun s' => part (sh.servers s')) s (part (f (sh.servers s))) :=
  Function.comp_update part sh.servers s (f (sh.servers s))

theorem part_updateServer_of_eq {β : Type} (part : FileServer → β) {f : FileServer → FileServer}
    (h : part (f (sh.servers s)) = part (sh.servers s)) :
    (fun s' => part ((sh.updateServer s f).servers s')) = fun s' => part (sh.servers s') := by
  rw [part_updateServer, h]
  exact Function.update_eq_self s fun s' => part (sh.servers s')

@[simp] theorem tables_setMutex (holder : Option ℕ) :
    (sh.setMutex s holder).tables = sh.tables :=
  sh.part_updateServer_of_eq s FileServer.fileLocks rfl

@[simp] theorem mutexes_setMutex (holder : Option ℕ) :
    (sh.setMutex s holder).mutexes = Function.update sh.mutexes s holder :=
  sh.part_updateServer s FileServer.fileLocksMutex _

@[simp] theorem files_setMutex (holder : Option ℕ) :
    (sh.setMutex s holder).files = sh.files :=
  sh.part_updateServer_of_eq s FileServer.fs rfl

@[simp] theorem tables_setTable (table : FileLockTable) :
    (sh.setTable s table).tables = Function.update sh.tables s table :=
  sh.part_updateServer s FileServer.fileLocks _

@[simp] theorem mutexes_setTable (table : FileLockTable) :
    (sh.setTable s table).mutexes = sh.mutexes :=
  sh.part_updateServer_of_eq s FileServer.fileLocksMutex rfl

@[simp] theorem files_setTable (table : FileLockTable) :
    (sh.setTable s table).files = sh.files :=
  sh.part_updateServer_of_eq s FileServer.fs rfl

@[simp] theorem tables_setFs (fs : FileSystem) : (sh.setFs s fs).tables = sh.tables :=
  sh.part_updateServer_of_eq s FileServer.fileLocks rfl

@[simp] theorem mutexes_setFs (fs : FileSystem) : (sh.setFs s fs).mutexes = sh.mutexes :=
  sh.part_updateServer_of_eq s FileServer.fileLocksMutex rfl

@[simp] theorem files_setFs (fs : FileSystem) :
    (sh.setFs s fs).files = Function.update sh.files s fs :=
  sh.part_updateServer s FileServer.fs _

@[simp] theorem files_lockFile : (sh.lockFile s n r m).files = sh.files := files_setTable _ _ _

@[simp] theorem files_unlockFile : (sh.unlockFile s n r m).files = sh.files :=
  files_setTable _ _ _

end FileShared

namespace FileThread

/-- Holds `file_locks_mutex` of the server. -/
def HoldsMutex (s : ℕ) : FileThread → Prop
  | .finding job | .obtained job _ | .unlocking job _ | .unlocked job _ => job.server = s
  | _ => False

/-- Holds the lock of the path. -/
def HoldsFile (s : ℕ) (path : Path) (m : Mode) : FileThread → Prop
  | .operating job _ | .releasing job _ | .unlocking job _ =>
    job.server = s ∧ job.path = path ∧ job.op.mode = m
  | _ => False

/-- The lock that the handler waits for or holds is the one of its path. -/
def Located (tables : ℕ → FileLockTable) : FileThread → Prop
  | .obtained job (some n) | .locking job n => (tables job.server).find job.path = some n
  | .operating job _ | .releasing job _ | .unlocking job _ =>
    ∃ n, (tables job.server).find job.path = some n
  | _ => True

theorem Located.kept {t : FileThread} {tables tables' : ℕ → FileLockTable}
    (ht : t.Located tables) (hkept : ∀ s path n, (tables s).find path = some n →
      (tables' s).find path = some n) : t.Located tables' := by
  cases t with
  | obtained job node =>
      cases node with
      | none => trivial
      | some n => exact hkept _ _ _ ht
  | locking job n => exact hkept _ _ _ ht
  | operating job st => exact ht.imp fun n => hkept _ _ n
  | releasing job result => exact ht.imp fun n => hkept _ _ n
  | unlocking job result => exact ht.imp fun n => hkept _ _ n
  | _ => trivial

theorem HoldsFile.located {t : FileThread} {s : ℕ} {path : Path} {m : Mode}
    {tables : ℕ → FileLockTable} (h : t.HoldsFile s path m) (ht : t.Located tables) :
    ∃ n, (tables s).find path = some n := by
  cases t with
  | operating job st =>
      obtain ⟨rfl, rfl, -⟩ := h
      exact ht
  | releasing job result =>
      obtain ⟨rfl, rfl, -⟩ := h
      exact ht
  | unlocking job result =>
      obtain ⟨rfl, rfl, -⟩ := h
      exact ht
  | _ => cases h

end FileThread

/-- The locks held by the handler are those of its place. -/
structure FileOwns (sh : FileShared) (r : ℕ) (t : FileThread) : Prop where
  mutex : ∀ s, sh.mutexes s = some r ↔ t.HoldsMutex s
  files : ∀ s n m, ((sh.tables s).lock n).HeldBy r m ↔
    ∃ path, (sh.tables s).find path = some n ∧ t.HoldsFile s path m
  located : t.Located sh.tables

/-- The locks after a step: those of the handler fit its new place, and the others keep theirs. -/
structure FileExchanged (sh : FileShared) (r : ℕ) (sh' : FileShared) (t' : FileThread) :
    Prop where
  wellFormed : ∀ s, (sh'.tables s).WellFormed
  owns : FileOwns sh' r t'
  others : ∀ q t, q ≠ r → FileOwns sh q t → FileOwns sh' q t

variable {sh sh' : FileShared} {r s n : ℕ} {t t' : FileThread} {m : Mode}

/-- The tables may grow, and the handler goes on to a place that comes with the same file locks. -/
theorem FileOwns.kept (ht : FileOwns sh r t)
    (hmutex : ∀ s, sh'.mutexes s = some r ↔ t'.HoldsMutex s)
    (hheld : ∀ s n m, ((sh'.tables s).lock n).HeldBy r m ↔ ((sh.tables s).lock n).HeldBy r m)
    (hkept : ∀ s path n, (sh.tables s).find path = some n → (sh'.tables s).find path = some n)
    (hfiles : ∀ s path m, t'.HoldsFile s path m ↔ t.HoldsFile s path m)
    (hlocated : t'.Located sh'.tables) : FileOwns sh' r t' := by
  refine ⟨hmutex, fun s n m => ?_, hlocated⟩
  rw [hheld, ht.files]
  constructor
  · rintro ⟨path, hfind, hholds⟩
    exact ⟨path, hkept s path n hfind, (hfiles s path m).mpr hholds⟩
  · rintro ⟨path, hfind, hholds⟩
    obtain ⟨n', hn'⟩ := ((hfiles s path m).mp hholds).located ht.located
    obtain rfl := Option.some.inj ((hkept s path n' hn').symm.trans hfind)
    exact ⟨path, hn', (hfiles s path m).mp hholds⟩

/-- A step that leaves the tables alone. -/
theorem FileOwns.exchanged (hwf : ∀ s, (sh.tables s).WellFormed) (ht : FileOwns sh r t)
    (htables : sh'.tables = sh.tables)
    (hothers : ∀ q s, q ≠ r → (sh'.mutexes s = some q ↔ sh.mutexes s = some q))
    (hmutex : ∀ s, sh'.mutexes s = some r ↔ t'.HoldsMutex s)
    (hfiles : ∀ s path m, t'.HoldsFile s path m ↔ t.HoldsFile s path m)
    (hlocated : t'.Located sh.tables) : FileExchanged sh r sh' t' where
  wellFormed := htables ▸ hwf
  owns := ht.kept hmutex (fun s n m => by rw [htables]) (fun s path n h => htables ▸ h) hfiles
    (htables ▸ hlocated)
  others q t hq hold := hold.kept (fun s => (hothers q s hq).trans (hold.mutex s))
    (fun s n m => by rw [htables]) (fun s path n h => htables ▸ h) (fun _ _ _ => Iff.rfl)
    (htables ▸ hold.located)

/-- A step that leaves all locks alone. -/
theorem FileOwns.exchanged_same (hwf : ∀ s, (sh.tables s).WellFormed) (ht : FileOwns sh r t)
    (htables : sh'.tables = sh.tables) (hmutexes : sh'.mutexes = sh.mutexes)
    (hmutex : ∀ s, t'.HoldsMutex s ↔ t.HoldsMutex s)
    (hfiles : ∀ s path m, t'.HoldsFile s path m ↔ t.HoldsFile s path m)
    (hlocated : t'.Located sh.tables) : FileExchanged sh r sh' t' :=
  ht.exchanged hwf htables (fun q s _ => by rw [hmutexes])
    (fun s => by rw [hmutexes, ht.mutex, hmutex]) hfiles hlocated

/-- The handler takes the free mutex of its server. -/
theorem FileOwns.taken (hwf : ∀ s, (sh.tables s).WellFormed) (ht : FileOwns sh r t)
    (hfree : sh.mutexes s = none) (hnone : ∀ s, ¬t.HoldsMutex s)
    (hmutex : ∀ s', t'.HoldsMutex s' ↔ s = s')
    (hfiles : ∀ s path m, t'.HoldsFile s path m ↔ t.HoldsFile s path m)
    (hlocated : t'.Located sh.tables) : FileExchanged sh r (sh.setMutex s (some r)) t' := by
  refine ht.exchanged hwf (sh.tables_setMutex s _) (fun q s' hq => ?_) (fun s' => ?_) hfiles
    hlocated
  · by_cases hs : s' = s
    · subst hs
      simp [hfree, hq.symm]
    · simp [hs]
  · rw [hmutex, sh.mutexes_setMutex]
    by_cases hs : s' = s
    · subst hs
      simp
    · rw [Function.update_of_ne hs, ht.mutex]
      exact iff_of_false (hnone s') (Ne.symm hs)

/-- The handler gives back the mutex of its server. -/
theorem FileOwns.given (hwf : ∀ s, (sh.tables s).WellFormed) (ht : FileOwns sh r t)
    (hheld : ∀ s', t.HoldsMutex s' ↔ s = s') (hnone : ∀ s, ¬t'.HoldsMutex s)
    (hfiles : ∀ s path m, t'.HoldsFile s path m ↔ t.HoldsFile s path m)
    (hlocated : t'.Located sh.tables) : FileExchanged sh r (sh.setMutex s none) t' := by
  have hmine : sh.mutexes s = some r := (ht.mutex s).mpr ((hheld s).mpr rfl)
  refine ht.exchanged hwf (sh.tables_setMutex s _) (fun q s' hq => ?_) (fun s' => ?_) hfiles
    hlocated
  · by_cases hs : s' = s
    · subst hs
      simp [hmine, hq.symm]
    · simp [hs]
  · rw [iff_false_right (hnone s'), sh.mutexes_setMutex]
    by_cases hs : s' = s
    · subst hs
      simp
    · rw [Function.update_of_ne hs, ht.mutex, hheld]
      exact Ne.symm hs

/-- The handler has looked up its lock, or made it. Nobody held the lock before it was made. -/
theorem FileOwns.found (hwf : ∀ s, (sh.tables s).WellFormed) (ht : FileOwns sh r t)
    {path : Path} {node : Option ℕ} {table : FileLockTable}
    (hobtained : (sh.tables s).Obtained path node table)
    (hmutex : ∀ s, t'.HoldsMutex s ↔ t.HoldsMutex s)
    (hfiles : ∀ s path m, t'.HoldsFile s path m ↔ t.HoldsFile s path m)
    (hlocated : t'.Located (Function.update sh.tables s table)) :
    FileExchanged sh r (sh.setTable s table) t' := by
  have hkept : ∀ s' path' n, (sh.tables s').find path' = some n →
      ((sh.setTable s table).tables s').find path' = some n := by
    intro s' path' n h
    rw [sh.tables_setTable]
    by_cases hs : s' = s
    · subst hs
      rw [Function.update_self]
      exact hobtained.kept path' n h
    · rwa [Function.update_of_ne hs]
  have hheld : ∀ q t, FileOwns sh q t → ∀ s' n m,
      (((sh.setTable s table).tables s').lock n).HeldBy q m ↔
        ((sh.tables s').lock n).HeldBy q m := by
    intro q t hq s' n m
    rw [sh.tables_setTable]
    by_cases hs : s' = s
    · subst hs
      rw [Function.update_self]
      rcases hobtained.locks n with heq | ⟨rfl, hfree⟩
      · rw [heq]
      · rw [hfree]
        refine iff_of_false (by cases m <;> simp [RwLock.HeldBy, RwLock.free]) fun h => ?_
        obtain ⟨path', hfind, -⟩ := (hq.files _ _ _).mp h
        exact lt_irrefl _ ((hwf s').lt_fresh hfind)
    · rw [Function.update_of_ne hs]
  refine ⟨fun s' => ?_, ?_, fun q t hq hold => ?_⟩
  · rw [sh.tables_setTable]
    by_cases hs : s' = s
    · subst hs
      rw [Function.update_self]
      exact hobtained.wellFormed
    · rw [Function.update_of_ne hs]
      exact hwf s'
  · refine ht.kept (fun s' => ?_) (hheld r t ht) hkept hfiles ?_
    · rw [sh.mutexes_setTable, ht.mutex, hmutex]
    · rw [sh.tables_setTable]
      exact hlocated
  · refine hold.kept (fun s' => ?_) (hheld q t hold) hkept (fun _ _ _ => Iff.rfl)
      (hold.located.kept hkept)
    rw [sh.mutexes_setTable, hold.mutex]

/-- The lock of a path of the server is another one, and held by others as before. -/
theorem FileOwns.relocked (hwf : ∀ s, (sh.tables s).WellFormed) (ht : FileOwns sh r t)
    {path : Path} (hfind : (sh.tables s).find path = some n) {l : RwLock} (hl : l.WellFormed)
    (hothers : ∀ q m', q ≠ r → (l.HeldBy q m' ↔ ((sh.tables s).lock n).HeldBy q m'))
    (hmine : ∀ m', l.HeldBy r m' ↔ t'.HoldsFile s path m')
    (hmutex : ∀ s, t'.HoldsMutex s ↔ t.HoldsMutex s)
    (hfiles : ∀ s' path' m', s' ≠ s ∨ path' ≠ path →
      ¬t.HoldsFile s' path' m' ∧ ¬t'.HoldsFile s' path' m')
    (hlocated : t'.Located sh.tables) :
    FileExchanged sh r (sh.setTable s ((sh.tables s).setLock n l)) t' := by
  have hfinds : ∀ s' path', ((sh.setTable s ((sh.tables s).setLock n l)).tables s').find path' =
      (sh.tables s').find path' := by
    intro s' path'
    rw [sh.tables_setTable]
    by_cases hs : s' = s
    · subst hs
      rw [Function.update_self, FileLockTable.find_setLock]
    · rw [Function.update_of_ne hs]
  have hlocks : ∀ s' n', ((sh.setTable s ((sh.tables s).setLock n l)).tables s').lock n' =
      if s' = s ∧ n' = n then l else (sh.tables s').lock n' := by
    intro s' n'
    rw [sh.tables_setTable]
    by_cases hs : s' = s
    · subst hs
      simp [FileLockTable.lock_setLock]
    · simp [hs]
  have hlocated' : ∀ t : FileThread, t.Located sh.tables →
      t.Located (sh.setTable s ((sh.tables s).setLock n l)).tables := fun t h =>
    h.kept fun s' path' n' h => (hfinds s' path').trans h
  refine ⟨fun s' => ?_, ⟨fun s' => ?_, fun s' n' m' => ?_, hlocated' t' hlocated⟩,
    fun q t hq hold => ?_⟩
  · rw [sh.tables_setTable]
    by_cases hs : s' = s
    · subst hs
      rw [Function.update_self]
      exact (hwf s').setLock n hl
    · rw [Function.update_of_ne hs]
      exact hwf s'
  · rw [sh.mutexes_setTable, ht.mutex, hmutex]
  · simp only [hlocks, hfinds]
    split_ifs with h
    · obtain ⟨rfl, rfl⟩ := h
      rw [hmine]
      constructor
      · exact fun hholds => ⟨path, hfind, hholds⟩
      · rintro ⟨path', hfind', hholds⟩
        obtain rfl := FileLockTable.find_inj hfind hfind'
        exact hholds
    · rw [ht.files]
      -- the thread holds no lock besides this one
      have hother : ∀ path', (sh.tables s').find path' = some n' → s' ≠ s ∨ path' ≠ path := by
        intro path' hfind'
        by_contra hnot
        rw [not_or, not_not, not_not] at hnot
        obtain ⟨rfl, rfl⟩ := hnot
        exact h ⟨rfl, Option.some.inj (hfind'.symm.trans hfind)⟩
      constructor
      · rintro ⟨path', hfind', hholds⟩
        exact absurd hholds (hfiles s' path' m' (hother path' hfind')).1
      · rintro ⟨path', hfind', hholds⟩
        exact absurd hholds (hfiles s' path' m' (hother path' hfind')).2
  · refine hold.kept (fun s' => ?_) (fun s' n' m' => ?_) (fun s' path' n' h => ?_)
      (fun _ _ _ => Iff.rfl) (hlocated' t hold.located)
    · rw [sh.mutexes_setTable, hold.mutex]
    · rw [hlocks]
      split_ifs with h
      · obtain ⟨rfl, rfl⟩ := h
        exact hothers q m' hq
      · rfl
    · exact (hfinds s' path').trans h

/-- What the step of a handler makes of the locks. -/
theorem FileThreadStep.exchanged {fails : Prop} {es : List FileEvent}
    (hwf : ∀ s, (sh.tables s).WellFormed) (ht : FileOwns sh r t)
    (hstep : FileThreadStep r sh fails t sh' t' es) :
    FileExchanged sh r sh' t' := by
  have hlocated := ht.located
  cases hstep with
  | acquire hfree =>
      exact ht.taken hwf hfree (fun _ => id) (fun _ => Iff.rfl) (fun _ _ _ => Iff.rfl) trivial
  | @find job node table malloc hmalloc hnode =>
      have hobtained := FileLockTable.obtained (hwf job.server) job.path malloc
      change (sh.tables job.server).getOrCreateFileLockNode job.path malloc = _ at hnode
      rw [hnode] at hobtained
      refine ht.found hwf hobtained (fun _ => Iff.rfl) (fun _ _ _ => Iff.rfl) ?_
      cases node with
      | none => trivial
      | some n =>
          change (Function.update sh.tables job.server table job.server).find job.path = some n
          rw [Function.update_self]
          exact hobtained.found n rfl
  | leave =>
      exact ht.given hwf (fun _ => Iff.rfl) (fun _ => id) (fun _ _ _ => Iff.rfl) hlocated
  | leaveFailed =>
      exact ht.given hwf (fun _ => Iff.rfl) (fun _ => id) (fun _ _ _ => Iff.rfl) trivial
  | lockFailed =>
      exact ht.exchanged_same hwf rfl rfl (fun _ => Iff.rfl) (fun _ _ _ => Iff.rfl) trivial
  | @lock job n hgrant =>
      change ((sh.tables job.server).lock n).Grantable job.op.mode at hgrant
      have hnone : ∀ m', ¬((sh.tables job.server).lock n).HeldBy r m' := by
        intro m' h
        obtain ⟨path, -, hholds⟩ := (ht.files _ _ _).mp h
        exact hholds
      refine ht.relocked hwf hlocated (((hwf job.server).locks n).acquire hgrant (hnone _))
        (fun q m' hq => ?_) (fun m' => ?_) (fun _ => Iff.rfl) (fun s' path' m' hne => ?_)
        ⟨n, hlocated⟩
      · refine (RwLock.heldBy_acquire hgrant).trans ?_
        simp [hq]
      · refine (RwLock.heldBy_acquire hgrant).trans ?_
        rw [or_iff_right (hnone m')]
        exact ⟨fun h => ⟨rfl, rfl, h.2.symm⟩, fun h => ⟨rfl, h.2.2.symm⟩⟩
      · exact ⟨id, fun h => hne.elim (fun hs => hs h.1.symm) fun hp => hp h.2.1.symm⟩
  | operate os hdone hop =>
      exact ht.exchanged_same hwf (sh.tables_setFs _ _) (sh.mutexes_setFs _ _) (fun _ => Iff.rfl)
        (fun _ _ _ => Iff.rfl) hlocated
  | act os =>
      exact ht.exchanged_same hwf (sh.tables_setFs _ _) (sh.mutexes_setFs _ _) (fun _ => Iff.rfl)
        (fun _ _ _ => Iff.rfl) hlocated
  | acquireAgain hfree =>
      exact ht.taken hwf hfree (fun _ => id) (fun _ => Iff.rfl) (fun _ _ _ => Iff.rfl) hlocated
  | @unlock job result n hfind =>
      change (sh.tables job.server).find job.path = some n at hfind
      have hheld : ((sh.tables job.server).lock n).HeldBy r job.op.mode :=
        (ht.files _ _ _).mpr ⟨job.path, hfind, rfl, rfl, rfl⟩
      have hrelease : ∀ q m', (((sh.tables job.server).lock n).release r job.op.mode).HeldBy q m' ↔
          ((sh.tables job.server).lock n).HeldBy q m' ∧ ¬(q = r ∧ m' = job.op.mode) :=
        fun q m' => RwLock.heldBy_release ((hwf job.server).locks n) hheld
      refine ht.relocked hwf hfind (((hwf job.server).locks n).release r _)
        (fun q m' hq => ?_) (fun m' => ?_) (fun _ => Iff.rfl) (fun s' path' m' hne => ?_) trivial
      · refine (hrelease q m').trans ?_
        simp [hq]
      · refine (hrelease r m').trans ?_
        rw [ht.files]
        refine iff_of_false (fun h => ?_) id
        obtain ⟨⟨path, -, -, -, hmode⟩, hnot⟩ := h
        exact hnot ⟨rfl, hmode.symm⟩
      · exact ⟨fun h => hne.elim (fun hs => hs h.1.symm) fun hp => hp h.2.1.symm, id⟩
  | @unlockNothing job result hfind =>
      obtain ⟨n, hn⟩ := hlocated
      cases hn.symm.trans hfind
  | leaveAgain =>
      exact ht.given hwf (fun _ => Iff.rfl) (fun _ => id) (fun _ _ _ => Iff.rfl) trivial
  | answer =>
      exact ht.exchanged_same hwf rfl rfl (fun _ => Iff.rfl) (fun _ _ _ => Iff.rfl) trivial
  | answerCopy hmail hes =>
      exact ht.exchanged_same hwf rfl rfl (fun _ => Iff.rfl) (fun _ _ _ => Iff.rfl) trivial
  | copyFailed =>
      exact ht.exchanged_same hwf rfl rfl (fun _ => Iff.rfl) (fun _ _ _ => Iff.rfl) trivial
  | copy =>
      exact ht.exchanged_same hwf rfl rfl (fun _ => Iff.rfl) (fun _ _ _ => Iff.rfl) trivial
  | send =>
      exact ht.exchanged_same hwf rfl rfl (fun _ => Iff.rfl) (fun _ _ _ => Iff.rfl) trivial
  | sendFailed =>
      exact ht.exchanged_same hwf rfl rfl (fun _ => Iff.rfl) (fun _ _ _ => Iff.rfl) trivial
  | receive =>
      exact ht.exchanged_same hwf rfl rfl (fun _ => Iff.rfl) (fun _ _ _ => Iff.rfl) trivial

/-- A handler that operates is not done. -/
def FileThread.Running : FileThread → Prop
  | .operating _ (.done _) => False
  | _ => True

theorem FileThreadStep.running {fails : Prop} {es : List FileEvent}
    (hstep : FileThreadStep r sh fails t sh' t' es) : t'.Running := by
  cases hstep with
  | @operate job st fs st' os hdone =>
      cases st' with
      | done result => exact hdone result rfl
      | _ => trivial
  | _ => trivial

theorem FileThreadStart.exchanged {es : List FileEvent} (hwf : ∀ s, (sh.tables s).WellFormed)
    (ht : FileOwns sh r .idle) (hstart : FileThreadStart sh sh' t' es) :
    FileExchanged sh r sh' t' := by
  cases hstart <;>
    exact ht.exchanged_same hwf rfl rfl (fun _ => Iff.rfl) (fun _ _ _ => Iff.rfl) trivial

theorem FileThreadStart.running {es : List FileEvent} (hstart : FileThreadStart sh sh' t' es) :
    t'.Running := by
  cases hstart <;> trivial

/-! ### Runs -/

/-- Between the steps of the handlers. -/
structure FileLockInvariant (w : FileWorld) : Prop where
  wellFormed : ∀ s, (w.shared.tables s).WellFormed
  owns : ∀ r, FileOwns w.shared r (w.locals r)
  running : ∀ r, (w.locals r).Running

theorem fileLockInvariant_start (files : ℕ → FileSystem) :
    FileLockInvariant (fileStart files) where
  wellFormed s := FileLockTable.wellFormed_init
  owns r :=
    { mutex := fun s => iff_of_false (by simp [fileStart, World.start, FileShared.mutexes]) id
      files := fun s n m => by
        refine iff_of_false ?_ fun ⟨path, hfind, _⟩ => ?_
        · cases m <;> simp [fileStart, World.start, FileShared.tables, FileLockTable.init,
            FileLockTable.lock, RwLock.HeldBy, RwLock.free]
        · cases hfind
      located := trivial }
  running r := trivial

variable {route : CString → Int32 → Option ℕ} {w : FileWorld} {a : FileAction}
  {x : FileShared × FileThread × List FileEvent}

theorem FileLockInvariant.after (hw : FileLockInvariant w)
    (hx : fileProcess route r w.shared (w.locals r) a = some x) :
    FileLockInvariant (w.after r x) := by
  have hexchanged : FileExchanged w.shared r x.1 x.2.1 := by
    have howns := hw.owns r
    rcases fileProcess_cases hx with ⟨hidle, hstart⟩ | hstep
    · rw [hidle] at howns
      exact hstart.exchanged hw.wellFormed howns
    · exact hstep.exchanged hw.wellFormed howns
  have hrunning : x.2.1.Running := by
    rcases fileProcess_cases hx with ⟨-, hstart⟩ | hstep
    · exact hstart.running
    · exact hstep.running
  refine ⟨hexchanged.wellFormed, fun q => ?_, fun q => ?_⟩ <;> by_cases hq : q = r
  · subst hq
    rw [World.locals_after_self]
    exact hexchanged.owns
  · rw [World.locals_after_ne hq]
    exact hexchanged.others q _ hq (hw.owns q)
  · subst hq
    rw [World.locals_after_self]
    exact hrunning
  · rw [World.locals_after_ne hq]
    exact hw.running q

theorem fileLockInvariant_of_run {files : ℕ → FileSystem} {actions : List (ℕ × FileAction)}
    (hrun : Machine.run (fileStep route) (fileStart files) actions = some w) :
    FileLockInvariant w := by
  refine Machine.run_invariant (fileLockInvariant_start files) ?_ hrun
  rintro v ⟨r, a⟩ v' hv hstep
  obtain ⟨x, hx, rfl⟩ := step_eq_some.mp hstep
  exact hv.after hx

/-- Two handlers hold the lock of one path at once only to read. -/
theorem FileLockInvariant.exclusive (hw : FileLockInvariant w) {q : ℕ} {path : Path}
    {m' : Mode} (hr : (w.locals r).HoldsFile s path .write)
    (hq : (w.locals q).HoldsFile s path m') : q = r := by
  obtain ⟨n, hn⟩ := hr.located (hw.owns r).located
  have hwrite := ((hw.owns r).files s n .write).mpr ⟨path, hn, hr⟩
  have hheld := ((hw.owns q).files s n m').mpr ⟨path, hn, hq⟩
  exact (((hw.wellFormed s).locks n).writer_alone hwrite hheld).1

/-- A lock is granted only where no conflicting operation goes on. -/
theorem FileLockInvariant.not_holdsFile (hw : FileLockInvariant w) {s n : ℕ} {path : Path}
    {m m' : Mode} (hfind : (w.shared.tables s).find path = some n)
    (hgrant : ((w.shared.tables s).lock n).Grantable m) (hconflict : m = .write ∨ m' = .write)
    (q : ℕ) : ¬(w.locals q).HoldsFile s path m' := fun h =>
  hgrant.not_heldBy hconflict (((hw.owns q).files s n m').mpr ⟨path, hfind, h⟩)

end NetworkFileSystem
