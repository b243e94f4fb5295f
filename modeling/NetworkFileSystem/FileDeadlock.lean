import NetworkFileSystem.FileOwnership

/-!
# The storage servers do not deadlock on file locks

A handler waits for a file lock only before it holds one, for `file_locks_mutex` only while its
holder goes on, and for the network only without a lock. The handler that a COPY_FILE waits for
waits for no other handler over the network.
-/

namespace NetworkFileSystem

open Locks Interleaving

namespace FileThread

def Unfinished (t : FileThread) : Prop := t ≠ idle ∧ t ≠ finished

/-- Connects, sends, or waits for a reply. -/
def WaitsForNetwork : FileThread → Prop
  | .answering _ _ | .connecting _ _ | .awaiting => True
  | _ => False

/-- Waits for a file lock, or for the mutex to look it up. -/
def WaitsForFile : FileThread → Prop
  | .acquiring _ | .locking _ _ => True
  | _ => False

/-- Handles the request of a COPY_FILE that is handled by the thread `r`. -/
def Serves (r : ℕ) : FileThread → Prop
  | .acquiring job | .finding job | .obtained job _ | .locking job _ | .operating job _
  | .releasing job _ | .unlocking job _ | .unlocked job _ | .answering job _ =>
    job.next = .answerCopy r
  | _ => False

end FileThread

/-- Neither a new request nor a failure: a message is delivered, or a handler goes on, and a lock
is granted where it is free. -/
def FileAction.IsProgress : FileAction → Prop
  | .accept _ => True
  | .step os | .transfer os => os.Works
  | _ => False

/-- Some handler can take a step. -/
def FileProgress (route : CString → Int32 → Option ℕ) (w : FileWorld) : Prop :=
  ∃ r a, a.IsProgress ∧ (fileStep route w (r, a)).isSome

variable {route : CString → Int32 → Option ℕ} {w : FileWorld} {sh sh' : FileShared}
  {q r s : ℕ} {t t' : FileThread} {es : List FileEvent} {fails : Prop}

theorem fileProgress_of_isSome {a : FileAction} (ha : a.IsProgress)
    (h : (fileProcess route r w.shared (w.locals r) a).isSome) : FileProgress route w := by
  refine ⟨r, a, ha, ?_⟩
  obtain ⟨x, hx⟩ := Option.isSome_iff_exists.mp h
  exact Option.isSome_iff_exists.mpr ⟨_, step_eq_some.mpr ⟨x, hx, rfl⟩⟩

theorem Os.works_ok : Os.ok.Works := by decide

theorem fileProgress_of_step (h : (fileThreadStep route r w.shared .ok (w.locals r)).isSome) :
    FileProgress route w :=
  fileProgress_of_isSome (a := .step .ok) Os.works_ok h

theorem isSome_afterStep {job : FileJob} {os : Os} {y : Option (FileSystem × OpState)}
    (hy : y.isSome) : (afterStep sh job os y).isSome := by
  obtain ⟨⟨fs, st⟩, rfl⟩ := Option.isSome_iff_exists.mp hy
  cases st <;> rfl

theorem isSome_answerStep (job : FileJob) (result : FileReturn) :
    (answerStep sh job result).isSome := by
  rw [answerStep]
  split
  · rfl
  · rfl
  · split_ifs <;> rfl

/-- The holder of `file_locks_mutex` goes on. -/
theorem isSome_of_holdsMutex (os : Os) (h : t.HoldsMutex s) :
    (fileThreadStep route r sh os t).isSome := by
  cases t with
  | finding job => rfl
  | obtained job node => cases node <;> rfl
  | unlocking job result =>
      rw [fileThreadStep]
      split <;> rfl
  | unlocked job result => rfl
  | _ => cases h

/-- Where `file_locks_mutex` is wanted, a handler goes on. -/
theorem FileLockInvariant.progress_of_mutex (hw : FileLockInvariant w)
    (hwants : w.shared.mutexes s = none → FileProgress route w) : FileProgress route w := by
  by_cases hfree : w.shared.mutexes s = none
  · exact hwants hfree
  · obtain ⟨q, hq⟩ := Option.ne_none_iff_exists'.mp hfree
    exact fileProgress_of_step (isSome_of_holdsMutex .ok (((hw.owns q).mutex s).mp hq))

/-- The holder of a file lock goes on, or waits for `file_locks_mutex`. -/
theorem FileLockInvariant.progress_of_holder (hw : FileLockInvariant w) {path : Path} {m : Mode}
    (h : (w.locals r).HoldsFile s path m) : FileProgress route w := by
  have hrunning := hw.running r
  cases ht : w.locals r with
  | operating job st =>
      rw [ht] at hrunning
      have hst : ∀ result, st ≠ .done result := by
        rintro result rfl
        exact hrunning
      have hcases : ((w.shared.servers job.server).fs.opStep job.path .ok job.op st).isSome ∨
          ((w.shared.servers job.server).fs.transferStep .ok st).isSome :=
        FileSystem.isSome_opStep_or_transferStep Os.works_ok hst
      rcases hcases with hop | htransfer
      · refine fileProgress_of_step (r := r) ?_
        rw [ht]
        exact isSome_afterStep hop
      · refine fileProgress_of_isSome (r := r) (a := .transfer .ok) Os.works_ok ?_
        rw [ht]
        exact isSome_afterStep htransfer
  | releasing job result =>
      refine hw.progress_of_mutex
        fun (hfree : (w.shared.servers job.server).fileLocksMutex = none) =>
          fileProgress_of_step (r := r) ?_
      rw [ht, fileThreadStep, if_pos hfree]
      rfl
  | unlocking job result =>
      refine fileProgress_of_step (r := r) (isSome_of_holdsMutex (s := job.server) .ok ?_)
      rw [ht]
      rfl
  | _ =>
      rw [ht] at h
      cases h

/-- Unless it waits for the reply to a COPY_FILE. -/
theorem FileLockInvariant.progress_of_unfinished (hw : FileLockInvariant w)
    (h : (w.locals r).Unfinished) (hawaiting : w.locals r ≠ .awaiting) : FileProgress route w := by
  have hstep : (fileThreadStep route r w.shared .ok (w.locals r)).isSome →
      FileProgress route w := fileProgress_of_step
  cases ht : w.locals r with
  | idle => exact absurd ht h.1
  | finished => exact absurd ht h.2
  | awaiting => exact absurd ht hawaiting
  | acquiring job =>
      refine hw.progress_of_mutex
        fun (hfree : (w.shared.servers job.server).fileLocksMutex = none) => hstep ?_
      rw [ht, fileThreadStep, if_pos hfree]
      rfl
  | locking job n =>
      by_cases hgrant : ((w.shared.servers job.server).fileLocks.lock n).Grantable job.op.mode
      · refine hstep ?_
        rw [ht, fileThreadStep, if_neg (by simp [Os.ok]), if_pos hgrant]
        rfl
      · obtain ⟨q, m, hq⟩ := RwLock.exists_holder hgrant
        obtain ⟨path, -, hholds⟩ := ((hw.owns q).files _ _ _).mp hq
        exact hw.progress_of_holder hholds
  | releasing job result =>
      have hholds : (w.locals r).HoldsFile job.server job.path job.op.mode :=
        ht ▸ ⟨rfl, rfl, rfl⟩
      exact hw.progress_of_holder hholds
  | operating job st =>
      have hholds : (w.locals r).HoldsFile job.server job.path job.op.mode :=
        ht ▸ ⟨rfl, rfl, rfl⟩
      exact hw.progress_of_holder hholds
  | answering job result =>
      refine hstep ?_
      rw [ht]
      exact isSome_answerStep job result
  | connecting msg bytes =>
      refine hstep ?_
      rw [ht, fileThreadStep]
      split <;> rfl
  | finding job => exact hstep (isSome_of_holdsMutex (s := job.server) .ok (ht ▸ rfl))
  | obtained job node => exact hstep (isSome_of_holdsMutex (s := job.server) .ok (ht ▸ rfl))
  | unlocking job result => exact hstep (isSome_of_holdsMutex (s := job.server) .ok (ht ▸ rfl))
  | unlocked job result => exact hstep (isSome_of_holdsMutex (s := job.server) .ok (ht ▸ rfl))

/-! ### Waiting for a reply -/

def Mail.Requested : Mail → Prop
  | .request _ msg => (Port.client.fileOperation msg).isSome
  | _ => False

def Mail.Answered : Mail → Prop
  | .reply _ | .closed => True
  | _ => False

/-- The request of a COPY_FILE that waits is on its way, or handled, or answered. -/
def MailInvariant (w : FileWorld) : Prop :=
  ∀ p, w.locals p = .awaiting → (w.shared.mail p).Requested ∨
    (∃ q, (w.locals q).Serves p) ∨ (w.shared.mail p).Answered

theorem FileShared.mail_setMail (sh : FileShared) (q : ℕ) (mail : Mail) (p : ℕ) :
    (sh.setMail q mail).mail p = if p = q then mail else sh.mail p :=
  Function.update_apply _ _ _ _

variable {p : ℕ}

/-- What the step of a handler makes of the message of another one. -/
theorem FileThreadStep.mail (hp : p ≠ r) (hstep : FileThreadStep r sh fails t sh' t' es) :
    sh'.mail p = sh.mail p ∧ (t.Serves p → t'.Serves p) ∨ (sh'.mail p).Answered := by
  cases hstep with
  | @answerCopy call q result mail es hmail hes =>
      rw [sh.mail_setMail]
      by_cases hq : p = q
      · rw [if_pos hq]
        rcases hmail with rfl | ⟨msg, rfl⟩ <;> exact Or.inr trivial
      · rw [if_neg hq]
        exact Or.inl ⟨rfl, fun h => absurd (FollowUp.answerCopy.inj h).symm hq⟩
  | send =>
      rw [sh.mail_setMail, if_neg hp]
      exact Or.inl ⟨rfl, False.elim⟩
  | answer => exact Or.inl ⟨rfl, fun h => by cases h⟩
  | copyFailed => exact Or.inl ⟨rfl, fun h => by cases h⟩
  | copy => exact Or.inl ⟨rfl, fun h => by cases h⟩
  | _ => exact Or.inl ⟨rfl, id⟩

/-- A handler that starts to wait has sent a request. -/
theorem FileThreadStep.requested (hstep : FileThreadStep r sh fails t sh' .awaiting es) :
    (sh'.mail r).Requested := by
  cases hstep with
  | send =>
      rw [sh.mail_setMail, if_pos rfl]
      rfl

theorem FileThreadStart.mail (hstart : FileThreadStart sh sh' t' es) :
    sh'.mail p = sh.mail p ∨ ¬(sh.mail p).Answered ∧ ((sh.mail p).Requested → t'.Serves p) := by
  cases hstart with
  | @accept q s msg op hmail hop =>
      rw [sh.mail_setMail]
      by_cases hq : p = q
      · subst hq
        rw [hmail]
        exact Or.inr ⟨id, fun _ => rfl⟩
      · rw [if_neg hq]
        exact Or.inl rfl
  | @acceptInvalid q s msg hmail hop response =>
      rw [sh.mail_setMail]
      by_cases hq : p = q
      · subst hq
        rw [hmail, Mail.Requested, hop]
        exact Or.inr ⟨id, fun h => by cases h⟩
      · rw [if_neg hq]
        exact Or.inl rfl
  | _ => exact Or.inl rfl

theorem FileThreadStart.ne_awaiting (hstart : FileThreadStart sh sh' t' es) :
    t' ≠ .awaiting := by
  cases hstart <;> simp

variable {a : FileAction} {x : FileShared × FileThread × List FileEvent}

theorem MailInvariant.after (hw : MailInvariant w)
    (hx : fileProcess route r w.shared (w.locals r) a = some x) :
    MailInvariant (w.after r x) := by
  obtain ⟨sh', t', es⟩ := x
  intro p hp
  by_cases hpr : p = r
  · subst hpr
    rw [World.locals_after_self] at hp
    change t' = .awaiting at hp
    subst hp
    rcases fileProcess_cases hx with ⟨-, hstart⟩ | hstep
    · exact absurd rfl hstart.ne_awaiting
    · exact Or.inl hstep.requested
  · rw [World.locals_after_ne hpr] at hp
    have hkept : ((w.locals r).Serves p → t'.Serves p) → (∃ q, (w.locals q).Serves p) →
        ∃ q, ((w.after r (sh', t', es)).locals q).Serves p := by
      rintro hr ⟨q, hq⟩
      by_cases hqr : q = r
      · subst hqr
        exact ⟨q, by rw [World.locals_after_self]; exact hr hq⟩
      · exact ⟨q, by rwa [World.locals_after_ne hqr]⟩
    have hmine : t'.Serves p → ∃ q, ((w.after r (sh', t', es)).locals q).Serves p := fun h =>
      ⟨r, by rwa [World.locals_after_self]⟩
    rw [World.shared_after]
    rcases fileProcess_cases hx with ⟨hidle, hstart⟩ | hstep
    · have hserves : (w.locals r).Serves p → t'.Serves p := by
        rw [hidle]
        exact False.elim
      rcases hstart.mail (p := p) with hmail | ⟨hanswered, hrequested⟩
      · exact (hw p hp).imp (hmail ▸ id) (Or.imp (hkept hserves) (hmail ▸ id))
      · rcases hw p hp with h | h | h
        · exact Or.inr (Or.inl (hmine (hrequested h)))
        · exact Or.inr (Or.inl (hkept hserves h))
        · exact absurd h hanswered
    · rcases hstep.mail hpr with ⟨hmail, hserves⟩ | hanswered
      · exact (hw p hp).imp (hmail ▸ id) (Or.imp (hkept hserves) (hmail ▸ id))
      · exact Or.inr (Or.inr hanswered)

theorem mailInvariant_of_run {files : ℕ → FileSystem} {actions : List (ℕ × FileAction)}
    (hrun : Machine.run (fileStep route) (fileStart files) actions = some w) :
    MailInvariant w := by
  have hstart : MailInvariant (fileStart files) := by
    intro p hp
    cases hp
  refine Machine.run_invariant hstart ?_ hrun
  rintro v ⟨r, a⟩ v' hv hstep
  obtain ⟨x, hx, rfl⟩ := step_eq_some.mp hstep
  exact hv.after hx

theorem FileThread.Serves.unfinished (h : t.Serves p) : t.Unfinished ∧ t ≠ .awaiting := by
  cases t <;> first | exact h.elim | simp [FileThread.Unfinished]

/-- Its request can be received, or the handler that has received it goes on, or the reply can be
received. -/
theorem MailInvariant.progress_of_awaiting (hw : MailInvariant w) (hlocks : FileLockInvariant w)
    (hidle : ∃ q, w.locals q = .idle) (h : w.locals p = .awaiting) : FileProgress route w := by
  rcases hw p h with hrequested | ⟨q, hq⟩ | hanswered
  · obtain ⟨q, hq⟩ := hidle
    refine ⟨q, .accept p, trivial, ?_⟩
    cases hmail : w.shared.mail p with
    | request s msg =>
        rw [hmail] at hrequested
        obtain ⟨op, hop⟩ := Option.isSome_iff_exists.mp hrequested
        have hstep : fileProcess route q w.shared .idle (.accept p) =
            some (w.shared.setMail p .serving,
              .acquiring ⟨⟨s, msg.path.str, op⟩, .answerCopy p⟩,
              [.started ⟨⟨s, msg.path.str, op⟩, .answerCopy p⟩]) := by
          simp only [fileProcess, hmail, handle, hop]
        rw [← hq] at hstep
        exact Option.isSome_iff_exists.mpr ⟨_, step_eq_some.mpr ⟨_, hstep, rfl⟩⟩
    | _ =>
        rw [hmail] at hrequested
        cases hrequested
  · exact hlocks.progress_of_unfinished hq.unfinished.1 hq.unfinished.2
  · refine fileProgress_of_step (r := p) ?_
    rw [h, fileThreadStep]
    cases hmail : w.shared.mail p with
    | reply msg => rfl
    | closed => rfl
    | _ =>
        rw [hmail] at hanswered
        cases hanswered

/-! ### The main result -/

theorem FileThread.HoldsFile.not_waits {path : Path} {m : Mode} (h : t.HoldsFile s path m) :
    ¬t.WaitsForNetwork ∧ ¬t.WaitsForFile := by
  cases t <;> first | exact h.elim | exact ⟨id, id⟩

theorem FileThread.not_holds (h : ¬t.Unfinished) (s : ℕ) :
    ¬t.HoldsMutex s ∧ ∀ path m, ¬t.HoldsFile s path m := by
  cases t <;> first
    | exact ⟨id, fun _ _ => id⟩
    | exact absurd (by simp [FileThread.Unfinished]) h

/-- A lock that nobody holds is free. -/
theorem FileLockInvariant.locks_free (hw : FileLockInvariant w)
    (h : ∀ r, ¬(w.locals r).Unfinished) (s n : ℕ) : (w.shared.tables s).lock n = .free := by
  refine RwLock.eq_free fun q m hq => ?_
  obtain ⟨path, -, hholds⟩ := ((hw.owns q).files s n m).mp hq
  exact ((w.locals q).not_holds (h q) s).2 path m hholds

/-- A COPY_FILE of a file onto itself, up to the write. -/
def copyOntoItself : List (ℕ × FileAction) :=
  [(0, .start .nm 0 { Message.zero with
      operation := .copyFile, path := .ofBytes _ [47, 97], path2 := .ofBytes _ [47, 97] })] ++
    List.replicate 5 (0, .step .ok) ++ [(0, .transfer .ok)] ++ List.replicate 6 (0, .step .ok) ++
    [(1, .accept 0)] ++ List.replicate 4 (1, .step .ok)

end NetworkFileSystem
