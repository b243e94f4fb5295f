import NetworkFileSystem.FileOwnership

/-!
# What the handlers record

Each handler starts, calls its operation, and replies with what comes of it, in this order. Where
two calls on a file conflict, the first one to get the lock has returned when the second one gets
it.
-/

namespace NetworkFileSystem

open Locks Interleaving

/-- What a handler replies once its operation has ended with the result. -/
def FileJob.Answers (job : FileJob) (result : FileReturn) (response : Message) : Prop :=
  match job.next with
  | .answer | .answerCopy _ => response = result.reply
  | .copy _ => result.code ≠ .success → response = .nack result.code

/-- The events up to the end of the operation, or up to where the lock could not be had. `blame`
is what a failure is put down to. -/
def FileJob.Ended (blame : Prop) (job : FileJob) (result : FileReturn) (es : List FileEvent) :
    Prop :=
  (result.failed = true → blame) ∧
    (es = [.started job, .call (.invoked job.toFileCall), .call (.acted job.toFileCall result),
      .call (.returned job.toFileCall result)] ∨
    es = [.started job] ∧ result = .inUse)

/-- The events of a handler. -/
def FileThread.Logged (blame : Prop) : FileThread → List FileEvent → Prop
  | .idle, es => es = []
  | .acquiring job, es | .finding job, es | .locking job _, es => es = [.started job]
  | .obtained job node, es => es = [.started job] ∧ (node = none → blame)
  | .operating job _, es => es = [.started job, .call (.invoked job.toFileCall)]
  | .releasing job result, es | .unlocking job result, es =>
    es = [.started job, .call (.invoked job.toFileCall), .call (.acted job.toFileCall result)] ∧
      (result.failed = true → blame)
  | .unlocked job result, es | .answering job result, es => job.Ended blame result es
  | .connecting msg _, es => ∃ (job : FileJob) (result : FileReturn),
    job.next = .copy msg ∧ result.code = .success ∧ job.Ended blame result es
  | .awaiting, es => ∃ (msg : Message) (job : FileJob) (result : FileReturn),
    job.next = .copy msg ∧ result.code = .success ∧ job.Ended blame result es
  | .finished, es => (∃ response, es = [.replied response]) ∨
    ∃ (job : FileJob) (result : FileReturn) (es' rest : List FileEvent),
      job.Ended blame result es' ∧ es = es' ++ rest ∧
        ∀ e ∈ rest, ∃ response, e = .replied response ∧ job.Answers result response

variable {sh sh' : FileShared} {r : ℕ} {t t' : FileThread} {es es' : List FileEvent}
  {blame blame' fails : Prop}

theorem FileJob.Ended.mono {job : FileJob} {result : FileReturn} (h : job.Ended blame result es)
    (hblame : blame → blame') : job.Ended blame' result es :=
  ⟨fun hfailed => hblame (h.1 hfailed), h.2⟩

theorem FileThread.Logged.mono (h : t.Logged blame es) (hblame : blame → blame') :
    t.Logged blame' es := by
  cases t with
  | obtained job node => exact ⟨h.1, fun hnode => hblame (h.2 hnode)⟩
  | releasing job result | unlocking job result =>
      exact ⟨h.1, fun hfailed => hblame (h.2 hfailed)⟩
  | unlocked job result | answering job result => exact FileJob.Ended.mono h hblame
  | connecting msg bytes =>
      obtain ⟨job, result, hnext, hcode, hended⟩ := h
      exact ⟨job, result, hnext, hcode, hended.mono hblame⟩
  | awaiting =>
      obtain ⟨msg, job, result, hnext, hcode, hended⟩ := h
      exact ⟨msg, job, result, hnext, hcode, hended.mono hblame⟩
  | finished =>
      rcases h with hreplied | ⟨job, result, es', rest, hended, heq, hrest⟩
      · exact Or.inl hreplied
      · exact Or.inr ⟨job, result, es', rest, hended.mono hblame, heq, hrest⟩
  | _ => exact h

/-- The reply ends the handler. -/
theorem FileThread.Logged.finish {job : FileJob} {result : FileReturn} {response : Message}
    (h : job.Ended blame result es) (hanswers : job.Answers result response) :
    FileThread.finished.Logged blame (es ++ [.replied response]) := by
  refine Or.inr ⟨job, result, es, [.replied response], h, rfl, fun e he => ?_⟩
  exact ⟨response, List.mem_singleton.mp he, hanswers⟩

/-- The reply of a COPY_FILE that has read its source is that of the destination. -/
theorem FileJob.answers_copy {job : FileJob} {msg : Message} {result : FileReturn}
    (hnext : job.next = .copy msg) (hcode : result.code = .success) (response : Message) :
    job.Answers result response := by
  rw [Answers, hnext]
  exact fun h => absurd hcode h

theorem FileThreadStep.logged (hlocated : t.Located sh.tables) (hfails : fails → blame)
    (hstep : FileThreadStep r sh fails t sh' t' es') (h : t.Logged blame es) :
    t'.Logged blame (es ++ es') := by
  cases hstep with
  | acquire => exact (List.append_nil es).trans h
  | @find job node table malloc hmalloc hnode =>
      refine ⟨(List.append_nil es).trans h, fun hnone => hfails (hmalloc ?_)⟩
      exact FileLockTable.malloc_of_obtained_none (hnone ▸ congrArg Prod.fst hnode)
  | leave => exact (List.append_nil es).trans h.1
  | leaveFailed => exact ⟨fun _ => h.2 rfl, Or.inr ⟨(List.append_nil es).trans h.1, rfl⟩⟩
  | lockFailed hfail =>
      exact ⟨fun _ => hfails hfail, Or.inr ⟨(List.append_nil es).trans h, rfl⟩⟩
  | lock => exact congrArg (· ++ _) h
  | operate => exact (List.append_nil es).trans h
  | act os hfailed => exact ⟨congrArg (· ++ _) h, fun hf => hfails (hfailed hf)⟩
  | acquireAgain => exact ⟨(List.append_nil es).trans h.1, h.2⟩
  | unlock => exact ⟨h.2, Or.inl (congrArg (· ++ _) h.1)⟩
  | unlockNothing hfind =>
      obtain ⟨n, hn⟩ := hlocated
      cases hn.symm.trans hfind
  | leaveAgain =>
      rw [List.append_nil]
      exact h
  | @answer call result =>
      have hended : FileJob.Ended blame ⟨call, .answer⟩ result es := h
      have hanswers : FileJob.Answers ⟨call, .answer⟩ result result.reply := rfl
      exact .finish hended hanswers
  | @answerCopy call q result mail _ hmail hes =>
      have hended : FileJob.Ended blame ⟨call, .answerCopy q⟩ result es := h
      have hanswers : FileJob.Answers ⟨call, .answerCopy q⟩ result result.reply := rfl
      rcases hes with hes | hes <;> rw [hes]
      · exact Or.inr ⟨_, result, es, [], hended, rfl, fun _ he => absurd he List.not_mem_nil⟩
      · exact .finish hended hanswers
  | @copyFailed call msg result hcode =>
      have hended : FileJob.Ended blame ⟨call, .copy msg⟩ result es := h
      exact .finish hended fun _ => rfl
  | @copy call msg result hcode =>
      rw [List.append_nil]
      exact ⟨⟨call, .copy msg⟩, result, rfl, hcode, h⟩
  | send =>
      rw [List.append_nil]
      exact ⟨_, h⟩
  | sendFailed =>
      obtain ⟨job, result, hnext, hcode, hended⟩ := h
      exact .finish hended (job.answers_copy hnext hcode _)
  | receive =>
      obtain ⟨msg, job, result, hnext, hcode, hended⟩ := h
      exact .finish hended (job.answers_copy hnext hcode _)

theorem FileThreadStart.logged (hstart : FileThreadStart sh sh' t' es) : t'.Logged blame es := by
  cases hstart with
  | start => rfl
  | invalid response => exact Or.inl ⟨response, rfl⟩
  | accept => rfl
  | acceptInvalid hmail hop response => exact Or.inl ⟨response, rfl⟩

/-- How far the events of a handler go: not to the call, to the call while it holds the lock, or to
the end of the operation, after which there is only the reply. -/
theorem FileThread.Logged.stages (h : t.Logged blame es) :
    (es = [] ∨ (∃ job, es = [.started job]) ∨ ∃ response, es = [.replied response]) ∨
      (∃ job : FileJob, t.HoldsFile job.server job.path job.op.mode ∧
        (es = [.started job, .call (.invoked job.toFileCall)] ∨
          ∃ result : FileReturn, es = [.started job, .call (.invoked job.toFileCall),
            .call (.acted job.toFileCall result)] ∧ (result.failed = true → blame))) ∨
      ∃ (job : FileJob) (result : FileReturn) (es' rest : List FileEvent),
        job.Ended blame result es' ∧ es = es' ++ rest ∧
          ∀ e ∈ rest, ∃ response, e = .replied response ∧ job.Answers result response := by
  have hended : ∀ (job : FileJob) (result : FileReturn), job.Ended blame result es →
      ∃ (job : FileJob) (result : FileReturn) (es' rest : List FileEvent),
        job.Ended blame result es' ∧ es = es' ++ rest ∧
          ∀ e ∈ rest, ∃ response, e = .replied response ∧ job.Answers result response :=
    fun job result h => ⟨job, result, es, [], h, (List.append_nil es).symm, by simp⟩
  cases t with
  | idle => exact Or.inl (Or.inl h)
  | acquiring job | finding job | locking job _ => exact Or.inl (Or.inr (Or.inl ⟨job, h⟩))
  | obtained job node => exact Or.inl (Or.inr (Or.inl ⟨job, h.1⟩))
  | operating job st => exact Or.inr (Or.inl ⟨job, ⟨rfl, rfl, rfl⟩, Or.inl h⟩)
  | releasing job result | unlocking job result =>
      exact Or.inr (Or.inl ⟨job, ⟨rfl, rfl, rfl⟩, Or.inr ⟨result, h⟩⟩)
  | unlocked job result | answering job result => exact Or.inr (Or.inr (hended job result h))
  | connecting msg bytes =>
      obtain ⟨job, result, -, -, h⟩ := h
      exact Or.inr (Or.inr (hended job result h))
  | awaiting =>
      obtain ⟨msg, job, result, -, -, h⟩ := h
      exact Or.inr (Or.inr (hended job result h))
  | finished =>
      rcases h with hreplied | hended
      · exact Or.inl (Or.inr (Or.inr hreplied))
      · exact Or.inr (Or.inr hended)

/-- A handler that has called its operation has returned, or holds the lock. -/
theorem FileThread.Logged.returned_or_holds {c : FileCall} (h : t.Logged blame es)
    (hc : .call (.invoked c) ∈ es) :
    (∃ result, .call (.returned c result) ∈ es) ∨ t.HoldsFile c.server c.path c.op.mode := by
  rcases h.stages with (rfl | ⟨job, rfl⟩ | ⟨response, rfl⟩) | ⟨job, hholds, hes⟩ |
    ⟨job, result, es', rest, ⟨-, hended⟩, rfl, hrest⟩
  · cases hc
  · simp at hc
  · simp at hc
  · obtain rfl : c = job.toFileCall := by
      rcases hes with rfl | ⟨result, rfl, -⟩ <;> simpa using hc
    exact Or.inr hholds
  · rcases List.mem_append.mp hc with hc | hc
    · rcases hended with rfl | ⟨rfl, -⟩
      · obtain rfl : c = job.toFileCall := by simpa using hc
        exact Or.inl ⟨result, by simp⟩
      · simp at hc
    · obtain ⟨response, hreplied, -⟩ := hrest _ hc
      cases hreplied

/-- A handler replies with the result of its operation, or that the file is in use. -/
theorem FileThread.Logged.answered {job : FileJob} {response : Message} (h : t.Logged blame es)
    (hjob : .started job ∈ es) (hresponse : .replied response ∈ es) :
    ∃ result, job.Answers result response ∧ (result.failed = true → blame) ∧
      (.call (.acted job.toFileCall result) ∈ es ∨ result = .inUse ∧ ∀ e, .call e ∉ es) := by
  rcases h.stages with (rfl | ⟨job', rfl⟩ | ⟨response', rfl⟩) | ⟨job', -, hes⟩ |
    ⟨job', result, es', rest, ⟨hblame, hended⟩, rfl, hrest⟩
  · cases hjob
  · simp at hresponse
  · simp at hjob
  · rcases hes with rfl | ⟨result, rfl, -⟩ <;> simp at hresponse
  · have hreplied : .replied response ∈ rest := by
      rcases List.mem_append.mp hresponse with hresponse | hresponse
      · rcases hended with rfl | ⟨rfl, -⟩ <;> simp at hresponse
      · exact hresponse
    obtain ⟨_, heq, hanswers⟩ := hrest _ hreplied
    obtain rfl := FileEvent.replied.inj heq
    have hjob' : .started job ∈ es' := by
      rcases List.mem_append.mp hjob with hjob | hjob
      · exact hjob
      · obtain ⟨_, hreplied, -⟩ := hrest _ hjob
        cases hreplied
    rcases hended with rfl | ⟨rfl, rfl⟩
    · obtain rfl : job = job' := by simpa using hjob'
      exact ⟨result, hanswers, hblame, Or.inl (by simp)⟩
    · obtain rfl : job = job' := by simpa using hjob'
      refine ⟨_, hanswers, hblame, Or.inr ⟨rfl, fun e he => ?_⟩⟩
      rcases List.mem_cons.mp he with he | he
      · cases he
      · obtain ⟨_, hreplied, -⟩ := hrest _ he
        cases hreplied

/-- An operation that failed puts it down to the handler. -/
theorem FileThread.Logged.blamed {c : FileCall} {result : FileReturn} (h : t.Logged blame es)
    (hacted : .call (.acted c result) ∈ es) (hfailed : result.failed = true) : blame := by
  rcases h.stages with (rfl | ⟨job, rfl⟩ | ⟨response, rfl⟩) | ⟨job, -, hes⟩ |
    ⟨job, result', es', rest, ⟨hblame, hended⟩, rfl, hrest⟩
  · cases hacted
  · simp at hacted
  · simp at hacted
  · rcases hes with rfl | ⟨result', rfl, hblame⟩
    · simp at hacted
    · obtain ⟨-, rfl⟩ : c = job.toFileCall ∧ result = result' := by simpa using hacted
      exact hblame hfailed
  · rcases List.mem_append.mp hacted with hacted | hacted
    · rcases hended with rfl | ⟨rfl, -⟩
      · obtain ⟨-, rfl⟩ : c = job.toFileCall ∧ result = result' := by simpa using hacted
        exact hblame hfailed
      · simp at hacted
    · obtain ⟨response, hreplied, -⟩ := hrest _ hacted
      cases hreplied

/-! ### Runs -/

/-- On the same path, and one of the calls changes the file. -/
def FileCall.Conflicts (c c' : FileCall) : Prop :=
  c.server = c'.server ∧ c.path = c'.path ∧ (c.op.mode = .write ∨ c'.op.mode = .write)

/-- A system call of the handler failed. -/
def CallFailed (actions : List (ℕ × FileAction)) (r : ℕ) : Prop :=
  ∃ a, (r, a) ∈ actions ∧ a.Fails

structure FileHistoryInvariant (actions : List (ℕ × FileAction)) (w : FileWorld) : Prop where
  locks : FileLockInvariant w
  logged : ∀ r, (w.locals r).Logged (CallFailed actions r) (w.own r)
  started : ∀ r port s msg op, (r, .start port s msg) ∈ actions →
    port.fileOperation msg = some op →
      ∃ next, (r, .started ⟨⟨s, msg.path.str, op⟩, next⟩) ∈ w.history
  ordered : ∀ r q c c', r ≠ q → c.Conflicts c' →
    Precedes w.history (r, .call (.invoked c)) (q, .call (.invoked c')) →
      ∃ result, Precedes w.history (r, .call (.returned c result)) (q, .call (.invoked c'))

variable {route : CString → Int32 → Option ℕ} {w : FileWorld} {a : FileAction}
  {actions : List (ℕ × FileAction)}
  {x : FileShared × FileThread × List FileEvent}

theorem FileThreadStep.length_le (hstep : FileThreadStep r sh fails t sh' t' es) :
    es.length ≤ 1 := by
  cases hstep with
  | answerCopy hmail hes => rcases hes with rfl | rfl <;> simp
  | _ => simp

theorem FileThreadStart.length_le (hstart : FileThreadStart sh sh' t' es) : es.length ≤ 1 := by
  cases hstart <;> simp

theorem FileThreadStart.not_call (hstart : FileThreadStart sh sh' t' es)
    (e : Linearizability.Event FileCall FileReturn) : .call e ∉ es := by
  cases hstart <;> simp

/-- A call is recorded when the lock is granted. -/
theorem FileThreadStep.granted {c : FileCall} (hlocated : t.Located sh.tables)
    (hstep : FileThreadStep r sh fails t sh' t' es) (hc : .call (.invoked c) ∈ es) :
    ∃ n, (sh.tables c.server).find c.path = some n ∧
      ((sh.tables c.server).lock n).Grantable c.op.mode := by
  cases hstep with
  | @lock job n hgrant =>
      obtain rfl : c = job.toFileCall := by simpa using hc
      exact ⟨n, hlocated, hgrant⟩
  | answerCopy hmail hes => rcases hes with rfl | rfl <;> simp at hc
  | _ => simp at hc

theorem started_of_start {port : Port} {s : ℕ} {msg : Message} {op : FileOperation}
    (hop : port.fileOperation msg = some op)
    (hx : fileProcess route r sh t (.start port s msg) = some x) :
    ∃ next, x.2.2 = [.started ⟨⟨s, msg.path.str, op⟩, next⟩] := by
  cases t with
  | idle =>
      simp only [fileProcess, handle, hop] at hx
      obtain rfl := Option.some.inj hx
      exact ⟨_, rfl⟩
  | _ => simp [fileProcess] at hx

theorem FileHistoryInvariant.after (hw : FileHistoryInvariant actions w)
    (hx : fileProcess route r w.shared (w.locals r) a = some x) :
    FileHistoryInvariant (actions ++ [(r, a)]) (w.after r x) := by
  have hcases := fileProcess_cases hx
  have hlocated := (hw.locks.owns r).located
  have hone : x.2.2.length ≤ 1 := by
    rcases hcases with ⟨-, hstart⟩ | hstep
    · exact hstart.length_le
    · exact hstep.length_le
  have hlogged : ∀ q, (w.locals q).Logged (CallFailed (actions ++ [(r, a)]) q) (w.own q) :=
    fun q => (hw.logged q).mono fun ⟨b, hb, hfails⟩ => ⟨b, List.mem_append_left _ hb, hfails⟩
  refine ⟨hw.locks.after hx, fun q => ?_, fun q port s msg op hstart hop => ?_,
    fun p q c c' hne hconflict hprecedes => ?_⟩
  · by_cases hq : q = r
    · subst hq
      rw [World.locals_after_self, World.own_after_self]
      rcases hcases with ⟨hidle, hstart⟩ | hstep
      · have hnone := hw.logged q
        rw [hidle] at hnone
        rw [(hnone : w.own q = [])]
        exact hstart.logged
      · exact hstep.logged hlocated
          (fun hfails => ⟨a, List.mem_append_right _ List.mem_cons_self, hfails⟩) (hlogged q)
    · rw [World.locals_after_ne hq, World.own_after_ne hq]
      exact hlogged q
  · rcases List.mem_append.mp hstart with hold | hnew
    · obtain ⟨next, hmem⟩ := hw.started q port s msg op hold hop
      exact ⟨next, List.mem_append_left _ hmem⟩
    · obtain ⟨rfl, rfl⟩ := Prod.mk.inj (List.mem_singleton.mp hnew)
      obtain ⟨next, hes⟩ := started_of_start hop hx
      refine ⟨next, List.mem_append_right _ ?_⟩
      rw [hes]
      exact List.mem_cons_self
  · rcases World.precedes_after hone hprecedes with hold | ⟨hmem, rfl, hnew⟩
    · obtain ⟨result, hreturned⟩ := hw.ordered p q c c' hne hconflict hold
      exact ⟨result, hreturned.trans (List.sublist_append_left _ _)⟩
    · -- the earlier call no longer holds the lock
      obtain ⟨hserver, hpath, hmode⟩ := hconflict
      rcases hcases with ⟨-, hstart⟩ | hstep
      · exact absurd hnew (hstart.not_call _)
      · obtain ⟨n, hfind, hgrant⟩ := hstep.granted hlocated hnew
        rcases (hw.logged p).returned_or_holds (World.mem_own.mpr hmem) with
          ⟨result, hreturned⟩ | hholds
        · refine ⟨result, precedes_append.mpr (Or.inr (Or.inl ⟨World.mem_own.mp hreturned, ?_⟩))⟩
          exact List.mem_map_of_mem hnew
        · rw [hserver, hpath] at hholds
          exact absurd hholds (hw.locks.not_holdsFile hfind hgrant hmode.symm p)

theorem fileHistoryInvariant_of_run {files : ℕ → FileSystem}
    (hrun : Machine.run (fileStep route) (fileStart files) actions = some w) :
    FileHistoryInvariant actions w := by
  have hstart : FileHistoryInvariant [] (fileStart files) :=
    ⟨fileLockInvariant_start files, fun _ => rfl, fun _ _ _ _ _ h => absurd h List.not_mem_nil,
      fun _ _ _ _ _ _ h => absurd h.mem_left List.not_mem_nil⟩
  refine (Machine.eachStep_true _ _).history_invariant hstart ?_ hrun
  rintro pre v ⟨r, a⟩ v' hv - hstep
  obtain ⟨x, hx, rfl⟩ := step_eq_some.mp hstep
  exact hv.after hx

end NetworkFileSystem
