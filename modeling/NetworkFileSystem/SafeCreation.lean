import NetworkFileSystem.PositiveAnswer

/-!
# Creation and the files that are there

CREATE_FILE asks the trie whether the path exists, and then opens the file for writing on the next
server in turn. Nothing is lost unless that server holds a file with content at the path, of which
the trie does not know.
-/

namespace NetworkFileSystem

open Interleaving Interleaving.World Machine

/-- Every object on a disk is there afterwards, as it was. -/
def Preserves (disks disks' : Server → Disk) : Prop :=
  ∀ s path object, disks s path = some object → disks' s path = some object

/-- The storage server that a CREATE_FILE is sent to. -/
def createTarget (net : Network) (ns : NamingServer IdealCache) (msg : Message) : Option Server :=
  if ns.search msg.path.str = none then
    ns.getAvailableSsForCreation.bind fun x =>
      net.nmListener (x.2.registeredSs x.1).ip (x.2.registeredSs x.1).nmPort
  else none

namespace Disk

/-- The creation of a regular file opens a file with content. -/
def Truncates (disk : Disk) (os : Os) (msg : Message) : Prop :=
  os.lock = true ∧ os.opened = true ∧ msg.fileType = .file ∧
    ∃ content, content ≠ [] ∧ disk msg.path.str = some (.file content)

variable {disk : Disk} {os : Os} {msg : Message}

/-- An object that was absent from the path is created there. -/
theorem update_preserves {path : Path} {object : FileObject} (h : disk path = none) (q : Path)
    (old : FileObject) (hq : disk q = some old) :
    Function.update disk path (some object) q = some old := by
  by_cases hpath : q = path
  · rw [hpath, h] at hq
    cases hq
  · rw [Function.update_of_ne hpath, hq]

theorem createFile_preserves_iff :
    (∀ q object, disk q = some object → (disk.createFile os msg).2 q = some object) ↔
      ¬ disk.Truncates os msg := by
  rw [createFile]
  split_ifs with hlock
  swap
  · exact iff_of_true (fun _ _ h => h) fun h => hlock h.1
  rcases htype : msg.fileType with _ | _ | _ | _
  case file =>
    rcases hopen : os.opened with _ | _
    · refine iff_of_true (fun q object hq => ?_) fun h => ?_
      · rw [ssCreate, openWrite, hopen]
        exact hq
      · rw [h.2.1] at hopen
        cases hopen
    rw [ssCreate, openWrite, hopen]
    rcases hold : disk msg.path.str with _ | content | _ | _
    · refine iff_of_true (update_preserves hold) fun h => ?_
      obtain ⟨content, -, hcontent⟩ := h.2.2.2
      rw [hold] at hcontent
      cases hcontent
    · constructor
      · rintro h ⟨-, -, -, content', hne, hcontent⟩
        have hkept := h _ _ hcontent
        simp only [Function.update_self, Option.some.injEq, FileObject.file.injEq] at hkept
        exact hne hkept.symm
      · intro h q object hq
        by_cases hpath : q = msg.path.str
        · have hnil : content = [] := by
            by_contra hne
            exact h ⟨hlock, hopen, htype, content, hne, hold⟩
          rw [hpath, hold, hnil] at hq
          rw [hpath, ← hq]
          exact Function.update_self _ _ _
        · exact (Function.update_of_ne hpath _ _).trans hq
    · refine iff_of_true (fun _ _ hq => hq) fun h => ?_
      obtain ⟨content, -, hcontent⟩ := h.2.2.2
      rw [hold] at hcontent
      cases hcontent
    · refine iff_of_true (fun _ _ hq => hq) fun h => ?_
      obtain ⟨content, -, hcontent⟩ := h.2.2.2
      rw [hold] at hcontent
      cases hcontent
  case dir =>
    have hno : ¬ disk.Truncates os msg := fun h => by
      rw [h.2.2.1] at htype
      cases htype
    refine iff_of_true (fun q object hq => ?_) hno
    rw [ssCreate]
    split_ifs with hmk
    · exact update_preserves hmk.2 q object hq
    · exact hq
  all_goals
    refine iff_of_true (fun _ _ hq => hq) fun h => ?_
    rw [h.2.2.1] at htype
    cases htype

end Disk

/-- On the one disk that changes. -/
theorem preserves_update_iff {disks : Server → Disk} {s : Server} {disk : Disk} :
    Preserves disks (Function.update disks s disk) ↔
      ∀ q object, disks s q = some object → disk q = some object := by
  constructor
  · intro h q object hq
    have hkept := h s q object hq
    rwa [Function.update_self] at hkept
  · intro h s' q object hq
    by_cases hs : s' = s
    · subst hs
      rw [Function.update_self]
      exact h q object hq
    · rw [Function.update_of_ne hs]
      exact hq

/-! ### The steps of one CREATE_FILE -/

/-- No storage server has handled the request. -/
def Untouched (sh₀ : Shared) (r : ℕ) (pre : List (ℕ × Action)) (sh : Shared) : Prop :=
  sh.disks = sh₀.disks ∧ ∀ os, (r, .ssNm os) ∉ pre

/-- The storage server has handled the request, once. -/
def Touched (net : Network) (sh₀ : Shared) (msg : Message) (r : ℕ) (pre : List (ℕ × Action))
    (sh : Shared) : Prop :=
  ∃ s os, createTarget net sh₀.nm msg = some s ∧ (r, .ssNm os) ∈ pre ∧
    (∀ os', (r, .ssNm os') ∈ pre → os' = os) ∧
    sh.disks = Function.update sh₀.disks s ((sh₀.disks s).createFile os msg).2

/-- The handler of the naming server, up to where it sends the request. -/
def CreatingNm (net : Network) (sh₀ : Shared) (msg : Message) (sh : Shared) : NmThread → Prop
  | .incoming m | .received m => m = msg ∧ sh.nm = sh₀.nm
  | .createChecked m => m = msg ∧ sh.nm = sh₀.nm ∧ sh₀.nm.search msg.path.str = none
  | .connecting job => ∃ slot, job = .create msg slot ∧
    net.nmListener (sh.nm.registeredSs slot).ip (sh.nm.registeredSs slot).nmPort =
      createTarget net sh₀.nm msg
  | .awaiting job | .concluding job => ∃ slot, job = .create msg slot
  | .answering m _ => m = msg
  | .finished => True
  | _ => False

/-- The handler of the storage server. -/
def CreatingSs (net : Network) (sh₀ : Shared) (msg : Message) (r : ℕ) (pre : List (ℕ × Action))
    (sh : Shared) : SsNmThread → Prop
  | .idle => Untouched sh₀ r pre sh
  | .incoming s m =>
    m = msg ∧ createTarget net sh₀.nm msg = some s ∧ Untouched sh₀ r pre sh
  | .answering _ _ | .finished => Untouched sh₀ r pre sh ∨ Touched net sh₀ msg r pre sh
  | _ => False

structure Creating (net : Network) (sh₀ : Shared) (msg : Message) (r : ℕ)
    (pre : List (ℕ × Action)) (sh : Shared) (t : Threads) : Prop where
  submitted : t.client ≠ .idle
  contacted : t.client ≠ .contacted
  replied : ∀ m reply, t.client = .replied m reply → m = msg
  nm : CreatingNm net sh₀ msg sh t.nm
  unforwarded : t.nm.Unforwarded → t.ssNm = .idle
  ssNm : CreatingSs net sh₀ msg r pre sh t.ssNm
  ssClient : t.ssClient = .idle

variable {net : Network} {sh₀ sh sh' : Shared} {msg : Message} {r : ℕ}
  {pre as : List (ℕ × Action)} {t t' : Threads} {a : Action} {es : List Event} {w w' : World}

theorem Untouched.concat (h : Untouched sh₀ r pre sh) (ha : ∀ os, a ≠ .ssNm os)
    (hdisks : sh'.disks = sh.disks) : Untouched sh₀ r (pre ++ [(r, a)]) sh' := by
  refine ⟨hdisks.trans h.1, fun os hmem => ?_⟩
  rcases List.mem_append.mp hmem with hold | hnew
  · exact h.2 os hold
  · exact ha os (Prod.mk.inj (List.mem_singleton.mp hnew)).2.symm

theorem Touched.concat (h : Touched net sh₀ msg r pre sh) (ha : ∀ os, a ≠ .ssNm os)
    (hdisks : sh'.disks = sh.disks) : Touched net sh₀ msg r (pre ++ [(r, a)]) sh' := by
  obtain ⟨s, os, htarget, hmem, hone, heffect⟩ := h
  refine ⟨s, os, htarget, List.mem_append_left _ hmem, fun os' hmem' => ?_, hdisks.trans heffect⟩
  rcases List.mem_append.mp hmem' with hold | hnew
  · exact hone os' hold
  · exact absurd (Prod.mk.inj (List.mem_singleton.mp hnew)).2.symm (ha os')

theorem CreatingSs.concat {n : SsNmThread} (h : CreatingSs net sh₀ msg r pre sh n)
    (ha : ∀ os, a ≠ .ssNm os) (hdisks : sh'.disks = sh.disks) :
    CreatingSs net sh₀ msg r (pre ++ [(r, a)]) sh' n := by
  cases n with
  | idle => exact Untouched.concat h ha hdisks
  | incoming s m => exact ⟨h.1, h.2.1, h.2.2.concat ha hdisks⟩
  | answering | finished =>
      exact h.imp (fun h => Untouched.concat h ha hdisks) fun h => Touched.concat h ha hdisks
  | copyRead | copyAwaiting => exact h.elim

/-- The storage server gets to the request. -/
theorem Creating.ssNm_step (hop : msg.operation = .createFile)
    (h : Creating net sh₀ msg r pre sh t) {os : Os} {x : Shared × Threads × List Event}
    (hx : ssNmStep net sh t os = some x) :
    Creating net sh₀ msg r (pre ++ [(r, .ssNm os)]) x.1 x.2.1 := by
  have hss := h.ssNm
  unfold ssNmStep at hx
  split at hx
  · next s m hold =>
      rw [hold] at hss
      obtain ⟨rfl, htarget, hdisks, hnone⟩ := hss
      rw [hop] at hx
      obtain rfl := Option.some.inj hx
      refine ⟨h.submitted, h.contacted, h.replied, ?_, fun hun => ?_, Or.inr ?_, h.ssClient⟩
      · have hnm := h.nm
        cases ht : t.nm <;> simp_all [CreatingNm]
      · rw [h.unforwarded hun] at hold
        cases hold
      · refine ⟨s, os, htarget, by simp, fun os' hmem => ?_, by rw [← hdisks]; rfl⟩
        rcases List.mem_append.mp hmem with hold | hnew
        · exact absurd hold (hnone os')
        · exact Action.ssNm.inj (Prod.mk.inj (List.mem_singleton.mp hnew)).2
  · next hold =>
      rw [hold] at hss
      exact hss.elim
  · next hold =>
      rw [hold] at hss
      exact hss.elim
  all_goals cases hx

theorem createTarget_eq {slot : Slot} {nm : NamingServer IdealCache}
    (hsearch : sh.nm.search msg.path.str = none)
    (hpick : sh.nm.getAvailableSsForCreation = some (slot, nm)) :
    createTarget net sh.nm msg =
      net.nmListener (nm.registeredSs slot).ip (nm.registeredSs slot).nmPort := by
  rw [createTarget, if_pos hsearch, hpick]
  rfl

theorem CreatingNm.of_refusable {n : NmThread} {m : Message} (h : CreatingNm net sh₀ msg sh n)
    (hm : n.refusable = some m) : m = msg := by
  cases n with
  | received | createChecked =>
      obtain rfl := Option.some.inj hm
      exact h.1
  | connecting =>
      obtain ⟨slot, rfl, -⟩ := h
      exact (Option.some.inj hm).symm
  | copyUnplaced => exact h.elim
  | _ => cases hm

/-- The other threads take a step. -/
theorem Creating.step (hop : msg.operation = .createFile) (h : Creating net sh₀ msg r pre sh t)
    (ha : ∀ os, a ≠ .ssNm os) (hstep : Transition net r sh t a sh' t' es) :
    Creating net sh₀ msg r (pre ++ [(r, a)]) sh' t' := by
  obtain ⟨hsubmitted, hcontacted, hreplied, hnm, hun, hss, hclient⟩ := h
  have hkeep : sh'.disks = sh.disks →
      CreatingSs net sh₀ msg r (pre ++ [(r, a)]) sh' t.ssNm := fun hdisks => hss.concat ha hdisks
  cases hstep with
  | ssCreate | ssDelete | ssRead | ssReadFailed | relay | relayed => exact absurd rfl (ha _)
  | pickCreate hold hmutex hpick =>
      rw [hold] at hnm hun
      obtain ⟨rfl, hsame, hsearch⟩ := hnm
      refine ⟨hsubmitted, hcontacted, hreplied, ⟨_, rfl, ?_⟩, hun, hkeep rfl, hclient⟩
      rw [← hsame] at hsearch ⊢
      exact (createTarget_eq hsearch hpick).symm
  | forward hold hs =>
      rw [hold] at hnm hun
      obtain ⟨slot, rfl, htarget⟩ := hnm
      have hidle := hun trivial
      have huntouched := hkeep rfl
      rw [hidle] at huntouched
      exact ⟨hsubmitted, hcontacted, hreplied, ⟨slot, rfl⟩, fun h => h.elim,
        ⟨rfl, htarget.symm.trans hs, huntouched⟩, hclient⟩
  | refuse hold =>
      exact ⟨hsubmitted, hcontacted, hreplied, hnm.of_refusable hold, fun h => h.elim, hkeep rfl,
        hclient⟩
  | quit =>
      exact ⟨by simp, by simp, by simp, hnm, hun, hkeep rfl, hclient⟩
  | contact hold _ hmsg =>
      rw [hreplied _ _ hold] at hmsg
      simp [Message.IsLookup, hop] at hmsg
  | list hold hop' | registerStart hold hop' | findDelete hold hop' | findSource hold hop' =>
      rw [hold] at hnm
      rw [hnm.1, hop] at hop'
      cases hop'
  | hit hold hmsg | miss hold hmsg =>
      rw [hold] at hnm
      rw [hnm.1] at hmsg
      simp [Message.IsLookup, hop] at hmsg
  | receive hold =>
      rw [hold] at hnm hun
      exact ⟨hsubmitted, hcontacted, hreplied, hnm, hun, hkeep rfl, hclient⟩
  | checkCreate hold _ hsearch =>
      rw [hold] at hnm hun
      obtain ⟨rfl, hsame⟩ := hnm
      exact ⟨hsubmitted, hcontacted, hreplied, ⟨rfl, hsame, hsame ▸ hsearch⟩, hun, hkeep rfl,
        hclient⟩
  | lostRequest =>
      exact ⟨hsubmitted, hcontacted, hreplied, trivial, fun h => h.elim, hkeep rfl, hclient⟩
  | failed hold hanswer =>
      rw [hold] at hnm
      obtain ⟨slot, rfl⟩ := hnm
      have hdone := hkeep rfl
      rw [hanswer] at hdone
      exact ⟨hsubmitted, hcontacted, hreplied, rfl, fun h => h.elim, hdone, hclient⟩
  | succeeded hold hanswer =>
      rw [hold] at hnm
      have hdone := hkeep rfl
      rw [hanswer] at hdone
      exact ⟨hsubmitted, hcontacted, hreplied, hnm, fun h => h.elim, hdone, hclient⟩
  | lostResponse hold | recordCreate hold =>
      rw [hold] at hnm
      obtain ⟨slot, hjob⟩ := hnm
      refine ⟨hsubmitted, hcontacted, hreplied, ?_, fun h => h.elim, hkeep rfl, hclient⟩
      simp_all [CreatingNm, Threads.answer, Job.msg]
  | answer hold =>
      rw [hold] at hnm
      refine ⟨?_, ?_, ?_, trivial, fun h => h.elim, hkeep rfl, hclient⟩
      all_goals
        cases hc : t.client <;> simp_all [ClientThread.hear, CreatingNm]
  | ssRefuse hold =>
      rcases hold with ⟨hold, hno, -⟩ | ⟨_, hold⟩ <;> rw [hold] at hss
      · rw [hss.1] at hno
        exact absurd hop hno
      · exact hss.elim
  | ssLost hold =>
      have huntouched := hkeep rfl
      rw [hold] at huntouched
      refine ⟨hsubmitted, hcontacted, hreplied, hnm, fun h => ?_, Or.inl huntouched.2.2, hclient⟩
      rw [hun h] at hold
      cases hold
  | _ => simp_all [CreatingNm, CreatingSs]

theorem creating_of_run (hfresh : w.locals r = .start) (hop : msg.operation = .createFile)
    (has : ∀ a ∈ as, a.1 = r) (hrun : run (step net) w ((r, .submit msg) :: as) = some w') :
    Creating net w.shared msg r as w'.shared (w'.locals r) := by
  rw [run_cons, Option.bind_eq_some_iff] at hrun
  obtain ⟨u, hu, hrun⟩ := hrun
  obtain ⟨x, hx, rfl⟩ := step_eq_some.mp hu
  rw [hfresh] at hx
  obtain ⟨m, hm, -, hshared, -, hthreads⟩ := (Transition.of_request hx).of_start
  obtain rfl : msg = m := Action.submit.inj hm
  refine ((eachStep_true _ as).and_forall has).history_invariant
    (I := fun pre u => Creating net w.shared msg r pre u.shared (u.locals r)) ?_ ?_ hrun
  · rw [shared_after, locals_after_self, hshared, hthreads]
    exact ⟨by simp, by simp, by simp, ⟨rfl, rfl⟩, fun _ => rfl, ⟨rfl, by simp⟩, rfl⟩
  · rintro pre v ⟨q, a⟩ v' hI ⟨-, rfl⟩ hv
    obtain ⟨y, hy, rfl⟩ := step_eq_some.mp hv
    rw [shared_after, locals_after_self]
    by_cases ha : ∃ os, a = .ssNm os
    · obtain ⟨os, rfl⟩ := ha
      exact hI.ssNm_step hop hy
    · rw [not_exists] at ha
      exact hI.step hop ha (.of_request hy)

/-- What the handler of the storage server has done. -/
theorem Creating.touched_cases (h : Creating net sh₀ msg r pre sh t) :
    Untouched sh₀ r pre sh ∨ Touched net sh₀ msg r pre sh := by
  have hss := h.ssNm
  cases hold : t.ssNm <;> rw [hold] at hss
  case idle => exact Or.inl hss
  case incoming => exact Or.inl hss.2.2
  case answering | finished => exact hss
  all_goals exact hss.elim

/-- A CREATE_FILE loses nothing exactly when its storage server does not open a file with content
that the trie does not know. -/
theorem create_preserves_iff (hfresh : w.locals r = .start) (hop : msg.operation = .createFile)
    (has : ∀ a ∈ as, a.1 = r) (hrun : run (step net) w ((r, .submit msg) :: as) = some w') :
    Preserves w.shared.disks w'.shared.disks ↔
      ∀ s os, createTarget net w.shared.nm msg = some s → (r, .ssNm os) ∈ as →
        ¬ (w.shared.disks s).Truncates os msg := by
  rcases (creating_of_run hfresh hop has hrun).touched_cases with ⟨hdisks, hnone⟩ |
    ⟨s, os, htarget, hmem, hone, hdisks⟩
  · rw [hdisks]
    exact iff_of_true (fun _ _ _ h => h) fun s os _ hmem => absurd hmem (hnone os)
  · rw [hdisks, preserves_update_iff, Disk.createFile_preserves_iff]
    constructor
    · intro h s' os' htarget' hmem'
      obtain rfl : s = s' := Option.some.inj (htarget.symm.trans htarget')
      rw [hone os' hmem']
      exact h
    · exact fun h => h s os htarget hmem

/-- Every server holds one file, at the path. -/
def eachHolds (path : Path) : Server → Disk :=
  fun _ => Function.update (fun _ => none) path (some (.file [104, 105]))

theorem create_preserves_createA :
    ∃ w', run (step portNetwork) (start { twoServers with disks := eachHolds [47, 98] })
        (checkCreateA 1 ++ finishCreateA 1) = some w' ∧
      w'.shared.disks 0 createA.path.str = some (.file []) ∧
      Preserves (eachHolds [47, 98]) w'.shared.disks := by
  have hany : (run (step portNetwork) (start { twoServers with disks := eachHolds [47, 98] })
      (checkCreateA 1 ++ finishCreateA 1)).any fun w' =>
        w'.shared.disks 0 createA.path.str = some (.file []) := by decide +kernel
  obtain ⟨w', hrun, hw⟩ := (Option.any_eq_true _ _).mp hany
  refine ⟨w', hrun, of_decide_eq_true hw, ?_⟩
  have hown : ∀ a ∈ (checkCreateA 1 ++ finishCreateA 1).tail, a.1 = 1 := by
    simp [checkCreateA, finishCreateA]
  refine (create_preserves_iff rfl rfl hown hrun).mpr fun s os _ _ htruncates => ?_
  obtain ⟨-, -, -, content, -, hcontent⟩ := htruncates
  have hnone : eachHolds [47, 98] s createA.path.str = none := by
    have hne : createA.path.str ≠ [47, 98] := by decide +kernel
    exact Function.update_of_ne hne _ _
  cases hnone.symm.trans hcontent

/-- A file that no server has registered is emptied. -/
theorem create_truncates_unregistered :
    ∃ (disks : Server → Disk) (w w' : World),
      run (step portNetwork) (start ⟨.init fun _ => none, none, disks⟩) registerFirstActions =
          some w ∧
        run (step portNetwork) w (checkCreateA 1 ++ finishCreateA 1) = some w' ∧
        ¬ Preserves w.shared.disks w'.shared.disks := by
  have hany : (run (step portNetwork) (start ⟨.init fun _ => none, none, eachHolds [47, 97]⟩)
      registerFirstActions).any fun w =>
        (run (step portNetwork) w (checkCreateA 1 ++ finishCreateA 1)).any fun w' =>
          w.shared.disks 0 createA.path.str = some (.file [104, 105]) ∧
          w'.shared.disks 0 createA.path.str = some (.file []) := by decide +kernel
  obtain ⟨w, hrun, hw⟩ := (Option.any_eq_true _ _).mp hany
  obtain ⟨w', hrun', hw'⟩ := (Option.any_eq_true _ _).mp hw
  obtain ⟨hold, hnew⟩ := of_decide_eq_true hw'
  refine ⟨eachHolds [47, 97], w, w', hrun, hrun', fun h => ?_⟩
  cases (h 0 _ _ hold).symm.trans hnew

end NetworkFileSystem
