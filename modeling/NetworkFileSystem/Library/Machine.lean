import Mathlib.Data.List.Induction

/-!
# Runs of a partial transition function

`run step s as` performs the actions `as` from the state `s`; it is undefined as soon as one
action is. `EachStep step P s as` says that every action of the run is taken in a state where `P`
allows it. An invariant kept by the allowed steps holds at the end of every such run.
-/

namespace Machine

variable {σ α : Type*} (step : σ → α → Option σ)

def run (s : σ) : List α → Option σ
  | [] => some s
  | a :: as => (step s a).bind fun t => run t as

/-- Every action of the run from `s` is taken in a state in which `P` holds of it. -/
def EachStep (P : σ → α → Prop) (s : σ) (as : List α) : Prop :=
  ∀ pre a post t, as = pre ++ a :: post → run step s pre = some t → P t a

variable {step}

@[simp] theorem run_nil (s : σ) : run step s [] = some s := rfl

@[simp] theorem run_cons (s : σ) (a : α) (as : List α) :
    run step s (a :: as) = (step s a).bind fun t => run step t as := rfl

theorem run_append (s : σ) (as bs : List α) :
    run step s (as ++ bs) = (run step s as).bind fun t => run step t bs := by
  induction as generalizing s with
  | nil => rfl
  | cons a as ih => simp [ih, Option.bind_assoc]

theorem run_concat (s : σ) (as : List α) (a : α) :
    run step s (as ++ [a]) = (run step s as).bind fun t => step t a := by
  rw [run_append]
  congr 1
  funext t
  simp

theorem run_concat_eq_some {s u : σ} {as : List α} {a : α} :
    run step s (as ++ [a]) = some u ↔ ∃ t, run step s as = some t ∧ step t a = some u := by
  rw [run_concat, Option.bind_eq_some_iff]

theorem eachStep_nil (P : σ → α → Prop) (s : σ) : EachStep step P s [] := by
  intro pre a post t h
  simp at h

theorem EachStep.cons {P : σ → α → Prop} {s : σ} {a : α} {as : List α} (ha : P s a)
    (has : ∀ t, step s a = some t → EachStep step P t as) : EachStep step P s (a :: as) := by
  intro pre b post t hsplit hrun
  cases pre with
  | nil =>
      obtain ⟨rfl, rfl⟩ := List.cons.inj hsplit
      obtain rfl : s = t := Option.some.inj hrun
      exact ha
  | cons x pre =>
      obtain ⟨rfl, htail⟩ := List.cons.inj hsplit
      rw [run_cons, Option.bind_eq_some_iff] at hrun
      obtain ⟨u, hu, hrun⟩ := hrun
      exact has u hu pre b post t htail hrun

theorem eachStep_cons_iff {P : σ → α → Prop} {s : σ} {a : α} {as : List α} :
    EachStep step P s (a :: as) ↔
      P s a ∧ ∀ t ∈ step s a, EachStep step P t as := by
  constructor
  · intro h
    refine ⟨h [] a as s rfl rfl, fun t ht pre b post u hsplit hrun => ?_⟩
    refine h (a :: pre) b post u (congrArg (a :: ·) hsplit) ?_
    rw [run_cons, ht, Option.bind_some, hrun]
  · rintro ⟨ha, has⟩
    exact .cons ha has

/-- The condition is evaluated along the run. -/
instance decidableEachStep (step : σ → α → Option σ) (P : σ → α → Prop)
    [∀ s a, Decidable (P s a)] : ∀ (s : σ) (as : List α), Decidable (EachStep step P s as)
  | s, [] => isTrue (eachStep_nil P s)
  | _, _ :: as =>
    have (t : σ) : Decidable (EachStep step P t as) := decidableEachStep step P t as
    decidable_of_iff _ eachStep_cons_iff.symm

theorem EachStep.of_append {P : σ → α → Prop} {s : σ} {as bs : List α}
    (h : EachStep step P s (as ++ bs)) : EachStep step P s as := by
  intro pre a post t has hrun
  exact h pre a (post ++ bs) t (by simp [has]) hrun

theorem EachStep.last {P : σ → α → Prop} {s t : σ} {as : List α} {a : α}
    (h : EachStep step P s (as ++ [a])) (hrun : run step s as = some t) : P t a :=
  h as a [] t rfl hrun

theorem EachStep.mono {P Q : σ → α → Prop} {s : σ} {as : List α}
    (h : EachStep step P s as) (hPQ : ∀ t a, P t a → Q t a) : EachStep step Q s as :=
  fun pre a post t has hrun => hPQ t a (h pre a post t has hrun)

theorem EachStep.and_forall {P : σ → α → Prop} {Q : α → Prop} {s : σ} {as : List α}
    (h : EachStep step P s as) (hQ : ∀ a ∈ as, Q a) :
    EachStep step (fun t a => P t a ∧ Q a) s as :=
  fun pre a post t has hrun => ⟨h pre a post t has hrun, hQ a (by simp [has])⟩

theorem eachStep_true (s : σ) (as : List α) : EachStep step (fun _ _ => True) s as :=
  fun _ _ _ _ _ _ => trivial

/-- A property of the actions performed and the state reached that every allowed step keeps holds
at the end of a run of allowed steps. -/
theorem EachStep.history_invariant {P : σ → α → Prop} {I : List α → σ → Prop} {s t : σ}
    {as : List α} (h : EachStep step P s as) (hs : I [] s)
    (hstep : ∀ pre t a u, I pre t → P t a → step t a = some u → I (pre ++ [a]) u)
    (hrun : run step s as = some t) : I as t := by
  induction as using List.reverseRecOn generalizing t with
  | nil =>
      simp only [run_nil, Option.some.injEq] at hrun
      exact hrun ▸ hs
  | append_singleton as a ih =>
      obtain ⟨u, hu, ht⟩ := run_concat_eq_some.mp hrun
      exact hstep as u a t (ih h.of_append hu) (h.last hu) ht

/-- An invariant kept by every allowed step holds at the end of a run of allowed steps. -/
theorem EachStep.invariant {P : σ → α → Prop} {I : σ → Prop} {s t : σ} {as : List α}
    (h : EachStep step P s as) (hs : I s)
    (hstep : ∀ t a u, I t → P t a → step t a = some u → I u)
    (hrun : run step s as = some t) : I t :=
  h.history_invariant (I := fun _ => I) hs (fun _ => hstep) hrun

/-- As `EachStep.invariant`, where the step may use that the state before it was reached. -/
theorem EachStep.invariant_of_run {P : σ → α → Prop} {I : σ → Prop} {s t : σ} {as : List α}
    (h : EachStep step P s as) (hs : I s)
    (hstep : ∀ pre t a u, run step s pre = some t → I t → P t a → step t a = some u → I u)
    (hrun : run step s as = some t) : I t :=
  (h.history_invariant (I := fun pre t => run step s pre = some t ∧ I t) ⟨rfl, hs⟩
    (fun pre t a u hI hP hu => ⟨run_concat_eq_some.mpr ⟨t, hI.1, hu⟩,
      hstep pre t a u hI.1 hI.2 hP hu⟩) hrun).2

/-- An invariant kept by every step holds at the end of every run. -/
theorem run_invariant {I : σ → Prop} {s t : σ} {as : List α} (hs : I s)
    (hstep : ∀ t a u, I t → step t a = some u → I u) (hrun : run step s as = some t) : I t :=
  (eachStep_true s as).invariant hs (fun t a u hI _ => hstep t a u hI) hrun

/-- Where the allowed steps are defined in every state that meets the invariant, so is the
whole run. -/
theorem EachStep.defined {P : σ → α → Prop} {I : List α → σ → Prop} {s : σ} {as : List α}
    (h : EachStep step P s as) (hs : I [] s)
    (hstep : ∀ pre t a, I pre t → P t a → ∃ u, step t a = some u ∧ I (pre ++ [a]) u) :
    ∃ t, run step s as = some t ∧ I as t := by
  induction as using List.reverseRecOn with
  | nil => exact ⟨s, rfl, hs⟩
  | append_singleton as a ih =>
      obtain ⟨t, ht, hI⟩ := ih h.of_append
      obtain ⟨u, hu, hIu⟩ := hstep as t a hI (h.last ht)
      exact ⟨u, run_concat_eq_some.mpr ⟨t, ht, hu⟩, hIu⟩

/-- Where a step from a good state is defined, and good exactly when it is allowed, the runs
through good states are those of allowed steps. -/
theorem eachStep_iff_forall_prefix {P : σ → α → Prop} {I : σ → Prop} {s : σ} (hs : I s)
    (hstep : ∀ t a, I t → ∃ u, step t a = some u ∧ (I u ↔ P t a)) (as : List α) :
    EachStep step P s as ↔ ∀ pre, pre <+: as → ∃ t, run step s pre = some t ∧ I t := by
  constructor
  · rintro h pre ⟨post, rfl⟩
    refine h.of_append.defined (I := fun _ => I) hs fun _ t a hI hP => ?_
    obtain ⟨u, hu, hIu⟩ := hstep t a hI
    exact ⟨u, hu, hIu.mpr hP⟩
  · intro h pre a post t has hrun
    obtain ⟨t', ht', hI⟩ := h pre ⟨a :: post, has.symm⟩
    obtain rfl : t' = t := Option.some.inj (ht'.symm.trans hrun)
    obtain ⟨u, hu, hIu⟩ := hstep t' a hI
    obtain ⟨u', hu', hI'⟩ := h (pre ++ [a]) ⟨post, by simp [has]⟩
    obtain rfl : u' = u := Option.some.inj (hu'.symm.trans (run_concat_eq_some.mpr ⟨t', hrun, hu⟩))
    exact hIu.mp hI'

/-- What the steps of the run produce, step by step. -/
def outputs {β : Type*} (step : σ → α → Option σ) (f : σ → α → σ → List β) :
    σ → List α → List β
  | _, [] => []
  | s, a :: as =>
    match step s a with
    | none => []
    | some t => f s a t ++ outputs step f t as

theorem outputs_append {β : Type*} {f : σ → α → σ → List β} {s t : σ} {as : List α}
    (hrun : run step s as = some t) (bs : List α) :
    outputs step f s (as ++ bs) = outputs step f s as ++ outputs step f t bs := by
  induction as generalizing s with
  | nil =>
      obtain rfl : s = t := Option.some.inj hrun
      rfl
  | cons a as ih =>
      rw [run_cons, Option.bind_eq_some_iff] at hrun
      obtain ⟨u, hu, hrun⟩ := hrun
      simp only [List.cons_append, outputs, hu, ih hrun, List.append_assoc]

theorem outputs_singleton {β : Type*} {f : σ → α → σ → List β} {s t : σ} {a : α}
    (h : step s a = some t) : outputs step f s [a] = f s a t := by
  simp [outputs, h]

theorem exists_of_rel_some {τ : Type*} {R : σ → τ → Prop} {x : Option σ} {t : τ}
    (h : Option.Rel R x (some t)) : ∃ s, x = some s ∧ R s t := by
  cases h with
  | some h => exact ⟨_, rfl, h⟩

theorem exists_of_some_rel {τ : Type*} {R : σ → τ → Prop} {s : σ} {y : Option τ}
    (h : Option.Rel R (some s) y) : ∃ t, y = some t ∧ R s t := by
  cases h with
  | some h => exact ⟨_, rfl, h⟩

/-- Step by step related machines have related runs, defined for the same actions. -/
theorem run_rel {τ : Type*} {step' : τ → α → Option τ} {R : σ → τ → Prop}
    (hstep : ∀ s t a, R s t → Option.Rel R (step s a) (step' t a)) {s : σ} {t : τ} (h : R s t)
    (as : List α) : Option.Rel R (run step s as) (run step' t as) := by
  induction as generalizing s t with
  | nil => exact .some h
  | cons a as ih =>
      have hrel := hstep s t a h
      rw [run_cons, run_cons]
      generalize step s a = x at hrel ⊢
      generalize step' t a = y at hrel ⊢
      cases hrel with
      | some hu => exact ih hu
      | none => exact .none

end Machine
