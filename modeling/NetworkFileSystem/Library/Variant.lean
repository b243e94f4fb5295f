import NetworkFileSystem.Library.Interleaving
import Mathlib.Algebra.Order.BigOperators.Group.Finset

/-!
# Variants

A number that each step makes smaller bounds the length of a run. Where moreover every state that
is not done has an allowed step, the run can be continued until it is done. For interleaved
processes the number is given for the local state of one process.
-/

namespace Machine

variable {σ α : Type*} {step : σ → α → Option σ}

/-- A run can be completed, by at most as many steps as the variant says. -/
theorem exists_run_of_variant {P : σ → α → Prop} {I done : σ → Prop} {μ : σ → ℕ}
    (hstep : ∀ s, I s → ¬ done s → ∃ a t, P s a ∧ step s a = some t ∧ I t ∧ μ t < μ s) {s : σ}
    (hs : I s) :
    ∃ as t, EachStep step P s as ∧ run step s as = some t ∧ I t ∧ done t ∧ as.length ≤ μ s := by
  induction hn : μ s using Nat.strong_induction_on generalizing s with
  | _ n ih =>
      by_cases hdone : done s
      · exact ⟨[], s, eachStep_nil P s, rfl, hs, hdone, Nat.zero_le n⟩
      · obtain ⟨a, t, ha, ht, hI, hlt⟩ := hstep s hs hdone
        obtain ⟨as, u, has, hrun, hu, hdone, hlen⟩ := ih (μ t) (hn ▸ hlt) hI rfl
        refine ⟨a :: as, u, .cons ha fun t' ht' => ?_, ?_, hu, hdone, ?_⟩
        · rwa [Option.some.inj (ht'.symm.trans ht)]
        · rw [run_cons, ht, Option.bind_some, hrun]
        · rw [List.length_cons]
          omega

/-- A condition on the actions alone holds of all of them. -/
theorem EachStep.forall_mem {Q : α → Prop} {s t : σ} {as : List α}
    (h : EachStep step (fun _ => Q) s as) (hrun : run step s as = some t) : ∀ a ∈ as, Q a := by
  intro a ha
  obtain ⟨pre, post, rfl⟩ := List.append_of_mem ha
  rw [run_append, Option.bind_eq_some_iff] at hrun
  obtain ⟨u, hu, -⟩ := hrun
  exact h pre a post u rfl hu

end Machine

namespace Interleaving

open World

variable {σ ℓ α ε : Type*} {P : Process σ ℓ α ε} {w w' : World σ ℓ ε} {μ : ℓ → ℕ}
  {as : List (ℕ × α)}

/-- A process takes at most as many steps as the variant of its local state says. -/
theorem length_filter_add_le
    (hdec : ∀ r s l a x, P r s l a = some x → μ x.2.1 < μ l)
    (hrun : Machine.run (step P) w as = some w') (r : ℕ) :
    (as.filter (·.1 = r)).length + μ (w'.locals r) ≤ μ (w.locals r) := by
  induction as generalizing w with
  | nil =>
      obtain rfl : w = w' := Option.some.inj hrun
      simp
  | cons b as ih =>
      obtain ⟨q, a⟩ := b
      rw [Machine.run_cons, Option.bind_eq_some_iff] at hrun
      obtain ⟨u, hu, hrun⟩ := hrun
      obtain ⟨x, hx, rfl⟩ := step_eq_some.mp hu
      have htail := ih hrun
      by_cases hq : q = r
      · subst hq
        have hlt := hdec q _ _ _ x hx
        rw [locals_after_self] at htail
        rw [List.filter_cons_of_pos (by simp), List.length_cons]
        omega
      · rw [locals_after_ne (Ne.symm hq)] at htail
        rwa [List.filter_cons_of_neg (by simpa using hq)]

theorem sum_after_lt {S : Finset ℕ} {r : ℕ} {x : σ × ℓ × List ε} (hr : r ∈ S)
    (hlt : μ x.2.1 < μ (w.locals r)) :
    ∑ q ∈ S, μ ((w.after r x).locals q) < ∑ q ∈ S, μ (w.locals q) := by
  refine Finset.sum_lt_sum (fun q _ => ?_) ⟨r, hr, by rwa [locals_after_self]⟩
  by_cases hq : q = r
  · subst hq
    rw [locals_after_self]
    exact hlt.le
  · rw [locals_after_ne hq]

/-- The steps of all the processes together. -/
theorem length_add_sum_le {S : Finset ℕ}
    (hdec : ∀ r s l a x, P r s l a = some x → μ x.2.1 < μ l)
    (hS : ∀ b ∈ as, b.1 ∈ S) (hrun : Machine.run (step P) w as = some w') :
    as.length + ∑ q ∈ S, μ (w'.locals q) ≤ ∑ q ∈ S, μ (w.locals q) := by
  induction as generalizing w with
  | nil =>
      obtain rfl : w = w' := Option.some.inj hrun
      simp
  | cons b as ih =>
      obtain ⟨r, a⟩ := b
      rw [Machine.run_cons, Option.bind_eq_some_iff] at hrun
      obtain ⟨u, hu, hrun⟩ := hrun
      obtain ⟨x, hx, rfl⟩ := step_eq_some.mp hu
      have htail : as.length + ∑ q ∈ S, μ (w'.locals q) ≤ ∑ q ∈ S, μ ((w.after r x).locals q) :=
        ih (fun b hb => hS b (List.mem_cons_of_mem _ hb)) hrun
      have hr : r ∈ S := hS (r, a) List.mem_cons_self
      have hlt := sum_after_lt (w := w) (μ := μ) hr (hdec r _ _ _ x hx)
      rw [List.length_cons]
      omega

end Interleaving
