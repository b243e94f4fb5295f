import NetworkFileSystem.Library.Machine
import Mathlib.Data.Fintype.EquivFin
import Mathlib.Logic.Function.Basic

/-!
# Interleaved processes

Processes, numbered by naturals, act on a shared state and on a local state of their own, and
record events. A run interleaves their actions in any order. A property of one process is
invariant if the actions of that process keep it and those of the others do not disturb it.
-/

namespace Interleaving

variable {σ ℓ α ε : Type*}

/-- `x` stands before `y` in the list. -/
def Precedes {β : Type*} (l : List β) (x y : β) : Prop := [x, y].Sublist l

section Precedes

variable {β : Type*} {l l' : List β} {x y : β}

theorem precedes_append :
    Precedes (l ++ l') x y ↔ Precedes l x y ∨ (x ∈ l ∧ y ∈ l') ∨ Precedes l' x y := by
  constructor
  · intro h
    obtain ⟨l₁, l₂, heq, h₁, h₂⟩ := List.sublist_append_iff.mp h
    match l₁, heq with
    | [], heq =>
        obtain rfl : [x, y] = l₂ := heq
        exact Or.inr (Or.inr h₂)
    | [_], heq =>
        obtain ⟨rfl, rfl⟩ := List.cons.inj heq
        exact Or.inr (Or.inl ⟨List.singleton_sublist.mp h₁, List.singleton_sublist.mp h₂⟩)
    | [_, _], heq =>
        obtain ⟨rfl, htail⟩ := List.cons.inj heq
        obtain ⟨rfl, -⟩ := List.cons.inj htail
        exact Or.inl h₁
    | _ :: _ :: _ :: _, heq => simp at heq
  · rintro (h | ⟨hx, hy⟩ | h)
    · exact h.trans (List.sublist_append_left l l')
    · exact (List.singleton_sublist.mpr hx).append (List.singleton_sublist.mpr hy)
    · exact h.trans (List.sublist_append_right l l')

theorem Precedes.mem_left (h : Precedes l x y) : x ∈ l := h.subset (by simp)

theorem Precedes.mem_right (h : Precedes l x y) : y ∈ l := h.subset (by simp)

theorem precedes_or_precedes (hx : x ∈ l) (hy : y ∈ l) (hne : x ≠ y) :
    Precedes l x y ∨ Precedes l y x := by
  obtain ⟨l₁, l₂, rfl⟩ := List.append_of_mem hx
  rcases List.mem_append.mp hy with h | h
  · exact Or.inr (precedes_append.mpr (Or.inr (Or.inl ⟨h, by simp⟩)))
  · have hy' : y ∈ l₂ := (List.mem_cons.mp h).resolve_left (Ne.symm hne)
    have hpair : Precedes (x :: l₂) x y := (List.singleton_sublist.mpr hy').cons_cons x
    exact Or.inl (precedes_append.mpr (Or.inr (Or.inr hpair)))

theorem Precedes.asymm (hn : l.Nodup) (h : Precedes l x y) : ¬ Precedes l y x := by
  intro h'
  obtain ⟨l₁, l₂, rfl, hx, hy⟩ := List.cons_sublist_iff.mp h
  have hy : y ∈ l₂ := List.singleton_sublist.mp hy
  have hdisj := List.disjoint_of_nodup_append hn
  rcases precedes_append.mp h' with h' | ⟨hy', -⟩ | h'
  · exact hdisj h'.mem_left hy
  · exact hdisj hy' hy
  · exact hdisj hx h'.mem_right

/-- Elements that are left stay in their order. -/
theorem Precedes.of_sublist (hn : l.Nodup) (hl : l'.Sublist l) (h : Precedes l x y) (hx : x ∈ l')
    (hy : y ∈ l') : Precedes l' x y := by
  have hne : x ≠ y := by
    rintro rfl
    exact h.asymm hn h
  exact (precedes_or_precedes hx hy hne).resolve_right fun h' => h.asymm hn (h'.trans hl)

end Precedes

structure World (σ ℓ ε : Type*) where
  shared : σ
  locals : ℕ → ℓ
  /-- The events so far, each with the process that recorded it. -/
  history : List (ℕ × ε)

/-- What the action of a process makes of the shared and its local state, and its events. -/
abbrev Process (σ ℓ α ε : Type*) := ℕ → σ → ℓ → α → Option (σ × ℓ × List ε)

namespace World

def start (s : σ) (l : ℓ) : World σ ℓ ε := ⟨s, fun _ => l, []⟩

def after (w : World σ ℓ ε) (r : ℕ) (x : σ × ℓ × List ε) : World σ ℓ ε where
  shared := x.1
  locals := Function.update w.locals r x.2.1
  history := w.history ++ x.2.2.map (r, ·)

/-- The events of one process. -/
def own (w : World σ ℓ ε) (r : ℕ) : List ε := (w.history.filter (·.1 = r)).map Prod.snd

variable {w : World σ ℓ ε} {q r : ℕ} {x : σ × ℓ × List ε}

@[simp] theorem shared_after : (w.after r x).shared = x.1 := rfl

@[simp] theorem locals_after_self : (w.after r x).locals r = x.2.1 := Function.update_self _ _ _

theorem locals_after_ne (h : q ≠ r) : (w.after r x).locals q = w.locals q :=
  Function.update_of_ne h _ _

@[simp] theorem history_after : (w.after r x).history = w.history ++ x.2.2.map (r, ·) := rfl

@[simp] theorem own_after_self : (w.after r x).own r = w.own r ++ x.2.2 := by
  simp [own, List.filter_map, Function.comp_def]

theorem own_after_ne (h : q ≠ r) : (w.after r x).own q = w.own q := by
  simp [own, List.filter_map, Function.comp_def, h.symm]

theorem own_prefix_after : w.own q <+: (w.after r x).own q := by
  by_cases h : q = r
  · subst h
    rw [own_after_self]
    exact List.prefix_append _ _
  · exact (own_after_ne h).symm ▸ List.prefix_refl _

theorem mem_own {e : ε} : e ∈ w.own r ↔ (r, e) ∈ w.history := by
  simp [own]

theorem mem_history_after {e : ε} :
    (q, e) ∈ (w.after r x).history ↔ (q, e) ∈ w.history ∨ q = r ∧ e ∈ x.2.2 := by
  simp [eq_comm, and_comm]

/-- If at most one event is recorded, it is the later one of each new pair. -/
theorem precedes_after {e e' : ε} {p : ℕ} (hone : x.2.2.length ≤ 1)
    (h : Precedes (w.after r x).history (p, e) (q, e')) :
    Precedes w.history (p, e) (q, e') ∨ ((p, e) ∈ w.history ∧ q = r ∧ e' ∈ x.2.2) := by
  rcases precedes_append.mp h with hold | ⟨he, he'⟩ | hnew
  · exact Or.inl hold
  · obtain ⟨e'', hmem, heq⟩ := List.mem_map.mp he'
    obtain ⟨rfl, rfl⟩ := Prod.mk.inj heq
    exact Or.inr ⟨he, rfl, hmem⟩
  · have hle : 2 ≤ (x.2.2.map (r, ·)).length := hnew.length_le
    rw [List.length_map] at hle
    omega

end World

open World

def step (P : Process σ ℓ α ε) (w : World σ ℓ ε) (a : ℕ × α) : Option (World σ ℓ ε) :=
  (P a.1 w.shared (w.locals a.1) a.2).map (w.after a.1)

variable {P : Process σ ℓ α ε} {w w' : World σ ℓ ε} {r : ℕ} {a : α}

theorem step_eq_some :
    step P w (r, a) = some w' ↔ ∃ x, P r w.shared (w.locals r) a = some x ∧ w.after r x = w' :=
  Option.map_eq_some_iff

/-- A property of each process, of the shared state, its local state and its own events, is kept
if the process itself keeps it and the others do not disturb it. -/
theorem local_invariant {C : World σ ℓ ε → ℕ × α → Prop} {Φ : ℕ → σ → ℓ → List ε → Prop}
    {as : List (ℕ × α)}
    (hown : ∀ w r a x, (∀ q, Φ q w.shared (w.locals q) (w.own q)) → C w (r, a) →
      P r w.shared (w.locals r) a = some x → Φ r x.1 x.2.1 (w.own r ++ x.2.2))
    (hother : ∀ w r a x q, (∀ q, Φ q w.shared (w.locals q) (w.own q)) → C w (r, a) →
      P r w.shared (w.locals r) a = some x → q ≠ r → Φ q x.1 (w.locals q) (w.own q))
    (hstart : ∀ q, Φ q w.shared (w.locals q) (w.own q))
    (hsteps : Machine.EachStep (step P) C w as) (hrun : Machine.run (step P) w as = some w') :
    ∀ q, Φ q w'.shared (w'.locals q) (w'.own q) := by
  refine hsteps.invariant (I := fun w => ∀ q, Φ q w.shared (w.locals q) (w.own q)) hstart ?_ hrun
  rintro t ⟨r, a⟩ u hI hC hstep q
  obtain ⟨x, hx, rfl⟩ := step_eq_some.mp hstep
  by_cases hq : q = r
  · subst hq
    rw [shared_after, locals_after_self, own_after_self]
    exact hown t q a x hI hC hx
  · rw [shared_after, locals_after_ne hq, own_after_ne hq]
    exact hother t r a x q hI hC hx hq

/-- A property of the local state and the own events of a process is kept if its own actions keep
it. -/
theorem own_invariant {C : World σ ℓ ε → ℕ × α → Prop} {Φ : ℓ → List ε → Prop}
    {as : List (ℕ × α)}
    (hstep : ∀ w r a x, C w (r, a) → Φ (w.locals r) (w.own r) →
      P r w.shared (w.locals r) a = some x → Φ x.2.1 (w.own r ++ x.2.2))
    (hstart : ∀ q, Φ (w.locals q) (w.own q)) (hsteps : Machine.EachStep (step P) C w as)
    (hrun : Machine.run (step P) w as = some w') (q : ℕ) : Φ (w'.locals q) (w'.own q) :=
  local_invariant (Φ := fun _ _ => Φ)
    (fun w r a x hΦ hC hx => hstep w r a x hC (hΦ r) hx)
    (fun _ _ _ _ q hΦ _ _ _ => hΦ q) hstart hsteps hrun q

theorem locals_eq_of_notMem {as : List (ℕ × α)} (hrun : Machine.run (step P) w as = some w')
    (hr : r ∉ as.map Prod.fst) : w'.locals r = w.locals r := by
  induction as generalizing w with
  | nil => rw [← Option.some.inj hrun]
  | cons a as ih =>
      rw [Machine.run_cons, Option.bind_eq_some_iff] at hrun
      obtain ⟨u, hu, hrun⟩ := hrun
      obtain ⟨x, -, rfl⟩ := step_eq_some.mp hu
      rw [List.map_cons, List.mem_cons, not_or] at hr
      exact (ih hrun hr.2).trans (locals_after_ne hr.1)

/-- In a run some process has not acted yet. -/
theorem exists_locals_eq {as : List (ℕ × α)} (hrun : Machine.run (step P) w as = some w') :
    ∃ r, w'.locals r = w.locals r := by
  obtain ⟨r, hr⟩ := Infinite.exists_notMem_finset (as.map Prod.fst).toFinset
  exact ⟨r, locals_eq_of_notMem hrun fun h => hr (List.mem_toFinset.mpr h)⟩

/-- Events are never taken back. -/
theorem history_prefix_of_run {as : List (ℕ × α)} (hrun : Machine.run (step P) w as = some w') :
    w.history <+: w'.history := by
  refine Machine.run_invariant (I := fun u => w.history <+: u.history) (List.prefix_refl _) ?_ hrun
  rintro t ⟨r, a⟩ u hI hstep
  obtain ⟨x, -, rfl⟩ := step_eq_some.mp hstep
  exact hI.trans (List.prefix_append _ _)

end Interleaving
