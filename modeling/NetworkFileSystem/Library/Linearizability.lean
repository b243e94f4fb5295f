import NetworkFileSystem.Library.Interleaving

/-!
# Linearizability

Processes call the operations of an object and record when a call is invoked, when it acts and when
it returns. A history is linearizable if every call acts once, after its invocation and before its
return, and if the calls, in the order in which they act, are a sequential run of the object.
-/

namespace Linearizability

open Interleaving

variable {σ ω ρ : Type*}

/-- What an operation may return in a state, and the state that it leaves. -/
abbrev Object (σ ω ρ : Type*) := σ → ω → ρ → σ → Prop

inductive Event (ω ρ : Type*)
  | invoked (op : ω)
  | acted (op : ω) (result : ρ)
  | returned (op : ω) (result : ρ)

def Event.act : Event ω ρ → Option (ω × ρ)
  | acted op result => some (op, result)
  | _ => none

/-- Where a process is in its current call. -/
inductive Phase (ω ρ : Type*)
  | idle
  | pending (op : ω)
  | finished (op : ω) (result : ρ)

/-- The events of one process are those of calls one after the other. -/
inductive Calls : List (Event ω ρ) → Phase ω ρ → Prop
  | nil : Calls [] .idle
  | invoke {es} (op : ω) (h : Calls es .idle) : Calls (es ++ [.invoked op]) (.pending op)
  | act {es op} (result : ρ) (h : Calls es (.pending op)) :
    Calls (es ++ [.acted op result]) (.finished op result)
  | ret {es op result} (h : Calls es (.finished op result)) :
    Calls (es ++ [.returned op result]) .idle

inductive Sequential (O : Object σ ω ρ) (s : σ) : List (ω × ρ) → σ → Prop
  | nil : Sequential O s [] s
  | snoc {l t op result u} (h : Sequential O s l t) (hop : O t op result u) :
    Sequential O s (l ++ [(op, result)]) u

/-- The calls in a history, which may hold other events. -/
def calls {ε : Type*} (call : ε → Option (Event ω ρ)) (history : List (ℕ × ε)) :
    List (ℕ × Event ω ρ) :=
  history.filterMap fun e => (call e.2).map (e.1, ·)

structure Linearizes (O : Object σ ω ρ) (s : σ) (history : List (ℕ × Event ω ρ)) (t : σ) :
    Prop where
  calls : ∀ r, ∃ phase, Calls ((history.filter (·.1 = r)).map Prod.snd) phase
  legal : Sequential O s (history.filterMap fun e => e.2.act) t

/-- A step of a process between two states of the object, by the events it records. -/
inductive Moves (O : Object σ ω ρ) : σ → Phase ω ρ → List (Event ω ρ) → σ → Phase ω ρ → Prop
  | silent (s phase) : Moves O s phase [] s phase
  | invoke (s op) : Moves O s .idle [.invoked op] s (.pending op)
  | act {s op result t} (h : O s op result t) :
    Moves O s (.pending op) [.acted op result] t (.finished op result)
  | ret (s op result) : Moves O s (.finished op result) [.returned op result] s .idle

variable {O : Object σ ω ρ} {s t u : σ} {phase phase' : Phase ω ρ} {es es' : List (Event ω ρ)}

theorem Moves.eq_of_nil (h : Moves O s phase [] t phase') : t = s := by
  cases h
  rfl

theorem Moves.of_acted {op : ω} {result : ρ} (h : Moves O s phase [.acted op result] t phase') :
    O s op result t := by
  cases h with
  | act hop => exact hop

/-- The object changes only where a call acts. -/
theorem Moves.eq_or_acts (h : Moves O s phase es t phase') :
    t = s ∨ ∃ op result, O s op result t := by
  cases h with
  | act hop => exact Or.inr ⟨_, _, hop⟩
  | _ => exact Or.inl rfl

theorem Calls.moves (h : Calls es phase) (hm : Moves O s phase es' t phase') :
    Calls (es ++ es') phase' := by
  cases hm with
  | silent => simpa using h
  | invoke op => exact h.invoke op
  | act hop => exact h.act _
  | ret => exact h.ret

theorem Sequential.moves {l : List (ω × ρ)} (h : Sequential O u l s)
    (hm : Moves O s phase es t phase') : Sequential O u (l ++ es.filterMap Event.act) t := by
  cases hm with
  | silent => simpa using h
  | invoke op => exact (List.append_nil l).symm ▸ h
  | act hop => exact h.snoc hop
  | ret => exact (List.append_nil l).symm ▸ h

section Histories

variable {ε : Type*} {call : ε → Option (Event ω ρ)} {r : ℕ}

theorem filter_calls (history : List (ℕ × ε)) :
    ((calls call history).filter (·.1 = r)).map Prod.snd =
      ((history.filter (·.1 = r)).map Prod.snd).filterMap call := by
  induction history with
  | nil => rfl
  | cons e history ih =>
      by_cases hr : e.1 = r <;> cases he : call e.2 <;>
        simp_all [calls]

theorem acts_calls (history : List (ℕ × ε)) :
    (calls call history).filterMap (fun e => e.2.act) =
      history.filterMap fun e => (call e.2).bind Event.act := by
  rw [calls, List.filterMap_filterMap]
  congr 1
  funext e
  cases call e.2 <;> rfl

end Histories

/-- Where every step moves the process in its calls and the object accordingly, the history of a
run is linearizable. `I` relates the states of the processes to those of the object. -/
theorem linearizes {S ℓ α ε : Type*} {P : Process S ℓ α ε} {C : World S ℓ ε → ℕ × α → Prop}
    {I : World S ℓ ε → σ → Prop} (call : ε → Option (Event ω ρ)) (phase : ℓ → Phase ω ρ)
    (hstep : ∀ w r a x s, I w s → C w (r, a) → P r w.shared (w.locals r) a = some x →
      ∃ t, I (w.after r x) t ∧
        Moves O s (phase (w.locals r)) (x.2.2.filterMap call) t (phase x.2.1))
    {w w' : World S ℓ ε} {as : List (ℕ × α)} {s : σ} (hI : I w s)
    (hidle : ∀ r, phase (w.locals r) = .idle) (hhistory : w.history = [])
    (hsteps : Machine.EachStep (step P) C w as) (hrun : Machine.run (step P) w as = some w') :
    ∃ t, I w' t ∧ Linearizes O s (calls call w'.history) t := by
  have hinv := hsteps.invariant (I := fun v =>
    (∀ r, Calls ((v.own r).filterMap call) (phase (v.locals r))) ∧
    ∃ t, I v t ∧ Sequential O s (v.history.filterMap fun e => (call e.2).bind Event.act) t)
    ⟨fun r => ?_, s, hI, ?_⟩ ?_ hrun
  · obtain ⟨hcalls, t, hI', hlegal⟩ := hinv
    refine ⟨t, hI', fun r => ⟨phase (w'.locals r), ?_⟩, ?_⟩
    · rw [filter_calls]
      exact hcalls r
    · rw [acts_calls]
      exact hlegal
  · rw [hidle, World.own, hhistory]
    exact .nil
  · rw [hhistory]
    exact .nil
  · rintro v ⟨r, a⟩ v' ⟨hcalls, t, hv, hlegal⟩ hC hv'
    obtain ⟨x, hx, rfl⟩ := step_eq_some.mp hv'
    obtain ⟨t', hI', hm⟩ := hstep v r a x t hv hC hx
    refine ⟨fun q => ?_, t', hI', ?_⟩
    · by_cases hq : q = r
      · subst hq
        rw [World.own_after_self, World.locals_after_self, List.filterMap_append]
        exact (hcalls q).moves hm
      · rw [World.own_after_ne hq, World.locals_after_ne hq]
        exact hcalls q
    · have hacts : (x.2.2.map (r, ·)).filterMap (fun e => (call e.2).bind Event.act) =
          (x.2.2.filterMap call).filterMap Event.act := by
        rw [List.filterMap_map, List.filterMap_filterMap]
        rfl
      rw [World.history_after, List.filterMap_append, hacts]
      exact hlegal.moves hm

end Linearizability
