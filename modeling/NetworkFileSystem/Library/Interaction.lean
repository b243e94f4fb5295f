import Mathlib.Data.Nat.Notation
import Mathlib.Logic.Basic
import Mathlib.Tactic.TypeStar

/-!
# Programs that call their environment

A program returns a value, or makes a call and goes on with the response. A protocol says which
calls are allowed in a state, which responses the environment may give and how the state changes.
`Meets` is the weakest precondition: whatever the responses, every call is allowed and the
postcondition holds at the end. It is sound for the traces of the program, finished or not.
-/

namespace Interaction

universe u v

variable {C : Type u} {R : C → Type v} {α β γ : Type v} {σ : Type*}

inductive Program (R : C → Type v) (α : Type v) : Type (max u v)
  | pure (a : α)
  | call (c : C) (next : R c → Program R α)

namespace Program

def bind : Program R α → (α → Program R β) → Program R β
  | pure a, f => f a
  | call c next, f => call c fun r => (next r).bind f

instance : Monad (Program R) where
  pure := pure
  bind := bind

/-- Make a call and return its response. -/
def perform (c : C) : Program R (R c) := call c pure

@[simp] theorem pure_bind (a : α) (f : α → Program R β) : (pure a : Program R α) >>= f = f a := rfl

@[simp] theorem call_bind (c : C) (next : R c → Program R α) (f : α → Program R β) :
    call c next >>= f = call c fun r => next r >>= f := rfl

@[simp] theorem perform_bind (c : C) (f : R c → Program R β) :
    perform c >>= f = call c f := rfl

theorem bind_assoc (p : Program R α) (f : α → Program R β) (g : β → Program R γ) :
    p >>= f >>= g = p >>= fun a => f a >>= g := by
  induction p with
  | pure a => rfl
  | call c next ih => exact congrArg (call c) (funext ih)

end Program

/-- The calls and responses of a run, with the program that is left. -/
inductive Trace : Program R α → List (Sigma R) → Program R α → Prop
  | nil (p) : Trace p [] p
  | cons {c next p tr} (r : R c) (h : Trace (next r) tr p) : Trace (.call c next) (⟨c, r⟩ :: tr) p

/-- The run with an environment that chooses its responses by the number of the call. -/
def Program.play (respond : ℕ → (c : C) → R c) (n : ℕ) : Program R α → List (Sigma R) × α
  | pure a => ([], a)
  | call c next =>
    let rest := (next (respond n c)).play respond (n + 1)
    (⟨c, respond n c⟩ :: rest.1, rest.2)

theorem trace_play (respond : ℕ → (c : C) → R c) (n : ℕ) (p : Program R α) :
    Trace p (p.play respond n).1 (.pure (p.play respond n).2) := by
  induction p generalizing n with
  | pure a => exact .nil _
  | call c next ih => exact .cons _ (ih _ (n + 1))

structure Protocol (R : C → Type v) (σ : Type*) where
  allowed : σ → C → Prop
  /-- The responses that the environment may give. -/
  responds : σ → (c : C) → R c → Prop
  after : σ → (c : C) → R c → σ

/-- Whatever the responses, every call of the program from the state is allowed, and what it
returns and the state at the end meet the postcondition. -/
def Meets (P : Protocol R σ) : Program R α → (α → σ → Prop) → σ → Prop
  | .pure a, Q, s => Q a s
  | .call c next, Q, s =>
    P.allowed s c ∧ ∀ r, P.responds s c r → Meets P (next r) Q (P.after s c r)

variable {P : Protocol R σ} {p : Program R α} {f : α → Program R β} {Q Q' : α → σ → Prop}
  {s t : σ}

theorem meets_pure {a : α} : Meets P (pure a : Program R α) Q s ↔ Q a s := Iff.rfl

theorem meets_call {c : C} {next : R c → Program R α} :
    Meets P (.call c next) Q s ↔
      P.allowed s c ∧ ∀ r, P.responds s c r → Meets P (next r) Q (P.after s c r) := Iff.rfl

theorem meets_perform_bind {c : C} {f : R c → Program R β} {Q : β → σ → Prop} :
    Meets P (Program.perform c >>= f) Q s ↔
      P.allowed s c ∧ ∀ r, P.responds s c r → Meets P (f r) Q (P.after s c r) := Iff.rfl

theorem Meets.mono (h : Meets P p Q s) (hQ : ∀ a t, Q a t → Q' a t) : Meets P p Q' s := by
  induction p generalizing s with
  | pure a => exact hQ a s h
  | call c next ih => exact ⟨h.1, fun r hr => ih r (h.2 r hr)⟩

theorem meets_bind {Q : β → σ → Prop} :
    Meets P (p >>= f) Q s ↔ Meets P p (fun a t => Meets P (f a) Q t) s := by
  induction p generalizing s with
  | pure a => exact Iff.rfl
  | call c next ih =>
      rw [Program.call_bind, meets_call, meets_call]
      exact and_congr_right fun _ => forall_congr' fun r => imp_congr_right fun _ => ih r

/-- The program is allowed in the states in which `I` holds and leaves them as they are. -/
def Keeps (P : Protocol R σ) (I : σ → Prop) (p : Program R α) : Prop :=
  ∀ s, I s → Meets P p (fun _ t => t = s) s

theorem keeps_pure {I : σ → Prop} (a : α) : Keeps P I (pure a : Program R α) := fun _ _ => rfl

theorem Keeps.meets_bind {I : σ → Prop} {Q : β → σ → Prop} (h : Keeps P I p) (hs : I s)
    (hf : ∀ a, Meets P (f a) Q s) : Meets P (p >>= f) Q s :=
  Interaction.meets_bind.mpr ((h s hs).mono fun a _ ht => ht ▸ hf a)

theorem Keeps.bind {I : σ → Prop} (h : Keeps P I p) (hf : ∀ a, Keeps P I (f a)) :
    Keeps P I (p >>= f) :=
  fun s hs => h.meets_bind hs fun a => hf a s hs

/-- The environment gives responses that it may give. -/
def Protocol.Responds (P : Protocol R σ) : σ → List (Sigma R) → Prop
  | _, [] => True
  | s, e :: tr => P.responds s e.1 e.2 ∧ P.Responds (P.after s e.1 e.2) tr

instance Protocol.decidableResponds [∀ s c r, Decidable (P.responds s c r)] :
    (s : σ) → (tr : List (Sigma R)) → Decidable (P.Responds s tr)
  | _, [] => isTrue trivial
  | s, e :: tr =>
    have := Protocol.decidableResponds (P.after s e.1 e.2) tr
    inferInstanceAs (Decidable (_ ∧ _))

theorem Protocol.responds_of_forall (h : ∀ s c r, P.responds s c r) (s : σ) (tr : List (Sigma R)) :
    P.Responds s tr := by
  induction tr generalizing s with
  | nil => exact trivial
  | cons e tr ih => exact ⟨h s e.1 e.2, ih _⟩

/-- Every call of the trace is allowed. -/
def Protocol.Allows (P : Protocol R σ) : σ → List (Sigma R) → Prop
  | _, [] => True
  | s, e :: tr => P.allowed s e.1 ∧ P.Allows (P.after s e.1 e.2) tr

def Protocol.final (P : Protocol R σ) : σ → List (Sigma R) → σ
  | s, [] => s
  | s, e :: tr => P.final (P.after s e.1 e.2) tr

/-- The calls of every run are allowed, also of a run that is not finished, and the program that
is left meets the postcondition from the state reached. -/
theorem Meets.of_trace {p' : Program R α} {tr : List (Sigma R)} (h : Meets P p Q s)
    (htr : Trace p tr p') (hr : P.Responds s tr) :
    P.Allows s tr ∧ Meets P p' Q (P.final s tr) := by
  induction htr generalizing s with
  | nil p => exact ⟨trivial, h⟩
  | cons r htr ih =>
      obtain ⟨hallowed, hmeets⟩ := ih (h.2 r hr.1) hr.2
      exact ⟨⟨h.1, hallowed⟩, hmeets⟩

/-- The protocol with a flag that a call which is not allowed raises, instead of being ruled
out. -/
def Protocol.audit (P : Protocol R σ) : Protocol R (σ × Prop) where
  allowed _ _ := True
  responds s := P.responds s.1
  after s c r := (P.after s.1 c r, s.2 ∨ ¬ P.allowed s.1 c)

theorem responds_audit (s : σ) (v : Prop) {tr : List (Sigma R)} (h : P.Responds s tr) :
    P.audit.Responds (s, v) tr := by
  induction tr generalizing s v with
  | nil => exact trivial
  | cons e tr ih => exact ⟨h.1, ih _ _ h.2⟩

theorem final_audit (s : σ) (v : Prop) (tr : List (Sigma R)) :
    P.audit.final (s, v) tr = (P.final s tr, v ∨ ¬ P.Allows s tr) := by
  induction tr generalizing s v with
  | nil => simp [Protocol.final, Protocol.Allows]
  | cons e tr ih =>
      have hafter : P.audit.after (s, v) e.1 e.2 =
          (P.after s e.1 e.2, v ∨ ¬ P.allowed s e.1) := rfl
      rw [Protocol.final, hafter, ih]
      simp only [Protocol.final, Protocol.Allows, not_and_or, or_assoc]

/-- A program whose calls are allowed does not raise the flag. -/
theorem Meets.audit {v : Prop} (h : Meets P p Q s) :
    Meets P.audit p (fun a t => Q a t.1 ∧ t.2 = v) (s, v) := by
  induction p generalizing s v with
  | pure a => exact ⟨h, rfl⟩
  | call c next ih =>
      refine ⟨trivial, fun r hr => ?_⟩
      have hflag : (v ∨ ¬ P.allowed s c) = v := propext (or_iff_left (not_not_intro h.1))
      have hafter : P.audit.after (s, v) c r = (P.after s c r, v) := congrArg _ hflag
      rw [hafter]
      exact ih r (h.2 r hr)

/-- What every call keeps, whether it is allowed or not. -/
theorem meets_audit_of_kept {I : σ → Prop} (hI : ∀ s c r, I s → I (P.after s c r))
    (p : Program R α) {t : σ × Prop} (ht : I t.1) (hv : t.2) :
    Meets P.audit p (fun _ u => I u.1 ∧ u.2) t := by
  induction p generalizing t with
  | pure a => exact ⟨ht, hv⟩
  | call c next ih => exact ⟨trivial, fun r _ => ih r (hI _ c r ht) (Or.inl hv)⟩

/-- Repeat a program. -/
def Program.iterate (p : Program R α) : ℕ → Program R (List α)
  | 0 => pure []
  | n + 1 => do
    let a ← p
    let rest ← p.iterate n
    pure (a :: rest)

/-- What each repetition keeps holds after any number of them. -/
theorem meets_iterate {I : σ → Prop} (hstep : ∀ s, I s → Meets P p (fun _ t => I t) s) (n : ℕ)
    (hs : I s) : Meets P (p.iterate n) (fun _ t => I t) s := by
  induction n generalizing s with
  | zero => exact hs
  | succ n ih =>
      rw [Program.iterate, meets_bind]
      refine (hstep s hs).mono fun a t ht => ?_
      rw [meets_bind]
      exact (ih ht).mono fun _ _ hu => hu

end Interaction
