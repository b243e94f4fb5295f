import Mathlib.Data.List.Basic

/-!
# Singly linked chains

A heap of nodes is seen through their `next` pointers. A chain is the list of the nodes that a walk
along them visits; pushing a new node in front of it leaves its nodes alone.
-/

namespace SinglyLinked

variable {P : Type*}

/-- Following `next` from the pointer visits these nodes, and then the null pointer. -/
inductive Chain (next : P → Option (Option P)) : Option P → List P → Prop
  | nil : Chain next none []
  | cons {p : P} {q : Option P} {l : List P} :
    next p = some q → Chain next q l → Chain next (some p) (p :: l)

variable {next next' : P → Option (Option P)} {start : Option P} {p : P} {l : List P}

theorem Chain.congr (h : Chain next start l) (hnext : ∀ p ∈ l, next' p = next p) :
    Chain next' start l := by
  induction h with
  | nil => exact .nil
  | cons hp _ ih =>
      exact .cons ((hnext _ (by simp)).trans hp) (ih fun q hq => hnext q (by simp [hq]))

theorem Chain.push (h : Chain next start l) (hp : next' p = some start)
    (hnext : ∀ q ∈ l, next' q = next q) : Chain next' (some p) (p :: l) :=
  .cons hp (h.congr hnext)

end SinglyLinked
