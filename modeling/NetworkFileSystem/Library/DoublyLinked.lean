import Mathlib.Data.List.Nodup
import Mathlib.Data.List.Basic
import Mathlib.Logic.Function.Basic

/-!
# Doubly linked segments of a heap

A heap of nodes is seen through the `prev` and `next` pointers of its live nodes. `Seg h b l a`
states that the nodes of `l` are linked to each other in this order, that the first one points
back to `b` and that the last one points on to `a`. Unlinking a node and linking a node in front
keep a whole list a segment; pointers of nodes outside the list are never touched.
-/

namespace DoublyLinked

variable {P : Type*}

structure Links (P : Type*) where
  prev : Option P
  next : Option P

abbrev LinkMap (P : Type*) := P → Option (Links P)

/-- The nodes of the list are linked in order, between the pointers `b` and `a`. -/
def Seg (h : LinkMap P) (b : Option P) : List P → Option P → Prop
  | [], _ => True
  | p :: l, a => h p = some ⟨b, l.head?.or a⟩ ∧ Seg h (some p) l a

variable {h h' : LinkMap P} {a b v : Option P} {p q : P} {l l₁ l₂ : List P}

theorem Seg.congr (hs : Seg h b l a) (hh : ∀ p ∈ l, h' p = h p) : Seg h' b l a := by
  induction l generalizing b with
  | nil => trivial
  | cons p l ih =>
      refine ⟨(hh p (by simp)).trans hs.1, ih hs.2 fun q hq => hh q (by simp [hq])⟩

theorem seg_append :
    Seg h b (l₁ ++ l₂) a ↔ Seg h b l₁ (l₂.head?.or a) ∧ Seg h (l₁.getLast?.or b) l₂ a := by
  induction l₁ generalizing b with
  | nil => simp [Seg]
  | cons p l ih =>
      have hlast : (p :: l).getLast?.or b = l.getLast?.or (some p) := by
        rw [List.getLast?_cons]
        cases l.getLast? <;> rfl
      have hhead : (l ++ l₂).head?.or a = l.head?.or (l₂.head?.or a) := by
        rw [List.head?_append, Option.or_assoc]
      simp only [List.cons_append, Seg, hhead, ih, hlast, and_assoc]

theorem Seg.lookup (hs : Seg h b (l₁ ++ p :: l₂) a) :
    h p = some ⟨l₁.getLast?.or b, l₂.head?.or a⟩ :=
  (seg_append.mp hs).2.1

theorem Seg.isSome (hs : Seg h b l a) (hp : p ∈ l) : (h p).isSome := by
  obtain ⟨l₁, l₂, rfl⟩ := List.append_of_mem hp
  rw [hs.lookup]
  rfl

variable [DecidableEq P]

def setNext (h : LinkMap P) (v : Option P) (p : P) : LinkMap P :=
  Function.update h p ((h p).map fun l => { l with next := v })

def setPrev (h : LinkMap P) (v : Option P) (p : P) : LinkMap P :=
  Function.update h p ((h p).map fun l => { l with prev := v })

/-- Link the optional neighbours `q` and `r` to each other. -/
def bridge (h : LinkMap P) (q r : Option P) : LinkMap P :=
  r.elim (q.elim h (setNext h r)) (setPrev (q.elim h (setNext h r)) q)

/-- Store a node `p` in front of the optional first node `f`. -/
def pushFront (h : LinkMap P) (p : P) (f : Option P) : LinkMap P :=
  f.elim (Function.update h p (some ⟨none, f⟩))
    (setPrev (Function.update h p (some ⟨none, f⟩)) (some p))

theorem setNext_of_ne (hpq : q ≠ p) : setNext h v p q = h q := Function.update_of_ne hpq _ _

theorem setPrev_of_ne (hpq : q ≠ p) : setPrev h v p q = h q := Function.update_of_ne hpq _ _

@[simp] theorem setNext_self : setNext h v p p = (h p).map fun l => { l with next := v } :=
  Function.update_self _ _ _

@[simp] theorem setPrev_self : setPrev h v p p = (h p).map fun l => { l with prev := v } :=
  Function.update_self _ _ _

/-- Redirecting the `next` pointer of the last node moves the end of the segment. -/
theorem Seg.setNext_getLast (hs : Seg h b l a) (hn : l.Nodup) :
    Seg (l.getLast?.elim h (setNext h v)) b l v := by
  rcases List.eq_nil_or_concat' l with rfl | ⟨l, p, rfl⟩
  · trivial
  · have hp : p ∉ l := fun hp => (List.nodup_append.mp hn).2.2 p hp p (by simp) rfl
    rw [List.getLast?_append, List.getLast?_singleton, Option.some_or, Option.elim_some]
    rw [seg_append] at hs ⊢
    refine ⟨hs.1.congr fun q hq => setNext_of_ne (ne_of_mem_of_not_mem hq hp), ?_, trivial⟩
    rw [setNext_self, hs.2.1]
    rfl

/-- Redirecting the `prev` pointer of the first node moves the start of the segment. -/
theorem Seg.setPrev_head (hs : Seg h b l a) (hn : l.Nodup) :
    Seg (l.head?.elim h (setPrev h v)) v l a := by
  cases l with
  | nil => trivial
  | cons p l =>
      have hp : p ∉ l := (List.nodup_cons.mp hn).1
      refine ⟨?_, hs.2.congr fun q hq => setPrev_of_ne (ne_of_mem_of_not_mem hq hp)⟩
      change setPrev h v p p = _
      rw [setPrev_self, hs.1]
      rfl

theorem elim_setNext_of_notMem (hp : p ∉ l) :
    (l.getLast?.elim h (setNext h v)) p = h p := by
  cases hq : l.getLast? with
  | none => rfl
  | some q => exact setNext_of_ne (ne_of_mem_of_not_mem (List.mem_of_getLast? hq) hp).symm

theorem elim_setPrev_of_notMem (hp : p ∉ l) :
    (l.head?.elim h (setPrev h v)) p = h p := by
  cases hq : l.head? with
  | none => rfl
  | some q => exact setPrev_of_ne (ne_of_mem_of_not_mem (List.mem_of_head? hq) hp).symm

theorem bridge_of_notMem (hp₁ : p ∉ l₁) (hp₂ : p ∉ l₂) :
    bridge h l₁.getLast? l₂.head? p = h p :=
  (elim_setPrev_of_notMem hp₂).trans (elim_setNext_of_notMem hp₁)

theorem bridge_setNext (v r : Option P) :
    bridge (setNext h v p) (some p) r = bridge h (some p) r := by
  have hset : setNext (setNext h v p) r p = setNext h r p := by
    simp [setNext, Function.comp_def]
  cases r <;> simp [bridge, hset]

/-- Linking the neighbours of a node to each other leaves the list without that node. -/
theorem Seg.unlink (hs : Seg h none (l₁ ++ p :: l₂) none) (hn : (l₁ ++ p :: l₂).Nodup) :
    Seg (bridge h l₁.getLast? l₂.head?) none (l₁ ++ l₂) none := by
  obtain ⟨hn₁, hn₂, hdisj⟩ := List.nodup_append.mp hn
  obtain ⟨hs₁, -, hs₂⟩ := seg_append.mp hs
  have hd : ∀ q ∈ l₁, q ∉ l₂ := fun q hq hq' => hdisj q hq q (by simp [hq']) rfl
  have hs₁' := hs₁.setNext_getLast (v := l₂.head?) hn₁
  have hs₂' := (hs₂.congr fun q hq => elim_setNext_of_notMem (h := h) (v := l₂.head?)
    fun hq' => hd q hq' hq).setPrev_head (v := l₁.getLast?) (List.nodup_cons.mp hn₂).2
  rw [seg_append, Option.or_none, Option.or_none]
  exact ⟨hs₁'.congr fun q hq => elim_setPrev_of_notMem (hd q hq), hs₂'⟩

/-- Linking a new node in front of a list. -/
theorem Seg.pushFront (hs : Seg h none l none) (hl : l.Nodup) (hp : p ∉ l) :
    Seg (pushFront h p l.head?) none (p :: l) none := by
  have hs' : Seg (Function.update h p (some ⟨none, l.head?⟩)) none l none :=
    hs.congr fun q hq => Function.update_of_ne (ne_of_mem_of_not_mem hq hp) _ _
  refine ⟨?_, hs'.setPrev_head hl⟩
  rw [Option.or_none]
  exact (elim_setPrev_of_notMem hp).trans (Function.update_self _ _ _)

end DoublyLinked
