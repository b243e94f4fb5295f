import Mathlib.Data.List.Perm.Basic
import Mathlib.Data.List.Nodup

/-!
# Lists ordered by recency

A list is ordered by recency with respect to a sequence of touches if, wherever it is cut, there is
a moment since which all elements before the cut were touched, and none behind it. Moving a touched
element to the front and dropping elements keep the order.
-/

namespace Recency

variable {β : Type*}

def RecentFirst (touches l : List β) : Prop :=
  ∀ l₁ l₂, l = l₁ ++ l₂ →
    ∃ a b, touches = a ++ b ∧ (∀ x ∈ l₁, x ∈ b) ∧ ∀ x ∈ l₂, x ∉ b

variable {touches l l' : List β} {x y : β}

theorem recentFirst_nil : RecentFirst touches [] := by
  intro l₁ l₂ h
  obtain ⟨rfl, rfl⟩ := List.append_eq_nil_iff.mp h.symm
  exact ⟨touches, [], by simp, by simp, by simp⟩

/-- Elements may be dropped. -/
theorem RecentFirst.sublist (h : RecentFirst touches l) (hl : l'.Sublist l) :
    RecentFirst touches l' := by
  rintro l₁ l₂ rfl
  obtain ⟨r₁, r₂, rfl, h₁, h₂⟩ := List.append_sublist_iff.mp hl
  obtain ⟨a, b, hab, hb₁, hb₂⟩ := h r₁ r₂ rfl
  exact ⟨a, b, hab, fun x hx => hb₁ x (h₁.subset hx), fun x hx => hb₂ x (h₂.subset hx)⟩

/-- A touched element comes to the front. -/
theorem RecentFirst.touch (h : RecentFirst touches l) (hx : x ∉ l) :
    RecentFirst (touches ++ [x]) (x :: l) := by
  intro l₁ l₂ heq
  cases l₁ with
  | nil => exact ⟨touches ++ [x], [], by simp, by simp, by simp⟩
  | cons y l₁ =>
      obtain ⟨rfl, rfl⟩ := List.cons.inj heq
      obtain ⟨a, b, rfl, hb₁, hb₂⟩ := h l₁ l₂ rfl
      refine ⟨a, b ++ [x], by simp, fun y hy => ?_, fun y hy hmem => ?_⟩
      · rcases List.mem_cons.mp hy with rfl | hy
        · simp
        · exact List.mem_append_left _ (hb₁ y hy)
      · rcases List.mem_append.mp hmem with hold | hnew
        · exact hb₂ y hy hold
        · rw [List.mem_singleton.mp hnew] at hy
          exact hx (List.mem_append_right _ hy)

theorem RecentFirst.mem (h : RecentFirst touches l) (hx : x ∈ l) : x ∈ touches := by
  obtain ⟨a, b, rfl, hb, -⟩ := h l [] (by simp)
  exact List.mem_append_right _ (hb x hx)

/-- All others were touched after the last element of the list. -/
theorem RecentFirst.last (h : RecentFirst touches (l ++ [x])) :
    ∃ a b, touches = a ++ b ∧ x ∈ a ∧ x ∉ b ∧ ∀ y ∈ l, y ∈ b := by
  obtain ⟨a, b, rfl, hl, hx⟩ := h l [x] rfl
  have hxb := hx x (by simp)
  have hmem := (List.mem_append.mp (h.mem (x := x) (by simp))).resolve_right hxb
  exact ⟨a, b, rfl, hmem, hxb, hl⟩

/-- Whatever is ahead of an element was touched after each touch of it. -/
theorem RecentFirst.ahead {l₁ l₂ a b : List β} (h : RecentFirst (a ++ x :: b) (l₁ ++ x :: l₂)) :
    ∀ y ∈ l₁, y ∈ b := by
  obtain ⟨a', b', heq, hl₁, hl₂⟩ := h l₁ (x :: l₂) rfl
  have hx : x ∉ b' := hl₂ x (by simp)
  rcases List.append_eq_append_iff.mp heq with ⟨c, -, hc⟩ | ⟨c, -, hc⟩
  · cases c with
    | nil =>
        rw [List.nil_append] at hc
        exact absurd (hc ▸ List.mem_cons_self) hx
    | cons z c =>
        obtain ⟨-, hb⟩ := List.cons.inj hc
        intro y hy
        rw [hb]
        exact List.mem_append_right _ (hl₁ y hy)
  · exact absurd (hc ▸ List.mem_append_right c List.mem_cons_self) hx

end Recency
