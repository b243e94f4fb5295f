import NetworkFileSystem.TrieTraversal
import Mathlib.Data.List.Lex
import Mathlib.Data.List.Sort

/-!
# The order of the traversal

`trie_collect_paths` visits paths in lexicographic order, prefixes first. The part of the trie that
it has visited is the part before a bound, and the paths that it has stored are those of some map
before the bound.
-/

namespace NetworkFileSystem

/-- The path comes before the bound; a bound may end in `256`, after all bytes. -/
def Before (p : Path) (bound : List ℕ) : Prop := p.map UInt8.toNat < bound

theorem before_nil (p : Path) : ¬Before p [] := List.not_lt_nil _

theorem before_concat (q : Path) (k : ℕ) (p : Path) :
    Before p (q.map UInt8.toNat ++ [k]) ↔
      Before p (q.map UInt8.toNat) ∨ p = q ∨ ∃ d rest, d.toNat < k ∧ p = q ++ d :: rest := by
  induction q generalizing p with
  | nil =>
      cases p with
      | nil => simp [Before]
      | cons d p => simp [Before, List.cons_lt_cons_iff]
  | cons c q ih =>
      cases p with
      | nil => simp [Before]
      | cons d p =>
          have hp := ih p
          simp only [Before, List.map_cons, List.cons_append, List.cons_lt_cons_iff,
            List.cons.injEq, UInt8.toNat_inj] at hp ⊢
          constructor
          · rintro (hlt | ⟨rfl, h⟩)
            · exact Or.inl (Or.inl hlt)
            · rcases hp.mp h with h | rfl | ⟨e, rest, he, rfl⟩
              · exact Or.inl (Or.inr ⟨rfl, h⟩)
              · exact Or.inr (Or.inl ⟨rfl, rfl⟩)
              · exact Or.inr (Or.inr ⟨e, rest, he, rfl, rfl⟩)
          · rintro ((hlt | ⟨rfl, h⟩) | ⟨rfl, rfl⟩ | ⟨e, rest, he, rfl, rfl⟩)
            · exact Or.inl hlt
            · exact Or.inr ⟨rfl, hp.mpr (Or.inl h)⟩
            · exact Or.inr ⟨rfl, hp.mpr (Or.inr (Or.inl rfl))⟩
            · exact Or.inr ⟨rfl, hp.mpr (Or.inr (Or.inr ⟨e, rest, he, rfl⟩))⟩

/-- The node itself comes next, before its children. -/
theorem before_concat_zero (q p : Path) :
    Before p (q.map UInt8.toNat ++ [0]) ↔ Before p (q.map UInt8.toNat) ∨ p = q := by
  simp [before_concat]

/-- The next child comes with the paths below it. -/
theorem before_concat_succ (q : Path) (c : UInt8) (p : Path) :
    Before p (q.map UInt8.toNat ++ [c.toNat + 1]) ↔
      Before p (q.map UInt8.toNat ++ [c.toNat]) ∨ ∃ rest, p = q ++ c :: rest := by
  rw [before_concat, before_concat, or_assoc, or_assoc]
  refine or_congr_right (or_congr_right ?_)
  constructor
  · rintro ⟨d, rest, hd, rfl⟩
    rcases Nat.lt_succ_iff_lt_or_eq.mp hd with hlt | heq
    · exact Or.inl ⟨d, rest, hlt, rfl⟩
    · obtain rfl := UInt8.toNat_inj.mp heq
      exact Or.inr ⟨rest, rfl⟩
  · rintro (⟨d, rest, hd, rfl⟩ | ⟨rest, rfl⟩)
    · exact ⟨d, rest, hd.trans (Nat.lt_succ_self _), rfl⟩
    · exact ⟨c, rest, Nat.lt_succ_self _, rfl⟩

/-- After its last child, all of the subtree of a node has been visited. -/
theorem before_concat_last (q : Path) {i : ℕ} (hi : 256 ≤ i) (p : Path) :
    Before p (q.map UInt8.toNat ++ [i]) ↔
      Before p (q.map UInt8.toNat) ∨ ∃ rest, p = q ++ rest := by
  rw [before_concat]
  refine or_congr_right ?_
  constructor
  · rintro (rfl | ⟨d, rest, -, rfl⟩)
    · exact ⟨[], (List.append_nil p).symm⟩
    · exact ⟨d :: rest, rfl⟩
  · rintro ⟨rest, rfl⟩
    cases rest with
    | nil => exact Or.inl (List.append_nil q)
    | cons d rest => exact Or.inr ⟨d, rest, d.toNat_lt.trans_le hi, rfl⟩

/-- Visited in order, each path once. -/
def InOrder (paths : List Path) : Prop :=
  paths.Pairwise fun p q => Before p (q.map UInt8.toNat)

theorem InOrder.eq_of_mem_iff {l l' : List Path} (h : InOrder l) (h' : InOrder l')
    (hmem : ∀ p, p ∈ l ↔ p ∈ l') : l = l' := by
  have : Std.Irrefl fun p q : Path => Before p (q.map UInt8.toNat) := ⟨fun p => lt_irrefl _⟩
  have : Std.Antisymm fun p q : Path => Before p (q.map UInt8.toNat) :=
    ⟨fun p q hpq hqp => absurd (lt_trans hpq hqp) (lt_irrefl _)⟩
  exact List.Pairwise.eq_of_mem_iff h h' hmem

variable {α : Type}

theorem TrieNode.inOrder_mappedPaths (t : TrieNode α) : InOrder t.mappedPaths := by
  induction t using induct with
  | node info children ih =>
      rw [InOrder, mappedPaths, List.pairwise_append, List.pairwise_flatMap]
      refine ⟨by split_ifs <;> simp, ⟨fun i _ => ?_, ?_⟩, ?_⟩
      · cases hchild : children (UInt8.ofFin i) with
        | none => exact List.Pairwise.nil
        | some child =>
            rw [childPaths, List.pairwise_map]
            refine (ih _ child hchild).imp fun {p q} hpq => ?_
            exact List.cons_lt_cons_iff.mpr (Or.inr ⟨rfl, hpq⟩)
      · refine (List.pairwise_lt_finRange 256).imp fun {i j} hlt p hp q hq => ?_
        obtain ⟨_, _, -, -, rfl⟩ := mem_childPaths.mp hp
        obtain ⟨_, _, -, -, rfl⟩ := mem_childPaths.mp hq
        exact List.cons_lt_cons_iff.mpr (Or.inl hlt)
      · rintro p hp q hq
        obtain ⟨i, -, hq⟩ := List.mem_flatMap.mp hq
        obtain ⟨_, _, -, -, rfl⟩ := mem_childPaths.mp hq
        split_ifs at hp
        · obtain rfl := List.mem_singleton.mp hp
          exact List.nil_lt_cons _ _
        · cases hp

/-! ### What a traversal has stored -/

/-- The stored paths are the first ones of `map` before the bound, and from the bound on the
contents are still those of `map`. -/
structure Snapshot (map : Path → Option α) (bound : List ℕ) (paths : List Path)
    (now : Path → Option α) : Prop where
  stored : ∃ all, InOrder all ∧ (∀ p, p ∈ all ↔ Before p bound ∧ map p ≠ none) ∧
    paths = all.take maxAccessiblePaths
  ahead : ∀ p, ¬Before p bound → map p = now p

namespace Snapshot

variable {map now : Path → Option α} {bound bound' : List ℕ} {paths : List Path} {q : Path}

theorem start (map : Path → Option α) : Snapshot map [] [] map where
  stored := ⟨[], .nil, fun p => by simp [before_nil], rfl⟩
  ahead _ _ := rfl

/-- The node at the path is visited. -/
theorem visit (h : Snapshot map (q.map UInt8.toNat) paths now) :
    Snapshot map (q.map UInt8.toNat ++ [0])
      ((paths ++ if (now q).isSome then [q] else []).take maxAccessiblePaths) now := by
  obtain ⟨⟨all, hsorted, hmem, rfl⟩, hahead⟩ := h
  have hq : map q = now q := hahead q (lt_irrefl _)
  refine ⟨⟨all ++ if (now q).isSome then [q] else [], ?_, fun p => ?_, ?_⟩, fun p hp => ?_⟩
  · refine List.pairwise_append.mpr ⟨hsorted, by split_ifs <;> simp, fun p hp p' hp' => ?_⟩
    split_ifs at hp'
    · obtain rfl := List.mem_singleton.mp hp'
      exact ((hmem p).mp hp).1
    · cases hp'
  · rw [List.mem_append, hmem, before_concat_zero]
    cases hnow : now q with
    | none =>
        have hne : map p ≠ none → p ≠ q := fun hp heq => hp (heq ▸ hq.trans hnow)
        simp only [Option.isSome_none, Bool.false_eq_true, if_false, List.not_mem_nil]
        tauto
    | some ssInfo =>
        have hsome : p = q → map p ≠ none := fun heq => by simp [heq, hq, hnow]
        simp only [Option.isSome_some, if_true, List.mem_singleton]
        tauto
  · exact PathCollection.take_take_append _ _ _
  · exact hahead p fun hlt => hp ((before_concat_zero q p).mpr (Or.inl hlt))

/-- The bound moves on over paths that are not mapped. -/
theorem pass (h : Snapshot map bound paths now) (skipped : Path → Prop)
    (hbound : ∀ p, Before p bound' ↔ Before p bound ∨ skipped p)
    (hnone : ∀ p, skipped p → now p = none) : Snapshot map bound' paths now := by
  obtain ⟨⟨all, hsorted, hmem, hpaths⟩, hahead⟩ := h
  refine ⟨⟨all, hsorted, fun p => ?_, hpaths⟩, fun p hp => ?_⟩
  · rw [hmem, hbound]
    have hahead := hahead p
    have hnone := hnone p
    constructor
    · exact fun ⟨hlt, hp⟩ => ⟨Or.inl hlt, hp⟩
    · rintro ⟨hlt, hp⟩
      by_contra hnot
      have hnlt : ¬Before p bound := fun hlt => hnot ⟨hlt, hp⟩
      exact hp ((hahead hnlt).trans (hnone (hlt.resolve_left hnlt)))
  · exact hahead p fun hlt => hp ((hbound p).mpr (Or.inl hlt))

/-- A change behind the bound is not seen. -/
theorem behind (h : Snapshot map bound paths now) (hq : Before q bound) (v : Option α) :
    Snapshot map bound paths (Function.update now q v) where
  stored := h.stored
  ahead p hp := by
    have hne : p ≠ q := fun heq => hp (heq ▸ hq)
    rw [Function.update_of_ne hne]
    exact h.ahead p hp

/-- A change ahead of the bound is seen. -/
theorem before_change (h : Snapshot now bound paths now) (hq : ¬Before q bound) (v : Option α) :
    Snapshot (Function.update now q v) bound paths (Function.update now q v) := by
  obtain ⟨⟨all, hsorted, hmem, hpaths⟩, -⟩ := h
  refine ⟨⟨all, hsorted, fun p => ?_, hpaths⟩, fun _ _ => rfl⟩
  rw [hmem]
  refine and_congr_right fun hlt => ?_
  have hne : p ≠ q := fun heq => hq (heq ▸ hlt)
  rw [Function.update_of_ne hne]

/-- At the end the paths are what `trie_collect_paths` returns on a trie that holds the map. -/
theorem finish (h : Snapshot map bound paths now) (hall : ∀ p, Before p bound)
    (hzero : ∀ p, map p ≠ none → 0 ∉ p) {t : TrieNode α} (ht : ∀ p, t.trieSearch p = map p)
    (buffer : ℕ → UInt8) : t.trieCollectPaths buffer = paths := by
  obtain ⟨⟨all, hsorted, hmem, rfl⟩, -⟩ := h
  have hmapped : ∀ p, p ∈ t.mappedPaths ↔ map p ≠ none := fun p => by
    rw [TrieNode.mem_mappedPaths, ht]
  rw [TrieNode.trieCollectPaths_eq t buffer fun p hp => hzero p ((hmapped p).mp hp)]
  refine congrArg (List.take maxAccessiblePaths)
    (t.inOrder_mappedPaths.eq_of_mem_iff hsorted fun p => ?_)
  rw [hmapped, hmem]
  exact ⟨fun hp => ⟨hall p, hp⟩, fun hp => hp.2⟩

end Snapshot
end NetworkFileSystem
