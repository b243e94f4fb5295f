import NetworkFileSystem.Trie
import Mathlib.Data.List.Induction

/-!
# The trie in memory

The nodes of `trie.c` at their addresses, which are natural numbers. What a thread does to one
node under its lock is one visit; a visit adds a node or sets a server, and nothing is ever moved.
The path to a node is unique, so that the nodes hold a partial map from paths to servers.
-/

namespace NetworkFileSystem

structure TrieCell (α : Type) where
  ssInfo : Option α
  children : UInt8 → Option ℕ

/-- The addresses from `fresh` on are not allocated. -/
structure TrieHeap (α : Type) where
  cells : ℕ → TrieCell α
  fresh : ℕ

inductive TrieOp (α : Type)
  | insert (path : Path) (ssInfo : α)
  | search (path : Path)
  | delete (path : Path)

variable {α : Type}

namespace TrieOp

def path : TrieOp α → Path
  | insert path _ | search path | delete path => path

/-- The operation on the map that the trie stands for. -/
def apply (map : Path → Option α) : TrieOp α → Path → Option α
  | insert path ssInfo => Function.update map path (some ssInfo)
  | search _ => map
  | delete path => Function.update map path none

/-- What the operation returns. -/
def result (map : Path → Option α) : TrieOp α → Option α
  | search path => map path
  | _ => none

/-- The operation on the trie as a tree. -/
def applyNode (t : TrieNode α) : TrieOp α → TrieNode α
  | insert path ssInfo => t.trieInsert ssInfo path
  | search _ => t
  | delete path => t.trieDelete path

theorem trieSearch_applyNode (op : TrieOp α) (t : TrieNode α) (p : Path) :
    (op.applyNode t).trieSearch p = op.apply (fun q => t.trieSearch q) p := by
  cases op with
  | insert path ssInfo =>
      rw [applyNode, TrieNode.trieSearch_trieInsert, apply, Function.update_apply]
  | search path => rfl
  | delete path =>
      rw [applyNode, TrieNode.trieSearch_trieDelete, apply, Function.update_apply]

end TrieOp

namespace TrieHeap

def root : ℕ := 0

/-- The root alone, as `create_trie_node` leaves it. -/
def init : TrieHeap α := ⟨fun _ => ⟨none, fun _ => none⟩, 1⟩

/-- `children[c] = create_trie_node()` at the node. -/
def addChild (h : TrieHeap α) (n : ℕ) (c : UInt8) : TrieHeap α where
  cells := Function.update (Function.update h.cells h.fresh ⟨none, fun _ => none⟩) n
    { h.cells n with children := Function.update (h.cells n).children c (some h.fresh) }
  fresh := h.fresh + 1

def setInfo (h : TrieHeap α) (n : ℕ) (ssInfo : Option α) : TrieHeap α :=
  { h with cells := Function.update h.cells n { h.cells n with ssInfo := ssInfo } }

/-- How a visit ends: the operation returns, or it goes on to the child that it saw. -/
inductive Visit (α : Type)
  | returns (result : Option α)
  | goesOn (c : UInt8) (seen : ℕ)

/-- What an operation does to a node while it holds the lock, with the bytes of the path below. -/
def visit (h : TrieHeap α) (op : TrieOp α) (n : ℕ) (rest : Path) : TrieHeap α × Visit α :=
  match rest with
  | [] =>
    match op with
    | .insert _ ssInfo => (h.setInfo n (some ssInfo), .returns none)
    | .search _ => (h, .returns (h.cells n).ssInfo)
    | .delete _ => (h.setInfo n none, .returns none)
  | c :: _ =>
    match (h.cells n).children c, op with
    | some m, _ => (h, .goesOn c m)
    | none, .insert _ _ => (h.addChild n c, .goesOn c h.fresh)
    | none, _ => (h, .returns none)

/-! ### Paths in memory -/

def walkFrom (h : TrieHeap α) (n : ℕ) : Path → Option ℕ
  | [] => some n
  | c :: p => ((h.cells n).children c).bind fun m => walkFrom h m p

/-- The node at the end of the path. -/
def walk (h : TrieHeap α) (p : Path) : Option ℕ := h.walkFrom root p

/-- The map that the nodes hold. -/
def contents (h : TrieHeap α) (p : Path) : Option α :=
  (h.walk p).bind fun n => (h.cells n).ssInfo

structure WellFormed (h : TrieHeap α) : Prop where
  unique : ∀ p q n, h.walk p = some n → h.walk q = some n → p = q
  allocated : ∀ p n, h.walk p = some n → n < h.fresh
  /-- A child is allocated after its parent. -/
  ascending : ∀ n c m, n < h.fresh → (h.cells n).children c = some m → n < m ∧ m < h.fresh

/-- Paths stay where they are. -/
def Extends (h h' : TrieHeap α) : Prop := ∀ p n, h.walk p = some n → h'.walk p = some n

variable {h h' : TrieHeap α} {p q : Path} {n m x : ℕ} {c : UInt8}

theorem Extends.refl (h : TrieHeap α) : h.Extends h := fun _ _ => id

theorem walkFrom_append (h : TrieHeap α) (n : ℕ) (p q : Path) :
    h.walkFrom n (p ++ q) = (h.walkFrom n p).bind fun m => h.walkFrom m q := by
  induction p generalizing n with
  | nil => rfl
  | cons c p ih => simp [walkFrom, ih, Option.bind_assoc]

theorem walk_concat (h : TrieHeap α) (p : Path) (c : UInt8) :
    h.walk (p ++ [c]) = (h.walk p).bind fun n => (h.cells n).children c := by
  rw [walk, walkFrom_append]
  simp [walkFrom, walk]

theorem walk_concat_of_walk (hn : h.walk p = some n) :
    h.walk (p ++ [c]) = (h.cells n).children c := by
  rw [walk_concat, hn, Option.bind_some]

theorem contents_of_walk (hn : h.walk p = some n) : h.contents p = (h.cells n).ssInfo := by
  rw [contents, hn, Option.bind_some]

/-- Where a node has no child, there is nothing below. -/
theorem contents_eq_none (hn : h.walk p = some n) (hc : (h.cells n).children c = none) :
    h.contents (p ++ c :: q) = none := by
  rw [contents, walk, walkFrom_append]
  change ((h.walk p).bind _).bind _ = none
  simp [hn, walkFrom, hc]

theorem wellFormed_init : (init : TrieHeap α).WellFormed where
  unique p q n hp hq := by
    cases p with
    | nil =>
        cases q with
        | nil => rfl
        | cons c q => cases hq
    | cons c p => cases hp
  allocated p n hp := by
    cases p with
    | nil =>
        obtain rfl := Option.some.inj hp
        exact Nat.zero_lt_one
    | cons c p => cases hp
  ascending n c m _ hm := by cases hm

theorem contents_init (p : Path) : (init : TrieHeap α).contents p = none := by
  cases p <;> rfl

/-! ### Setting a server -/

theorem children_setInfo (ssInfo : Option α) (m : ℕ) :
    ((h.setInfo n ssInfo).cells m).children = (h.cells m).children := by
  by_cases hm : m = n
  · subst hm
    simp [setInfo]
  · simp [setInfo, hm]

theorem walk_setInfo (ssInfo : Option α) (p : Path) :
    (h.setInfo n ssInfo).walk p = h.walk p := by
  induction p using List.reverseRecOn with
  | nil => rfl
  | append_singleton p c ih =>
      rw [walk_concat, walk_concat, ih]
      simp [children_setInfo]

theorem WellFormed.setInfo (hwf : h.WellFormed) (n : ℕ) (ssInfo : Option α) :
    (h.setInfo n ssInfo).WellFormed where
  unique p q x hp hq := by
    rw [walk_setInfo] at hp hq
    exact hwf.unique p q x hp hq
  allocated p x hp := hwf.allocated p x (walk_setInfo ssInfo p ▸ hp)
  ascending x c m hx hm := hwf.ascending x c m hx (children_setInfo ssInfo x ▸ hm)

theorem contents_setInfo (hwf : h.WellFormed) (hn : h.walk p = some n) (ssInfo : Option α) :
    (h.setInfo n ssInfo).contents = Function.update h.contents p ssInfo := by
  funext q
  rw [contents, walk_setInfo]
  by_cases hq : q = p
  · subst hq
    simp [hn, TrieHeap.setInfo]
  · rw [Function.update_of_ne hq, contents]
    cases hx : h.walk q with
    | none => rfl
    | some x =>
        have hne : x ≠ n := fun heq => hq (hwf.unique q p n (heq ▸ hx) hn)
        simp [TrieHeap.setInfo, hne]

/-! ### Adding a node -/

theorem children_addChild (hn : n < h.fresh) (x : ℕ) (d : UInt8) :
    ((h.addChild n c).cells x).children d =
      if x = n then (if d = c then some h.fresh else (h.cells n).children d)
      else if x = h.fresh then none else (h.cells x).children d := by
  by_cases hx : x = n
  · subst hx
    simp [addChild, Function.update_apply]
  · by_cases hf : x = h.fresh
    · subst hf
      simp [addChild, hx]
    · simp [addChild, hx, hf]

theorem ssInfo_addChild (hn : n < h.fresh) (hx : x < h.fresh) :
    ((h.addChild n c).cells x).ssInfo = (h.cells x).ssInfo := by
  by_cases hxn : x = n
  · subst hxn
    simp [addChild]
  · simp [addChild, hxn, hx.ne]

theorem walk_addChild (hwf : h.WellFormed) (hn : h.walk q = some n)
    (hc : (h.cells n).children c = none) (p : Path) (x : ℕ) :
    (h.addChild n c).walk p = some x ↔
      h.walk p = some x ∨ p = q ++ [c] ∧ x = h.fresh := by
  have hlt := hwf.allocated q n hn
  induction p using List.reverseRecOn generalizing x with
  | nil => simp [walk, walkFrom]
  | append_singleton p d ih =>
      rw [walk_concat, walk_concat, Option.bind_eq_some_iff, Option.bind_eq_some_iff]
      constructor
      · rintro ⟨y, hy, hx⟩
        rw [children_addChild hlt] at hx
        rcases (ih y).mp hy with hold | ⟨rfl, rfl⟩
        · have hylt := hwf.allocated p y hold
          by_cases hyn : y = n
          · subst hyn
            obtain rfl := hwf.unique p q y hold hn
            by_cases hdc : d = c
            · subst hdc
              simp only [if_true, Option.some.injEq] at hx
              exact Or.inr ⟨rfl, hx.symm⟩
            · simp only [if_true, hdc, if_false] at hx
              exact Or.inl ⟨y, hold, hx⟩
          · rw [if_neg hyn, if_neg hylt.ne] at hx
            exact Or.inl ⟨y, hold, hx⟩
        · rw [if_neg hlt.ne', if_pos rfl] at hx
          cases hx
      · rintro (⟨y, hy, hx⟩ | ⟨heq, rfl⟩)
        · refine ⟨y, (ih y).mpr (Or.inl hy), ?_⟩
          rw [children_addChild hlt]
          by_cases hyn : y = n
          · subst hyn
            have hdc : d ≠ c := by
              rintro rfl
              rw [hc] at hx
              cases hx
            simpa [hdc] using hx
          · rw [if_neg hyn, if_neg (hwf.allocated p y hy).ne, hx]
        · obtain ⟨rfl, hdc⟩ := List.append_inj' heq rfl
          obtain rfl : d = c := by simpa using hdc
          refine ⟨n, (ih n).mpr (Or.inl hn), ?_⟩
          rw [children_addChild hlt, if_pos rfl, if_pos rfl]

theorem extends_addChild (hwf : h.WellFormed) (hn : h.walk q = some n)
    (hc : (h.cells n).children c = none) : h.Extends (h.addChild n c) :=
  fun p x hx => (walk_addChild hwf hn hc p x).mpr (Or.inl hx)

theorem WellFormed.addChild (hwf : h.WellFormed) (hn : h.walk q = some n)
    (hc : (h.cells n).children c = none) : (h.addChild n c).WellFormed where
  unique p p' x hp hp' := by
    rcases (walk_addChild hwf hn hc p x).mp hp with hp | ⟨rfl, rfl⟩
    · rcases (walk_addChild hwf hn hc p' x).mp hp' with hp' | ⟨rfl, rfl⟩
      · exact hwf.unique p p' x hp hp'
      · exact absurd (hwf.allocated p _ hp) (lt_irrefl _)
    · rcases (walk_addChild hwf hn hc p' h.fresh).mp hp' with hp' | ⟨rfl, -⟩
      · exact absurd (hwf.allocated p' _ hp') (lt_irrefl _)
      · rfl
  allocated p x hp := by
    rcases (walk_addChild hwf hn hc p x).mp hp with hp | ⟨-, rfl⟩
    · exact (hwf.allocated p x hp).trans (Nat.lt_succ_self _)
    · exact Nat.lt_succ_self _
  ascending x d m hx hm := by
    have hlt := hwf.allocated q n hn
    change x < h.fresh + 1 at hx
    change x < m ∧ m < h.fresh + 1
    rw [children_addChild hlt] at hm
    split_ifs at hm with hxn hdc hxf
    · obtain rfl := Option.some.inj hm
      omega
    · have := hwf.ascending n d m hlt hm
      omega
    · have := hwf.ascending x d m (by omega) hm
      omega

theorem contents_addChild (hwf : h.WellFormed) (hn : h.walk q = some n)
    (hc : (h.cells n).children c = none) : (h.addChild n c).contents = h.contents := by
  funext p
  have hlt := hwf.allocated q n hn
  cases hx : h.walk p with
  | some x =>
      rw [contents_of_walk (extends_addChild hwf hn hc p x hx), contents_of_walk hx,
        ssInfo_addChild hlt (hwf.allocated p x hx)]
  | none =>
      rw [contents, contents, hx]
      cases hx' : (h.addChild n c).walk p with
      | none => rfl
      | some x =>
          rcases (walk_addChild hwf hn hc p x).mp hx' with hold | ⟨-, rfl⟩
          · rw [hx] at hold
            cases hold
          · simp [addChild, hlt.ne']

/-! ### A visit -/

/-- Before and after a visit of the node at the path `q`, with the bytes `rest` ahead. -/
structure Visited (h : TrieHeap α) (op : TrieOp α) (n : ℕ) (rest : Path)
    (h' : TrieHeap α) (v : Visit α) : Prop where
  wellFormed : h'.WellFormed
  grows : h.Extends h'
  returns : ∀ result, v = .returns result →
    h'.contents = op.apply h.contents ∧ result = op.result h.contents
  goesOn : ∀ c m, v = .goesOn c m → h'.contents = h.contents ∧
    (∃ rest', rest = c :: rest') ∧ (h'.cells n).children c = some m

/-- An operation acts on the map where it returns, and nowhere else. -/
theorem visited (hwf : h.WellFormed) {op : TrieOp α} {rest : Path} (hpath : op.path = q ++ rest)
    (hn : h.walk q = some n) :
    h.Visited op n rest (h.visit op n rest).1 (h.visit op n rest).2 := by
  have hset : ∀ ssInfo, h.Extends (h.setInfo n ssInfo) := fun ssInfo p x hx =>
    (walk_setInfo ssInfo p).trans hx
  cases rest with
  | nil =>
      rw [List.append_nil] at hpath
      cases op with
      | insert path ssInfo =>
          obtain rfl : path = q := hpath
          refine ⟨hwf.setInfo n _, hset _, ?_, ?_⟩
          · rintro result hv
            exact ⟨contents_setInfo hwf hn _, (Visit.returns.inj hv).symm⟩
          · rintro c m hv
            cases hv
      | search path =>
          obtain rfl : path = q := hpath
          refine ⟨hwf, .refl h, ?_, ?_⟩
          · rintro result hv
            exact ⟨rfl, (Visit.returns.inj hv).symm.trans (contents_of_walk hn).symm⟩
          · rintro c m hv
            cases hv
      | delete path =>
          obtain rfl : path = q := hpath
          refine ⟨hwf.setInfo n _, hset _, ?_, ?_⟩
          · rintro result hv
            exact ⟨contents_setInfo hwf hn _, (Visit.returns.inj hv).symm⟩
          · rintro c m hv
            cases hv
  | cons c rest =>
      cases hc : (h.cells n).children c with
      | some m =>
          simp only [visit, hc]
          refine ⟨hwf, .refl h, ?_, ?_⟩
          · rintro result hv
            cases hv
          · rintro d m' hv
            obtain ⟨rfl, rfl⟩ := Visit.goesOn.inj hv
            exact ⟨rfl, ⟨rest, rfl⟩, hc⟩
      | none =>
          have hnone := contents_eq_none (q := rest) hn hc
          cases op with
          | insert path ssInfo =>
              simp only [visit, hc]
              refine ⟨hwf.addChild hn hc, extends_addChild hwf hn hc, ?_, ?_⟩
              · rintro result hv
                cases hv
              · rintro d m' hv
                obtain ⟨rfl, rfl⟩ := Visit.goesOn.inj hv
                refine ⟨contents_addChild hwf hn hc, ⟨rest, rfl⟩, ?_⟩
                rw [children_addChild (hwf.allocated q n hn), if_pos rfl, if_pos rfl]
          | search path =>
              simp only [visit, hc]
              obtain rfl : path = q ++ c :: rest := hpath
              refine ⟨hwf, .refl h, ?_, ?_⟩
              · rintro result hv
                exact ⟨rfl, (Visit.returns.inj hv).symm.trans hnone.symm⟩
              · rintro d m hv
                cases hv
          | delete path =>
              simp only [visit, hc]
              obtain rfl : path = q ++ c :: rest := hpath
              refine ⟨hwf, .refl h, ?_, ?_⟩
              · rintro result hv
                refine ⟨?_, (Visit.returns.inj hv).symm⟩
                rw [TrieOp.apply, Function.update_eq_self_iff.mpr hnone.symm]
              · rintro d m hv
                cases hv

end TrieHeap
end NetworkFileSystem
