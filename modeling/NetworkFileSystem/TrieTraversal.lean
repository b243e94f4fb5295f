import NetworkFileSystem.Trie
import Mathlib.Data.List.Flatten

/-!
# The traversal of the trie

`trie_collect_paths` visits the nodes in preorder, with the path of the current node in a shared
buffer, and stores the first ten paths that have a server.
-/

namespace NetworkFileSystem

namespace TrieNode

variable {α : Type}

/-- A property of all nodes holds if it is inherited from the children of a node. -/
theorem induct {motive : TrieNode α → Prop}
    (node : ∀ info children, (∀ c child, children c = some child → motive child) →
      motive (node info children)) (t : TrieNode α) : motive t := by
  refine @TrieNode.rec α motive (fun o => ∀ child, o = some child → motive child) ?_ ?_ ?_ t
  · exact fun info children ih => node info children ih
  · exact fun child h => by cases h
  · exact fun child ih child' h => Option.some.inj h ▸ ih

mutual

/-- The paths that have a server, in preorder. -/
def mappedPaths : TrieNode α → List Path
  | node info children =>
    (if info.isSome then [[]] else []) ++
      (List.finRange 256).flatMap fun i =>
        childPaths (children (UInt8.ofFin i)) (UInt8.ofFin i)

def childPaths : Option (TrieNode α) → UInt8 → List Path
  | none, _ => []
  | some child, c => (mappedPaths child).map (c :: ·)

end

variable {info : Option α} {children : UInt8 → Option (TrieNode α)}

theorem mem_childPaths {o : Option (TrieNode α)} {c : UInt8} {p : Path} :
    p ∈ childPaths o c ↔ ∃ child q, o = some child ∧ q ∈ mappedPaths child ∧ p = c :: q := by
  cases o with
  | none => simp [childPaths]
  | some child => simp [childPaths, eq_comm]

theorem nil_mem_mappedPaths : [] ∈ mappedPaths (node info children) ↔ info ≠ none := by
  rw [mappedPaths, List.mem_append]
  constructor
  · rintro (h | h)
    · split_ifs at h with hinfo
      · exact fun hnone => by simp [hnone] at hinfo
      · simp at h
    · obtain ⟨i, -, h⟩ := List.mem_flatMap.mp h
      obtain ⟨_, _, -, -, hcons⟩ := mem_childPaths.mp h
      cases hcons
  · intro h
    rw [if_pos (Option.isSome_iff_ne_none.mpr h)]
    exact .inl List.mem_cons_self

theorem cons_mem_mappedPaths {c : UInt8} {p : Path} :
    c :: p ∈ mappedPaths (node info children) ↔
      ∃ child, children c = some child ∧ p ∈ mappedPaths child := by
  rw [mappedPaths, List.mem_append]
  constructor
  · rintro (h | h)
    · split_ifs at h <;> simp at h
    · obtain ⟨i, -, h⟩ := List.mem_flatMap.mp h
      obtain ⟨child, q, hchild, hq, hcons⟩ := mem_childPaths.mp h
      obtain ⟨rfl, rfl⟩ := List.cons.inj hcons
      exact ⟨child, hchild, hq⟩
  · rintro ⟨child, hchild, hp⟩
    refine .inr (List.mem_flatMap.mpr ⟨c.toFin, List.mem_finRange _, ?_⟩)
    exact mem_childPaths.mpr ⟨child, p, hchild, hp, rfl⟩

theorem mem_mappedPaths (p : Path) (t : TrieNode α) :
    p ∈ mappedPaths t ↔ trieSearch p t ≠ none := by
  induction p generalizing t with
  | nil =>
      obtain ⟨info, children⟩ := t
      exact nil_mem_mappedPaths
  | cons c p ih =>
      obtain ⟨info, children⟩ := t
      rw [cons_mem_mappedPaths, trieSearch]
      cases children c with
      | none => simp
      | some child => simpa using ih child

theorem nodup_mappedPaths (t : TrieNode α) : (mappedPaths t).Nodup := by
  induction t using induct with
  | node info children ih =>
      rw [mappedPaths, List.nodup_append]
      refine ⟨by split_ifs <;> simp, List.nodup_flatMap.mpr ⟨fun i _ => ?_, ?_⟩, ?_⟩
      · cases hchild : children (UInt8.ofFin i) with
        | none => exact List.nodup_nil
        | some child => exact (ih _ child hchild).map (List.cons_injective)
      · refine (List.nodup_finRange 256).imp fun {i j} hne => ?_
        intro p hi hj
        obtain ⟨_, _, -, -, rfl⟩ := mem_childPaths.mp hi
        obtain ⟨_, _, -, -, heq⟩ := mem_childPaths.mp hj
        exact hne (congrArg UInt8.toFin (List.cons.inj heq).1)
      · rintro p hp q hq rfl
        obtain ⟨i, -, hq⟩ := List.mem_flatMap.mp hq
        obtain ⟨_, _, -, -, rfl⟩ := mem_childPaths.mp hq
        split_ifs at hp <;> simp at hp

end TrieNode

namespace PathCollection

/-- The path that leads to this level, as the buffer has it. -/
def pathTo (acc : PathCollection) (level : ℕ) : Path := (List.range level).map acc.currentPath

variable {acc acc' : PathCollection} {level : ℕ}

/-- The result is the paths stored before and then these, as far as there is room, and the buffer
still leads to the level. -/
def Adds (acc : PathCollection) (level : ℕ) (paths : List Path) (acc' : PathCollection) : Prop :=
  acc'.paths = (acc.paths ++ paths.map (acc.pathTo level ++ ·)).take maxAccessiblePaths ∧
    ∀ i < level, acc'.currentPath i = acc.currentPath i

theorem pathTo_congr (h : ∀ i < level, acc'.currentPath i = acc.currentPath i) :
    acc'.pathTo level = acc.pathTo level :=
  List.map_congr_left fun i hi => h i (List.mem_range.mp hi)

theorem pathTo_update (c : UInt8) (paths : List Path) :
    pathTo ⟨Function.update acc.currentPath level c, paths⟩ (level + 1) =
      acc.pathTo level ++ [c] := by
  rw [pathTo, List.range_succ, List.map_append, List.map_singleton]
  congr 1
  · refine List.map_congr_left fun i hi => Function.update_of_ne ?_ _ _
    exact (List.mem_range.mp hi).ne
  · exact congrArg ([·]) (Function.update_self ..)

theorem Adds.length_le {paths : List Path} (h : acc.Adds level paths acc') :
    acc'.paths.length ≤ maxAccessiblePaths := by
  rw [h.1]
  exact List.length_take_le _ _

theorem Adds.refl (hroom : acc.paths.length ≤ maxAccessiblePaths) : acc.Adds level [] acc := by
  refine ⟨?_, fun _ _ => rfl⟩
  rw [List.map_nil, List.append_nil, List.take_of_length_le hroom]

theorem take_take_append {β : Type} (n : ℕ) (l l' : List β) :
    (l.take n ++ l').take n = (l ++ l').take n := by
  rw [List.take_append, List.take_append, List.take_take, min_self, List.length_take]
  congr 2
  omega

theorem Adds.trans {l l' : List Path} {acc'' : PathCollection} (h : acc.Adds level l acc')
    (h' : acc'.Adds level l' acc'') : acc.Adds level (l ++ l') acc'' := by
  refine ⟨?_, fun i hi => (h'.2 i hi).trans (h.2 i hi)⟩
  rw [h'.1, h.1, pathTo_congr h.2, List.map_append, ← List.append_assoc,
    take_take_append]

end PathCollection

namespace TrieNode

variable {α : Type} {acc : PathCollection} {level : ℕ}

theorem storePath_adds (info : Option α) (acc : PathCollection) (level : ℕ)
    (hroom : acc.paths.length ≤ maxAccessiblePaths)
    (hzero : info.isSome → 0 ∉ acc.pathTo level) :
    acc.Adds level (if info.isSome then [[]] else []) (storePath info level acc) := by
  have hbuffer : ∀ i < level, Function.update acc.currentPath level 0 i = acc.currentPath i :=
    fun i hi => Function.update_of_ne hi.ne _ _
  rw [storePath]
  cases info with
  | none => simpa using PathCollection.Adds.refl hroom
  | some ssInfo =>
      simp only [Option.isSome_some, true_and, if_true] at hzero ⊢
      split_ifs with hlt
      · refine ⟨?_, hbuffer⟩
        have hpath : (List.range level).map (Function.update acc.currentPath level 0) =
            acc.pathTo level :=
          List.map_congr_left fun i hi => hbuffer i (List.mem_range.mp hi)
        rw [hpath, List.takeWhile_eq_self_iff.mpr]
        · simp only [List.map_singleton, List.append_nil]
          rw [List.take_of_length_le (by simpa using Nat.succ_le_of_lt hlt)]
        · intro c hc
          simpa using ne_of_mem_of_not_mem hc (hzero trivial)
      · refine ⟨?_, fun _ _ => rfl⟩
        rw [List.take_append_of_le_length (not_lt.mp hlt),
          List.take_of_length_le hroom]

/-- The traversal of the subtree stores its paths in order. -/
theorem trieCollectPathsRecursive_adds (t : TrieNode α) :
    ∀ level (acc : PathCollection), acc.paths.length ≤ maxAccessiblePaths →
      (∀ p ∈ mappedPaths t, 0 ∉ acc.pathTo level ++ p) →
      acc.Adds level (mappedPaths t) (trieCollectPathsRecursive t level acc) := by
  induction t using induct with
  | node info children ih =>
      intro level acc hroom hzero
      rw [trieCollectPathsRecursive, mappedPaths]
      have hstore := storePath_adds info acc level hroom fun hinfo => by
        simpa using hzero [] (nil_mem_mappedPaths.mpr (Option.isSome_iff_ne_none.mp hinfo))
      refine hstore.trans ?_
      -- the loop over the children, from any state with the same path in the buffer
      have hloop : ∀ (l : List (Fin 256)) (acc' : PathCollection),
          acc'.paths.length ≤ maxAccessiblePaths → acc'.pathTo level = acc.pathTo level →
          acc'.Adds level
            (l.flatMap fun i => childPaths (children (UInt8.ofFin i)) (UInt8.ofFin i))
            (l.foldl (fun acc i =>
              collectChild (children (UInt8.ofFin i)) (UInt8.ofFin i) level acc) acc') := by
        intro l
        induction l with
        | nil => exact fun acc' hroom' _ => .refl hroom'
        | cons i l ihl =>
            intro acc' hroom' hpath
            have hchild : acc'.Adds level (childPaths (children (UInt8.ofFin i)) (UInt8.ofFin i))
                (collectChild (children (UInt8.ofFin i)) (UInt8.ofFin i) level acc') := by
              cases hc : children (UInt8.ofFin i) with
              | none => exact .refl hroom'
              | some child =>
                  have h := ih _ child hc (level + 1)
                    { acc' with
                      currentPath :=
                        Function.update acc'.currentPath level (UInt8.ofFin i) } hroom'
                    fun p hp => by
                      rw [PathCollection.pathTo_update, hpath, List.append_assoc]
                      exact hzero _ (cons_mem_mappedPaths.mpr ⟨child, hc, hp⟩)
                  refine ⟨?_, fun k hk => ?_⟩
                  · rw [collectChild, h.1, PathCollection.pathTo_update, childPaths, List.map_map]
                    simp [Function.comp_def]
                  · exact (h.2 k (hk.trans (Nat.lt_succ_self _))).trans
                      (Function.update_of_ne hk.ne _ _)
            refine hchild.trans (ihl _ hchild.length_le ?_)
            rw [PathCollection.pathTo_congr hchild.2, hpath]
      exact hloop _ _ hstore.length_le (PathCollection.pathTo_congr hstore.2)

theorem trieCollectPaths_eq (root : TrieNode α) (buffer : ℕ → UInt8)
    (hzero : ∀ p ∈ mappedPaths root, 0 ∉ p) :
    trieCollectPaths root buffer = (mappedPaths root).take maxAccessiblePaths := by
  refine (trieCollectPathsRecursive_adds root 0 ⟨buffer, []⟩ (Nat.zero_le _) ?_).1.trans ?_
  · simpa [PathCollection.pathTo] using hzero
  · simp [PathCollection.pathTo]

end TrieNode
end NetworkFileSystem
