import NetworkFileSystem.Listing
import NetworkFileSystem.PathOrder
import NetworkFileSystem.TrieHeap
import Mathlib.Algebra.Order.BigOperators.Group.List

/-!
# The collected paths

What `trie_collect_paths` returns after any insertions and deletions, and the bytes that LIST_PATHS
needs for it. No node is deeper than the longest path inserted, so that the path buffer suffices;
ten paths of full length suffice for `collected_paths`, and are too long for the data of a message.
-/

namespace NetworkFileSystem

/-- The string fits a path array with its terminator. -/
def Path.Fits (p : Path) : Prop := 0 ∉ p ∧ p.length < maxPathLen

variable {α : Type}

namespace TrieNode

/-! ### The nodes -/

/-- There is a node at the path. -/
def HasNode : Path → TrieNode α → Prop
  | [], _ => True
  | c :: p, node _ children => ∃ child, children c = some child ∧ HasNode p child

theorem not_hasNode_create (c : UInt8) (p : Path) :
    ¬ HasNode (c :: p) (createTrieNode : TrieNode α) := by
  rintro ⟨child, h, -⟩
  cases h

/-- An insertion adds the nodes on the way. -/
theorem HasNode.of_trieInsert {ssInfo : α} {p q : Path} {t : TrieNode α}
    (h : HasNode q (trieInsert ssInfo p t)) : HasNode q t ∨ q.length ≤ p.length := by
  induction p generalizing q t with
  | nil =>
      obtain ⟨info, children⟩ := t
      cases q with
      | nil => exact Or.inl trivial
      | cons d q => exact Or.inl h
  | cons c p ih =>
      obtain ⟨info, children⟩ := t
      cases q with
      | nil => exact Or.inl trivial
      | cons d q =>
          obtain ⟨child, hchild, hq⟩ := h
          by_cases hdc : d = c
          · subst hdc
            rw [Function.update_self, Option.some.injEq] at hchild
            subst hchild
            rcases ih hq with hold | hle
            · cases hc : children d with
              | none =>
                  rw [hc] at hold
                  cases q with
                  | nil => exact Or.inr (by simp)
                  | cons e q => exact absurd hold (not_hasNode_create e q)
              | some child =>
                  rw [hc] at hold
                  exact Or.inl ⟨child, hc, hold⟩
            · exact Or.inr (Nat.succ_le_succ hle)
          · rw [Function.update_of_ne hdc] at hchild
            exact Or.inl ⟨child, hchild, hq⟩

/-- A deletion leaves the nodes where they are. -/
theorem HasNode.of_trieDelete {p q : Path} {t : TrieNode α} (h : HasNode q (trieDelete p t)) :
    HasNode q t := by
  induction p generalizing q t with
  | nil =>
      obtain ⟨info, children⟩ := t
      cases q with
      | nil => trivial
      | cons d q => exact h
  | cons c p ih =>
      obtain ⟨info, children⟩ := t
      cases q with
      | nil => trivial
      | cons d q =>
          obtain ⟨child, hchild, hq⟩ := h
          by_cases hdc : d = c
          · subst hdc
            rw [Function.update_self, Option.map_eq_some_iff] at hchild
            obtain ⟨old, hold, rfl⟩ := hchild
            exact ⟨old, hold, ih hq⟩
          · rw [Function.update_of_ne hdc] at hchild
            exact ⟨child, hchild, hq⟩

/-! ### The path buffer -/

/-- `storePath` on a path buffer of `MAX_PATH_LEN` bytes; a write behind its end fails. -/
def storePathChecked (ssInfo : Option α) (level : ℕ) (acc : PathCollection) :
    Option PathCollection :=
  if ssInfo.isSome ∧ acc.paths.length < maxAccessiblePaths ∧ maxPathLen ≤ level then none
  else some (storePath ssInfo level acc)

mutual

/-- The traversal with every write to the path buffer checked. -/
def collectChecked : TrieNode α → ℕ → PathCollection → Option PathCollection
  | node info children, level, acc =>
    (storePathChecked info level acc).bind fun acc =>
      (List.finRange 256).foldlM
        (fun acc i =>
          collectChildChecked (children (UInt8.ofFin i)) (UInt8.ofFin i) level acc) acc

def collectChildChecked :
    Option (TrieNode α) → UInt8 → ℕ → PathCollection → Option PathCollection
  | none, _, _, acc => some acc
  | some child, i, level, acc =>
    if level < maxPathLen then
      collectChecked child (level + 1)
        { acc with currentPath := Function.update acc.currentPath level i }
    else none

end

/-- Where no node is too deep, all writes are within the buffer. -/
theorem collectChecked_eq (t : TrieNode α) :
    ∀ level (acc : PathCollection), (∀ p, HasNode p t → level + p.length < maxPathLen) →
      collectChecked t level acc = some (trieCollectPathsRecursive t level acc) := by
  induction t using induct with
  | node info children ih =>
      intro level acc hdepth
      have hlevel : level < maxPathLen := hdepth [] trivial
      rw [collectChecked, trieCollectPathsRecursive, storePathChecked,
        if_neg fun h => absurd hlevel (not_lt.mpr h.2.2), Option.bind_some]
      generalize storePath info level acc = acc
      generalize List.finRange 256 = l
      induction l generalizing acc with
      | nil => rfl
      | cons i l ihl =>
          have hchild : collectChildChecked (children (UInt8.ofFin i)) (UInt8.ofFin i) level acc =
              some (collectChild (children (UInt8.ofFin i)) (UInt8.ofFin i) level acc) := by
            cases hc : children (UInt8.ofFin i) with
            | none => rfl
            | some child =>
                rw [collectChildChecked, if_pos hlevel, collectChild]
                refine ih _ child hc (level + 1) _ fun p hp => ?_
                have hle := hdepth (UInt8.ofFin i :: p) ⟨child, hc, hp⟩
                rw [List.length_cons] at hle
                omega
          rw [List.foldlM_cons, hchild, List.foldl_cons]
          exact ihl _

end TrieNode

namespace TrieOp

/-! ### After any operations -/

def build (ops : List (TrieOp α)) : TrieNode α :=
  ops.foldl (fun t op => op.applyNode t) createTrieNode

/-- The last operation on the path, apart from searches, is an insertion. -/
def LastInserted (ops : List (TrieOp α)) (p : Path) : Prop :=
  ∃ pre ssInfo post, ops = pre ++ insert p ssInfo :: post ∧
    ∀ op ∈ post, op.path = p → op = search p

variable {ops : List (TrieOp α)} {op : TrieOp α} {p : Path}

theorem build_concat (ops : List (TrieOp α)) (op : TrieOp α) :
    build (ops ++ [op]) = op.applyNode (build ops) := by
  rw [build, List.foldl_append]
  rfl

theorem not_lastInserted_nil (p : Path) : ¬ LastInserted ([] : List (TrieOp α)) p := by
  rintro ⟨pre, ssInfo, post, h, -⟩
  simp at h

theorem lastInserted_concat :
    LastInserted (ops ++ [op]) p ↔
      (∃ ssInfo, op = insert p ssInfo) ∨ LastInserted ops p ∧ (op.path = p → op = search p) := by
  constructor
  · rintro ⟨pre, ssInfo, post, heq, hpost⟩
    rcases List.eq_nil_or_concat post with rfl | ⟨post, op', rfl⟩
    · exact Or.inl ⟨ssInfo, List.singleton_inj.mp (List.append_inj_right' heq rfl)⟩
    · rw [List.concat_eq_append] at heq hpost
      rw [← List.cons_append, ← List.append_assoc] at heq
      obtain rfl : op = op' := List.singleton_inj.mp (List.append_inj_right' heq rfl)
      exact Or.inr ⟨⟨pre, ssInfo, post, List.append_inj_left' heq rfl,
        fun o ho => hpost o (List.mem_append_left _ ho)⟩, hpost op (by simp)⟩
  · rintro (⟨ssInfo, rfl⟩ | ⟨⟨pre, ssInfo, post, rfl, hpost⟩, hop⟩)
    · exact ⟨ops, ssInfo, [], rfl, by simp⟩
    · refine ⟨pre, ssInfo, post ++ [op], by simp, fun o ho => ?_⟩
      rcases List.mem_append.mp ho with hold | hnew
      · exact hpost o hold
      · rw [List.mem_singleton.mp hnew]
        exact hop

theorem trieSearch_build (ops : List (TrieOp α)) (p : Path) :
    (build ops).trieSearch p ≠ none ↔ LastInserted ops p := by
  induction ops using List.reverseRecOn with
  | nil => simp [build, not_lastInserted_nil]
  | append_singleton ops op ih =>
      rw [build_concat, trieSearch_applyNode, lastInserted_concat, ← ih]
      cases op with
      | insert q ssInfo =>
          by_cases hq : q = p
          · simp [apply, path, hq]
          · simp [apply, path, hq, Ne.symm hq]
      | search q => simp [apply, path]
      | delete q =>
          by_cases hq : q = p
          · simp [apply, path, hq]
          · simp [apply, path, hq, Ne.symm hq]

/-- No node is deeper than the longest path. -/
theorem length_le_of_hasNode {n : ℕ} (hops : ∀ op ∈ ops, op.path.length ≤ n)
    (h : (build ops).HasNode p) : p.length ≤ n := by
  induction ops using List.reverseRecOn with
  | nil =>
      cases p with
      | nil => exact Nat.zero_le n
      | cons c p => exact absurd h (TrieNode.not_hasNode_create c p)
  | append_singleton ops op ih =>
      have hold := ih fun o ho => hops o (List.mem_append_left _ ho)
      have hop := hops op (by simp)
      rw [build_concat] at h
      cases op with
      | insert q ssInfo =>
          exact (TrieNode.HasNode.of_trieInsert h).elim hold fun hle => hle.trans hop
      | search q => exact hold h
      | delete q => exact hold (TrieNode.HasNode.of_trieDelete h)

theorem fits_of_lastInserted (hops : ∀ op ∈ ops, op.path.Fits) (h : LastInserted ops p) :
    p.Fits := by
  obtain ⟨pre, ssInfo, post, rfl, -⟩ := h
  exact hops (insert p ssInfo) (by simp)

theorem mem_mappedPaths_build : p ∈ (build ops).mappedPaths ↔ LastInserted ops p :=
  (TrieNode.mem_mappedPaths p _).trans (trieSearch_build ops p)

/-- `trie_collect_paths` returns the first ten paths in byte order of those inserted last, and
stays within its path buffer. -/
theorem trieCollectPaths_build (hops : ∀ op ∈ ops, op.path.Fits) (buffer : ℕ → UInt8) :
    ∃ all : List Path, all.Nodup ∧ InOrder all ∧
      (∀ p, p ∈ all ↔ LastInserted ops p) ∧
      (∀ p, p ∈ all ↔ (build ops).trieSearch p ≠ none) ∧
      (build ops).trieCollectPaths buffer = all.take maxAccessiblePaths ∧
      (build ops).collectChecked 0 ⟨buffer, []⟩ =
        some ((build ops).trieCollectPathsRecursive 0 ⟨buffer, []⟩) := by
  refine ⟨(build ops).mappedPaths, TrieNode.nodup_mappedPaths _, TrieNode.inOrder_mappedPaths _,
    fun p => mem_mappedPaths_build, fun p => TrieNode.mem_mappedPaths p _, ?_, ?_⟩
  · refine TrieNode.trieCollectPaths_eq _ _ fun p hp => ?_
    exact (fits_of_lastInserted hops (mem_mappedPaths_build.mp hp)).1
  · refine TrieNode.collectChecked_eq _ _ _ fun p hp => ?_
    have hle := length_le_of_hasNode (n := maxPathLen - 1)
      (fun op hop => Nat.le_sub_one_of_lt (hops op hop).2) hp
    rw [Nat.zero_add]
    exact Nat.lt_of_le_sub_one (by decide) hle

/-- `/ab` and `/a` are inserted, and `/b` is inserted and deleted. -/
def someOps : List (TrieOp ℕ) :=
  [insert [47, 97, 98] 0, insert [47, 98] 0, insert [47, 97] 1, delete [47, 98]]

theorem trieCollectPaths_build_someOps :
    ∃ all : List Path, all.Nodup ∧ InOrder all ∧ (∀ p, p ∈ all ↔ LastInserted someOps p) ∧
      (build someOps).trieCollectPaths (fun _ => 7) = all.take maxAccessiblePaths ∧
      (build someOps).trieCollectPaths (fun _ => 7) = [[47, 97], [47, 97, 98]] := by
  have hops : ∀ op ∈ someOps, op.path.Fits := by
    unfold Path.Fits
    decide
  obtain ⟨all, hnodup, horder, hmem, -, hcollect, -⟩ := trieCollectPaths_build hops fun _ => 7
  exact ⟨all, hnodup, horder, hmem, hcollect, by decide +kernel⟩

end TrieOp

/-! ### The bytes of a listing -/

/-- Ten paths with their separators, or the terminator of the last, fill `collected_paths`. -/
theorem length_joined_le {paths : List Path} (hcount : paths.length ≤ maxAccessiblePaths)
    (hpaths : ∀ p ∈ paths, p.length < maxPathLen) :
    (joined paths).length + 1 ≤ maxAccessiblePaths * maxPathLen := by
  by_cases hnil : paths = []
  · subst hnil
    decide
  · rw [length_joined hnil]
    have hsum : (paths.map (·.length + 1)).sum ≤
        (paths.map (·.length + 1)).length • maxPathLen := by
      refine List.sum_le_card_nsmul _ _ fun n hn => ?_
      obtain ⟨p, hp, rfl⟩ := List.mem_map.mp hn
      exact hpaths p hp
    rw [List.length_map, Nat.nsmul_eq_mul] at hsum
    exact hsum.trans (Nat.mul_le_mul_right _ hcount)

theorem length_joined_le_iff (paths : List Path) :
    (joined paths).length + 1 ≤ maxDataSize ↔
      (paths.map (·.length + 1)).sum ≤ maxDataSize := by
  by_cases hnil : paths = []
  · subst hnil
    decide
  · rw [length_joined hnil]

theorem dataSize_pathList {paths : List Path}
    (h : (joined paths).length + 1 ≤ maxAccessiblePaths * maxPathLen) :
    (Message.pathList paths).dataSize.toInt = (joined paths).length := by
  have hmax : maxAccessiblePaths * maxPathLen = 10240 := rfl
  have hlen : (joined paths).length < 2 ^ 31 := by omega
  exact Int32.toInt_ofNat_of_lt hlen

/-- A listing always fits `collected_paths`, and its size is exact. It fits the data of a message
exactly when its paths, the first ten in byte order, have room there with a byte more for each. -/
theorem listing_fits_iff {ops : List (TrieOp α)} (hops : ∀ op ∈ ops, op.path.Fits)
    (buffer : ℕ → UInt8) :
    let paths := (TrieOp.build ops).trieCollectPaths buffer
    ((joined paths).length + 1 ≤ maxAccessiblePaths * maxPathLen ∧
        (joined paths).length + 1 ≤ maxDataSize ∧
        (Message.pathList paths).dataSize.toInt = (joined paths).length) ↔
      (((TrieOp.build ops).mappedPaths.take maxAccessiblePaths).map (·.length + 1)).sum ≤
        maxDataSize := by
  have hmapped : ∀ p ∈ (TrieOp.build ops).mappedPaths, p.Fits := fun p hp =>
    TrieOp.fits_of_lastInserted hops (TrieOp.mem_mappedPaths_build.mp hp)
  intro paths
  have hpaths : paths = (TrieOp.build ops).mappedPaths.take maxAccessiblePaths :=
    TrieNode.trieCollectPaths_eq _ _ fun p hp => (hmapped p hp).1
  have hle : (joined paths).length + 1 ≤ maxAccessiblePaths * maxPathLen := by
    rw [hpaths]
    exact length_joined_le (List.length_take_le _ _) fun p hp =>
      (hmapped p (List.mem_of_mem_take hp)).2
  rw [← hpaths, ← length_joined_le_iff]
  exact ⟨fun h => h.2.1, fun h => ⟨hle, h, dataSize_pathList hle⟩⟩

theorem listing_fits_iff_someOps :
    (joined ((TrieOp.build TrieOp.someOps).trieCollectPaths fun _ => 7)).length + 1 ≤
      maxDataSize := by
  have hops : ∀ op ∈ TrieOp.someOps, op.path.Fits := by
    unfold Path.Fits
    decide
  exact ((listing_fits_iff hops fun _ => 7).mpr (by decide +kernel)).2.1

/-- Ten paths of 1000 bytes. -/
def longPaths : List Path := (List.range 10).map fun k => List.replicate 1000 (UInt8.ofNat (k + 65))

theorem TrieOp.lastInserted_insertAll {paths : List Path} {ssInfo : α} {p : Path} :
    LastInserted (paths.map (insert · ssInfo)) p ↔ p ∈ paths := by
  induction paths using List.reverseRecOn with
  | nil => simp [not_lastInserted_nil]
  | append_singleton paths q ih =>
      rw [List.map_append, List.map_singleton, lastInserted_concat, ih]
      by_cases hq : q = p
      · simp [hq]
      · simp [hq, Ne.symm hq, path]

theorem longPaths_fits : ∀ p ∈ longPaths, p.Fits := by
  intro p hp
  obtain ⟨k, hk, rfl⟩ := List.mem_map.mp hp
  have hne : ∀ k ∈ List.range 10, (0 : UInt8) ≠ UInt8.ofNat (k + 65) := by decide
  refine ⟨fun hzero => hne k hk (List.eq_of_mem_replicate hzero), ?_⟩
  rw [List.length_replicate]
  decide

/-- Ten paths of 1000 bytes run over the data of the reply. -/
theorem listing_overflows :
    ∃ ops : List (TrieOp ℕ), (∀ op ∈ ops, op.path.Fits) ∧
      maxDataSize < (joined ((TrieOp.build ops).trieCollectPaths fun _ => 0)).length + 1 := by
  have hops : ∀ op ∈ longPaths.map (TrieOp.insert · 0), op.path.Fits := by
    intro op hop
    obtain ⟨p, hp, rfl⟩ := List.mem_map.mp hop
    exact longPaths_fits p hp
  have hnodup : longPaths.Nodup := by
    refine List.Nodup.map_on (fun j hj k hk heq => ?_) List.nodup_range
    have hbyte : ∀ j ∈ List.range 10, ∀ k ∈ List.range 10,
        UInt8.ofNat (j + 65) = UInt8.ofNat (k + 65) → j = k := by decide
    exact hbyte j hj k hk (List.replicate_right_injective (by decide) heq)
  have hperm : (TrieOp.build (longPaths.map (TrieOp.insert · 0))).mappedPaths.Perm longPaths :=
    (List.perm_ext_iff_of_nodup (TrieNode.nodup_mappedPaths _) hnodup).mpr fun p =>
      TrieOp.mem_mappedPaths_build.trans TrieOp.lastInserted_insertAll
  have hcount : longPaths.length = maxAccessiblePaths := List.length_map _
  refine ⟨_, hops, not_le.mp fun hle => ?_⟩
  rw [length_joined_le_iff, TrieNode.trieCollectPaths_eq _ _ fun p hp =>
      (longPaths_fits p (hperm.mem_iff.mp hp)).1,
    List.take_of_length_le (hperm.length_eq.trans hcount).le, (hperm.map _).sum_eq] at hle
  revert hle
  decide +kernel

end NetworkFileSystem
