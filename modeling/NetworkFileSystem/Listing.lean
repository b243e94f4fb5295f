import NetworkFileSystem.RegistryAgreement
import NetworkFileSystem.SystemInvariants
import NetworkFileSystem.ExclusiveCreation
import NetworkFileSystem.TrieTraversal

/-!
# The list of all paths

LIST_PATHS collects at most ten paths and copies them, separated by newlines, to the data of the
reply. It names every path exactly when there are no more and they fit.
-/

namespace NetworkFileSystem

open Interleaving Interleaving.World Machine

/-- The paths as one string, separated by newlines. -/
def joined (paths : List Path) : CString := (paths.intersperse [10]).flatten

theorem length_joined {paths : List Path} (h : paths ≠ []) :
    (joined paths).length + 1 = (paths.map (·.length + 1)).sum := by
  induction paths with
  | nil => exact absurd rfl h
  | cons p paths ih =>
      cases paths with
      | nil => simp [joined]
      | cons q paths =>
          have hrest := ih (List.cons_ne_nil q paths)
          simp only [joined, List.intersperse_cons_cons, List.flatten_cons, List.length_append,
            List.length_singleton] at hrest ⊢
          rw [List.map_cons, List.sum_cons, ← hrest]
          omega

theorem length_joined_perm {l l' : List Path} (h : l.Perm l') :
    (joined l).length = (joined l').length := by
  by_cases hnil : l = []
  · subst hnil
    rw [h.nil_eq]
  · have hnil' : l' ≠ [] := fun h' => hnil (List.perm_nil.mp (h' ▸ h))
    have heq := (h.map (·.length + 1)).sum_eq
    rw [← length_joined hnil, ← length_joined hnil'] at heq
    omega

/-- Every path takes room. -/
theorem length_le_of_joined_take {l : List Path} {n : ℕ} (hn : 0 < n)
    (h : (joined l).length ≤ (joined (l.take n)).length) : l.length ≤ n := by
  by_contra hlt
  have hnil : l ≠ [] := by
    rintro rfl
    exact hlt (Nat.zero_le n)
  have htake : l.take n ≠ [] := by
    simpa [hnil] using hn.ne'
  have hdrop : l.drop n ≠ [] := by
    rw [ne_eq, List.drop_eq_nil_iff]
    exact hlt
  have hsum := length_joined hnil
  rw [← List.take_append_drop n l, List.map_append, List.sum_append, ← length_joined htake,
    ← length_joined hdrop, List.take_append_drop] at hsum
  omega

theorem zero_notMem_joined {paths : List Path} (h : ∀ p ∈ paths, 0 ∉ p) : 0 ∉ joined paths := by
  induction paths with
  | nil => simp [joined]
  | cons p paths ih =>
      have hp := h p List.mem_cons_self
      have hrest := ih fun q hq => h q (List.mem_cons_of_mem _ hq)
      cases paths with
      | nil => simpa [joined] using hp
      | cons q paths =>
          simp only [joined, List.intersperse_cons_cons, List.flatten_cons, List.mem_append,
            List.mem_singleton] at hrest ⊢
          rintro (hmem | hmem | hmem)
          · exact hp hmem
          · cases hmem
          · exact hrest hmem

theorem takeWhile_take_terminated {s : CString} (hs : 0 ∉ s) (rest : List UInt8) (n : ℕ) :
    ((s ++ 0 :: rest).take n).takeWhile (· ≠ 0) = s.take n := by
  induction s generalizing n with
  | nil => cases n <;> simp
  | cons c s ih =>
      cases n with
      | zero => rfl
      | succ n =>
          have hc : c ≠ 0 := fun h => hs (h ▸ List.mem_cons_self)
          rw [List.cons_append, List.take_succ_cons, List.take_succ_cons,
            List.takeWhile_cons_of_pos (by simpa using hc),
            ih (fun h => hs (List.mem_cons_of_mem _ h))]

namespace Message

theorem data_ofBytes (b : Bytes size) :
    (ofBytes b).data.toList = (b.toList.drop dataOffset).take maxDataSize := by
  change ((((b.toList.drop 4).drop maxPathLen).drop maxPathLen).take maxDataSize) = _
  rw [List.drop_drop, List.drop_drop]
  rfl

theorem str_data_pathList {paths : List Path} (h : ∀ p ∈ paths, 0 ∉ p) :
    (pathList paths).data.str = (joined paths).take maxDataSize := by
  have hlen : (zero.toBytes.toList.take dataOffset).length = dataOffset := by
    rw [List.length_take, List.Vector.toList_length]
    rfl
  change (ofBytes (Layout.overwrite zero.toBytes
    (zero.toBytes.toList.take dataOffset ++ joined paths ++ [0]))).data.str = _
  rw [CharArray.str, data_ofBytes]
  change ((((zero.toBytes.toList.take dataOffset ++ joined paths ++ [0]) ++ _).take size).drop
    dataOffset |>.take maxDataSize).takeWhile (· ≠ 0) = _
  rw [List.drop_take, List.take_take, List.append_assoc, List.append_assoc, List.append_assoc,
    List.drop_left' hlen, List.singleton_append]
  exact takeWhile_take_terminated (zero_notMem_joined h) _ _

end Message

namespace NamingServer

variable {κ : Type} {ns : NamingServer κ}

/-- The reply lists every path that `trie_search` finds, each once, and nothing else. -/
def ListsAll (ns : NamingServer κ) (reply : Message) : Prop :=
  reply.Succeeded ∧ ∃ paths : List Path, paths.Nodup ∧
    (∀ p, p ∈ paths ↔ ns.search p ≠ none) ∧ reply.data.str = joined paths

/-- The paths that `trie_search` finds. -/
def mappedPaths (ns : NamingServer κ) : List Path := ns.pathTrie.mappedPaths

/-- The reply is complete exactly when it could be built, for at most ten paths that fit in the
data of a message. -/
theorem listsAll_listPaths (hzero : ∀ p, ns.search p ≠ none → 0 ∉ p) (s : Surroundings) :
    ns.ListsAll (ns.listPaths s) ↔ s.malloc = true ∧
      ns.mappedPaths.length ≤ maxAccessiblePaths ∧
      (joined ns.mappedPaths).length ≤ maxDataSize := by
  have hmapped : ∀ p ∈ ns.mappedPaths, 0 ∉ p := fun p hp =>
    hzero p ((TrieNode.mem_mappedPaths p _).mp hp)
  rw [listPaths]
  by_cases hmalloc : s.malloc = true
  · rw [if_pos hmalloc, TrieNode.trieCollectPaths_eq _ _ hmapped]
    have hdata : (Message.pathList (ns.mappedPaths.take maxAccessiblePaths)).data.str = _ :=
      Message.str_data_pathList fun p hp => hmapped p (List.mem_of_mem_take hp)
    constructor
    · rintro ⟨-, paths, hnodup, hmem, hstr⟩
      have hperm : paths.Perm ns.mappedPaths :=
        (List.perm_ext_iff_of_nodup hnodup (TrieNode.nodup_mappedPaths _)).mpr fun p =>
          (hmem p).trans (TrieNode.mem_mappedPaths p _).symm
      have hlen := congrArg List.length (hdata.symm.trans hstr)
      rw [List.length_take, length_joined_perm hperm] at hlen
      exact ⟨hmalloc, length_le_of_joined_take (by decide) (by omega), by omega⟩
    · rintro ⟨-, hcount, hfits⟩
      refine ⟨⟨rfl, rfl⟩, ns.mappedPaths, TrieNode.nodup_mappedPaths _,
        fun p => TrieNode.mem_mappedPaths p _, hdata.trans ?_⟩
      rw [List.take_of_length_le hcount, List.take_of_length_le hfits]
  · rw [if_neg hmalloc]
    constructor
    · rintro ⟨hack, -⟩
      exact absurd hack (Message.nack_not_succeeded _)
    · exact fun h => absurd h.1 hmalloc

end NamingServer

variable {net : Network} {sh sh' : Shared} {t t' : Threads} {a : Action} {r : ℕ}
  {es : List Event} {w : World} {as : List (ℕ × Action)} {disks : Server → Disk}

theorem Transition.of_inserted {o : OperationType} {path : Path}
    (h : Transition net r sh t a sh' t' es) (hmem : .inserted o path ∈ es) : 0 ∉ path := by
  cases h with
  | registerPath | recordCreate | recordCopy =>
      obtain ⟨-, rfl⟩ : _ ∧ path = _ := by simpa using hmem
      exact CharArray.zero_notMem_str _
  | refuse _ _ hes => rcases hes with rfl | ⟨_, _, rfl⟩ <;> simp at hmem
  | serve _ _ hes => rcases hes with rfl | ⟨_, _, _, rfl⟩ <;> simp at hmem
  | _ => simp at hmem

/-- The paths in the trie are C strings. -/
theorem zero_notMem_of_run
    (hrun : run (step net) (start ⟨.init fun _ => none, none, disks⟩) as = some w) {p : Path}
    (hp : w.shared.nm.search p ≠ none) : 0 ∉ p := by
  refine world_invariant (C := fun _ _ => True)
    (I := fun w => ∀ p, w.shared.nm.search p ≠ none → 0 ∉ p) ?_ ?_ (eachStep_true _ _) hrun p hp
  · intro pre w r a x _ hI _ h p hp
    change x.1.nm.search p ≠ none at hp
    rcases h.trie_cases with ⟨hsame, -⟩ | ⟨-, ⟨o, q, slot, hes, -, hins⟩ | ⟨q, -, hdel⟩⟩
    · exact hI p (hsame p ▸ hp)
    · rw [hins] at hp
      split_ifs at hp with hpq
      · rw [hpq]
        exact h.of_inserted (o := o) (by rw [hes]; exact List.mem_singleton_self _)
      · exact hI p hp
    · rw [hdel] at hp
      split_ifs at hp
      · exact absurd rfl hp
      · exact hI p hp
  · intro p hp
    exact absurd (NamingServer.search_init p _) hp

/-- A server registers its ten paths. -/
def registerTenActions : List (ℕ × Action) :=
  (0, .submit NamingServer.registerTen.1) :: List.replicate 14 (0, .nm)

end NetworkFileSystem
