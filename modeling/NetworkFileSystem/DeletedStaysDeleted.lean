import NetworkFileSystem.ExclusiveCreation

/-!
# Deleted stays deleted

A lookup that found its path in the trie stores it in the cache in a later step, without the
mutex. If every lookup that stores a path finds it still in the trie, then a lookup that starts
after a DELETE_FILE of its path was answered finds nothing. A store that comes after the
invalidation brings the path back.
-/

namespace NetworkFileSystem

open Interleaving Interleaving.World Machine

/-- The naming server answers a DELETE_FILE of the path with ACK/SUCCESS. -/
def Event.Deletes (path : Path) : Event → Prop
  | .answered msg reply =>
    msg.operation = .deleteFile ∧ msg.path.str = path ∧ reply.Succeeded
  | _ => False

instance (path : Path) (e : Event) : Decidable (e.Deletes path) :=
  match e with
  | .answered .. => inferInstanceAs (Decidable (_ ∧ _))
  | .handling _ | .searched .. | .picked _ | .executed .. | .inserted .. | .erased _
  | .invalidated _ | .lostReply => instDecidableFalse

/-- The naming server receives a lookup of the path. -/
def Event.StartsLookup (path : Path) : Event → Prop
  | .handling msg => msg.IsLookup ∧ msg.path.str = path
  | _ => False

instance (path : Path) (e : Event) : Decidable (e.StartsLookup path) :=
  match e with
  | .handling _ => inferInstanceAs (Decidable (_ ∧ _))
  | .searched .. | .picked _ | .executed .. | .inserted .. | .erased _ | .invalidated _
  | .lostReply | .answered .. => instDecidableFalse

/-- No request inserts the path after the request `d` removed it. -/
def NeverReinserted (path : Path) (d : ℕ) (h : List (ℕ × Event)) : Prop :=
  ∀ r o, ¬ Precedes h (d, .invalidated path) (r, .inserted o path)

/-- A lookup of the path whose handling starts after a DELETE_FILE of it was answered ACK/SUCCESS,
with no later insertion of the path, is answered FILE_NOT_FOUND. -/
def DeletedStaysDeleted (path : Path) (h : List (ℕ × Event)) : Prop :=
  ∀ d e q e', e.Deletes path → Precedes h (d, e) (q, e') → e'.StartsLookup path →
    NeverReinserted path d h →
    ∀ msg reply, (q, .answered msg reply) ∈ h → reply = .nack .fileNotFound

/-- A lookup that stores the path in the cache finds it still in the trie. -/
def FillsPresent (path : Path) (w : World) (a : ℕ × Action) : Prop :=
  match a.2, (w.locals a.1).nm with
  | .nm, .lookupFound msg _ => msg.path.str = path → w.shared.nm.search path ≠ none
  | _, _ => True

instance (path : Path) (w : World) : DecidablePred (FillsPresent path w) := fun (r, action) => by
  unfold FillsPresent
  split <;> infer_instance

variable {net : Network} {sh : Shared} {w : World} {as : List (ℕ × Action)} {path : Path} {r : ℕ}
  {a : Action} {x : Shared × Threads × List Event}

/-- Between `trie_delete` and `lru_remove` the path stays out of the trie. -/
theorem absent_of_deleteDropped (hrun : run (step net) (start sh) as = some w) :
    ∀ r msg slot, (w.locals r).nm = .deleteDropped msg slot →
      w.shared.nm.search msg.path.str = none := by
  refine world_invariant (C := fun _ _ => True) (I := fun w => ∀ r msg slot,
    (w.locals r).nm = .deleteDropped msg slot → w.shared.nm.search msg.path.str = none) ?_ ?_
    (eachStep_true _ _) hrun
  · intro pre w r a x hpre hI _ h q msg slot hq
    have hmutex := locked_of_run hpre
    rw [shared_after]
    by_cases hqr : q = r
    · subst hqr
      rw [locals_after_self] at hq
      rcases h.of_deleteDropped hq with ⟨hold, hsearch⟩ | hnone
      · rw [hsearch, hI q msg slot hold]
      · exact hnone
    · rw [locals_after_ne hqr] at hq
      rw [search_of_locked (by rw [hq]; trivial) hmutex hqr h]
      exact hI q msg slot hq
  · intro r msg slot hr
    simp [start, World.start, Threads.start] at hr

/-- A path that was removed and not inserted again is neither in the trie nor in the cache, and
the lookups that started since find nothing. -/
def Removed (path : Path) (w : World) : Prop :=
  ∀ d, (d, .invalidated path) ∈ w.history → NeverReinserted path d w.history →
    w.shared.nm.search path = none ∧ w.shared.nm.pathLruCache path = none ∧
      ∀ q msg, Precedes w.history (d, .invalidated path) (q, .handling msg) → msg.IsLookup →
        msg.path.str = path → (w.locals q).nm.Misses msg ∧
          ∀ msg' reply, .answered msg' reply ∈ w.own q → reply = .nack .fileNotFound

theorem NeverReinserted.of_after {d : ℕ} (h : NeverReinserted path d (w.after r x).history) :
    NeverReinserted path d w.history :=
  fun q o hold => h q o (hold.trans (List.sublist_append_left _ _))

/-- The path stays out of the trie and the cache. -/
theorem Removed.absent (hI : Removed path w) (hfill : FillsPresent path w (r, a))
    (hdropped : ∀ msg slot, (w.locals r).nm = .deleteDropped msg slot →
      w.shared.nm.search msg.path.str = none)
    (h : Transition net r w.shared (w.locals r) a x.1 x.2.1 x.2.2) {d : ℕ}
    (hd : (d, .invalidated path) ∈ (w.after r x).history)
    (hnever : NeverReinserted path d (w.after r x).history) :
    (w.after r x).shared.nm.search path = none ∧
      (w.after r x).shared.nm.pathLruCache path = none := by
  rcases mem_history_after.mp hd with hold | ⟨rfl, hmem⟩
  · obtain ⟨hsearch, hcache, -⟩ := hI d hold hnever.of_after
    constructor
    · rw [shared_after]
      rcases h.trie_cases with ⟨hsame, -⟩ | ⟨-, ⟨o, path', slot, hes, -, hins⟩ | ⟨path', -, hdel⟩⟩
      · rw [hsame, hsearch]
      · have hne : path ≠ path' := by
          rintro rfl
          exact hnever r o (precedes_append.mpr (Or.inr (Or.inl ⟨hold, by simp [hes]⟩)))
        rw [hins, if_neg hne, hsearch]
      · rw [hdel, hsearch, ite_self]
    · rw [shared_after]
      rcases h.cache_cases with
        ⟨hsame, -⟩ | ⟨msg, slot, rfl, hnm, -, hput⟩ | ⟨msg, slot, -, -, hrem⟩
      · rw [hsame, hcache]
      · have hne : path ≠ msg.path.str := by
          intro hpath
          simp only [FillsPresent, hnm] at hfill
          exact hfill hpath.symm hsearch
        rw [hput, Function.update_of_ne hne, hcache]
      · rw [hrem, Function.update_apply, hcache, ite_self]
  · rcases h.cache_cases with ⟨-, hno⟩ | ⟨_, _, -, -, hes, -⟩ | ⟨msg, slot, hnm, hes, hrem⟩
    · exact absurd hmem (hno path)
    · simp [hes] at hmem
    · obtain rfl : path = msg.path.str := by simpa [hes] using hmem
      rw [shared_after, hrem, Function.update_self]
      refine ⟨?_, rfl⟩
      rcases h.trie_cases with ⟨hsame, -⟩ | ⟨-, ⟨_, _, _, hes', -⟩ | ⟨_, hes', -⟩⟩
      · exact (hsame _).trans (hdropped msg slot hnm)
      · simp [hes] at hes'
      · simp [hes] at hes'

theorem Removed.step (hI : Removed path w) (hfill : FillsPresent path w (r, a))
    (hdropped : ∀ msg slot, (w.locals r).nm = .deleteDropped msg slot →
      w.shared.nm.search msg.path.str = none)
    (hl : ∀ q, Linked (w.locals q) (w.own q))
    (h : Transition net r w.shared (w.locals r) a x.1 x.2.1 x.2.2) :
    Removed path (w.after r x) := by
  intro d hd hnever
  obtain ⟨hsearch, hcache⟩ := hI.absent hfill hdropped h hd hnever
  refine ⟨hsearch, hcache, ?_⟩
  rintro q msg hpre hmsg rfl
  rcases precedes_after h.length_events hpre with hold | ⟨hd', rfl, hmem⟩
  · obtain ⟨hsearch', hcache', hlookups⟩ := hI d hold.mem_left hnever.of_after
    obtain ⟨hmiss, hanswered⟩ := hlookups q msg hold hmsg rfl
    by_cases hqr : q = r
    · subst hqr
      rw [locals_after_self, own_after_self]
      have hclient : (w.locals q).client ≠ .idle := fun hidle => by
        rw [((hl q).fresh hidle).1] at hmiss
        exact hmiss
      refine ⟨h.lookup_absent hclient hmsg hcache' hsearch' hmiss, fun msg' reply hmem => ?_⟩
      rcases List.mem_append.mp hmem with hmem | hmem
      · exact hanswered msg' reply hmem
      · rw [(h.of_answered hmem).1] at hmiss
        exact hmiss
    · rw [locals_after_ne hqr, own_after_ne hqr]
      exact ⟨hmiss, hanswered⟩
  · obtain ⟨hnm, hnm', hes⟩ := h.of_handling hmem
    rw [locals_after_self, own_after_self, hnm', hes]
    refine ⟨rfl, fun msg' reply hmem => ?_⟩
    rcases List.mem_append.mp hmem with hmem | hmem
    · have hfinished := ((hl q).answered msg' reply hmem).1
      rw [hnm] at hfinished
      cases hfinished
    · simp at hmem

/-- What follows the positive reply to a DELETE_FILE follows the invalidation. -/
theorem invalidated_precedes (hrun : run (step net) (start sh) as = some w) {d q : ℕ}
    {e e' : Event} (he : e.Deletes path) (hprec : Precedes w.history (d, e) (q, e')) :
    Precedes w.history (d, .invalidated path) (q, e') := by
  refine world_invariant (C := fun _ _ => True) (I := fun w =>
    Precedes w.history (d, e) (q, e') → Precedes w.history (d, .invalidated path) (q, e')) ?_ ?_
    (eachStep_true _ _) hrun hprec
  · intro pre w r a x hpre hI _ h hprec
    rcases precedes_after h.length_events hprec with hold | ⟨hd, rfl, hmem⟩
    · exact (hI hold).trans (List.sublist_append_left _ _)
    · cases e with
      | answered msg reply =>
          obtain ⟨hop, rfl, hack⟩ := he
          have hinv := (recorded_of_answered hpre (mem_own.mpr hd) hack).2 hop
          exact precedes_append.mpr (Or.inr (Or.inl ⟨mem_own.mp hinv, List.mem_map_of_mem hmem⟩))
      | _ => exact he.elim
  · intro hprec
    exact absurd hprec.mem_left List.not_mem_nil

/-- If every lookup that stores a path finds it still in the trie, a deleted path stays deleted. -/
theorem deletedStaysDeleted_of_fillsPresent
    (hsteps : EachStep (step net) (FillsPresent path) (start sh) as)
    (hrun : run (step net) (start sh) as = some w) : DeletedStaysDeleted path w.history := by
  have hI : Removed path w := by
    refine world_invariant (fun pre w r a x hpre hI hC h => hI.step hC
      (absent_of_deleteDropped hpre r) (linked_of_run hpre) h) ?_ hsteps hrun
    exact fun d hd => absurd hd List.not_mem_nil
  intro d e q e' he hprec he' hnever msg reply hmem
  have hinv := invalidated_precedes hrun he hprec
  obtain ⟨-, -, hlookups⟩ := hI d hinv.mem_left hnever
  cases e' with
  | handling msg' => exact (hlookups q msg' hinv he'.1 he'.2).2 msg reply (mem_own.mpr hmem)
  | _ => exact he'.elim

def Event.inserts : Event → Bool
  | .inserted _ _ => true
  | _ => false

def Event.invalidates : Event → Bool
  | .invalidated _ => true
  | _ => false

def Event.Succeeds : Event → Prop
  | .answered _ reply => reply.Succeeded
  | _ => False

instance (e : Event) : Decidable e.Succeeds :=
  match e with
  | .answered _ reply => inferInstanceAs (Decidable reply.Succeeded)
  | .handling _ | .searched .. | .picked _ | .executed .. | .inserted .. | .erased _
  | .invalidated _ | .lostReply => instDecidableFalse

/-- A lookup of `/a` up to its search in the trie. -/
def searchA (r : ℕ) : List (ℕ × Action) :=
  [(r, .submit { createA with operation := .readFile }), (r, .nm), (r, .nm), (r, .nm)]

theorem deletedStaysDeleted_createA :
    ∃ w, run (step portNetwork) (start twoServers) (checkCreateA 0 ++ finishCreateA 0 ++
      searchA 1 ++ [(1, .nm), (1, .nm)] ++ handleDeleteA 2 ++ searchA 3 ++ [(3, .nm)]) = some w ∧
      DeletedStaysDeleted createA.path.str w.history := by
  have hdefined : (run (step portNetwork) (start twoServers) (checkCreateA 0 ++ finishCreateA 0 ++
      searchA 1 ++ [(1, .nm), (1, .nm)] ++ handleDeleteA 2 ++ searchA 3 ++ [(3, .nm)])).isSome := by
    decide +kernel
  obtain ⟨w, hrun⟩ := Option.isSome_iff_exists.mp hdefined
  exact ⟨w, hrun, deletedStaysDeleted_of_fillsPresent (by decide +kernel) hrun⟩

/-- The lookup 1 stores the path after the invalidation, and the lookup 3 finds it. -/
theorem stale_fill_revives_path :
    ∃ w, run (step portNetwork) (start twoServers) (checkCreateA 0 ++ finishCreateA 0 ++
      searchA 1 ++ handleDeleteA 2 ++ [(1, .nm), (1, .nm)] ++ searchA 3) = some w ∧
      ¬ DeletedStaysDeleted createA.path.str w.history := by
  have hany : (run (step portNetwork) (start twoServers) (checkCreateA 0 ++ finishCreateA 0 ++
      searchA 1 ++ handleDeleteA 2 ++ [(1, .nm), (1, .nm)] ++ searchA 3)).any fun w =>
        (∃ e ∈ w.history.take 15, e.1 = 2 ∧ e.2.Deletes createA.path.str) ∧
        (∃ e ∈ w.history.drop 15, e.1 = 3 ∧ e.2.StartsLookup createA.path.str) ∧
        (∃ e ∈ w.history, e.1 = 3 ∧ e.2.Succeeds) ∧
        (∀ e ∈ w.history.take 6, e.2.invalidates = false) ∧
        ∀ e ∈ w.history.drop 6, e.2.inserts = false := by decide +kernel
  obtain ⟨w, hrun, hw⟩ := (Option.any_eq_true _ _).mp hany
  obtain ⟨⟨⟨_, e⟩, he, rfl, hdeletes⟩, ⟨⟨_, e'⟩, he', rfl, hstarts⟩, ⟨⟨_, e''⟩, he'', rfl, hfound⟩,
    hfresh, hlast⟩ := of_decide_eq_true hw
  refine ⟨w, hrun, fun hstays => ?_⟩
  have hprec : Precedes w.history (2, e) (3, e') :=
    List.take_append_drop 15 w.history ▸ precedes_append.mpr (Or.inr (Or.inl ⟨he, he'⟩))
  have hnever : NeverReinserted createA.path.str 2 w.history := by
    intro r o hprec
    rw [← List.take_append_drop 6 w.history] at hprec
    rcases precedes_append.mp hprec with h | ⟨h, -⟩ | h
    · cases hfresh _ h.mem_left
    · cases hfresh _ h
    · cases hlast _ h.mem_right
  cases e'' with
  | answered msg reply =>
      have hreply := hstays 2 e 3 e' hdeletes hprec hstarts hnever msg reply he''
      rw [hreply] at hfound
      exact Message.nack_not_succeeded _ hfound
  | _ => exact hfound.elim

end NetworkFileSystem
