import NetworkFileSystem.LockOwnership

/-!
# The naming server does not deadlock

Locks are waited for in one order: first `ss_list_mutex`, then the nodes of the trie, parents
before children, and last the cache mutex. A thread that holds a lock waits only for later ones.
-/

namespace NetworkFileSystem

open Locks Interleaving

variable {α : Type}

inductive LockRequest
  | list
  | cache
  | node (n : ℕ) (m : Mode)
  deriving DecidableEq

/-- The lock that the thread waits for. -/
def LockThread.request : LockThread α → Option LockRequest
  | .running (.lockList :: _) => some .list
  | .running (.lockCache :: _) => some .cache
  | .locking op n _ _ => some (.node n op.mode)
  | .entering n _ _ _ => some (.node n .read)
  | _ => none

namespace LockState

/-- The lock has no conflicting holder. -/
def Grants (sh : LockState α) : LockRequest → Prop
  | .list => sh.ssListMutex = none
  | .cache => sh.cacheMutex = none
  | .node n m => (sh.nodeLocks n).Grantable m

/-- The thread holds one of the locks. -/
def Holds (sh : LockState α) (r : ℕ) : Prop :=
  sh.ssListMutex = some r ∨ sh.cacheMutex = some r ∨ ∃ n m, (sh.nodeLocks n).HeldBy r m

/-- The place of a lock in the order. -/
def rank (sh : LockState α) : LockRequest → ℕ
  | .list => 0
  | .node n _ => n + 1
  | .cache => sh.heap.fresh + 1

end LockState

variable {sh : LockState α} {t : LockThread α} {r : ℕ}

/-- A thread takes its next step unless it is done or waits for a lock. -/
theorem step_or_waits (r : ℕ) (hpos : Positioned sh.heap t) (hscript : t.script ≠ []) :
    (threadStep r sh t).isSome ∨ ∃ request, t.request = some request ∧ ¬sh.Grants request := by
  cases t with
  | idle => exact absurd rfl hscript
  | crashed => exact absurd rfl hscript
  | running script =>
      cases script with
      | nil => exact absurd rfl hscript
      | cons instr script =>
          cases instr with
          | lockList =>
              by_cases hfree : sh.ssListMutex = none
              · exact Or.inl (by simp [threadStep, instrStep, hfree])
              · exact Or.inr ⟨.list, rfl, hfree⟩
          | lockCache =>
              by_cases hfree : sh.cacheMutex = none
              · exact Or.inl (by simp [threadStep, instrStep, hfree])
              · exact Or.inr ⟨.cache, rfl, hfree⟩
          | _ => exact Or.inl rfl
  | locking op n rest script =>
      by_cases hgrant : (sh.nodeLocks n).Grantable op.mode
      · exact Or.inl (by simp [threadStep, hgrant])
      · exact Or.inr ⟨.node n op.mode, rfl, hgrant⟩
  | visiting op n rest script =>
      rw [threadStep, visitStep]
      rcases sh.heap.visit op n rest with ⟨heap, result | ⟨c, seen⟩⟩ <;> exact Or.inl rfl
  | reading op n c rest seen script =>
      rw [threadStep]
      cases (sh.heap.cells n).children c <;> exact Or.inl rfl
  | returning op result script => exact Or.inl rfl
  | entering n frames acc script =>
      by_cases hgrant : (sh.nodeLocks n).Grantable .read
      · exact Or.inl (by simp [threadStep, hgrant])
      · exact Or.inr ⟨.node n .read, rfl, hgrant⟩
  | scanning frames acc script =>
      obtain ⟨q, hf⟩ := hpos
      cases frames with
      | nil => cases hf
      | cons frame frames =>
          rw [threadStep, scanStep]
          by_cases hi : frame.next < 256
          · rw [if_pos hi]
            dsimp only
            cases (sh.heap.cells frame.node).children (UInt8.ofNat frame.next) <;>
              exact Or.inl rfl
          · rw [if_neg hi]
            cases frames <;> exact Or.inl rfl

/-- A thread waits for a lock, and it has a conflicting holder. -/
def Blocked (w : LockWorld α) (r : ℕ) (request : LockRequest) : Prop :=
  (w.locals r).request = some request ∧ ¬w.shared.Grants request

/-- A thread waits for a lock that is free for it, or holds one and takes a step. -/
def Proceeds (w : LockWorld α) (r : ℕ) : Prop :=
  (∃ request, (w.locals r).request = some request ∧ w.shared.Grants request) ∨
    w.shared.Holds r ∧ (threadStep r w.shared (w.locals r)).isSome

variable {w : LockWorld α}

/-- The holder of `ss_list_mutex` waits for a later lock. -/
theorem Owns.rank_list (ht : Owns sh r t) (hheld : sh.ssListMutex = some r)
    {request : LockRequest} (hrequest : t.request = some request) : 0 < sh.rank request := by
  cases request with
  | list =>
      have hlist := ht.list.mp hheld
      unfold LockThread.request at hrequest
      split at hrequest <;> simp_all [LockThread.script, listHeld]
  | cache => exact Nat.succ_pos _
  | node n m => exact Nat.succ_pos _

/-- The holder of a node waits for a node below. -/
theorem Owns.rank_node (hwf : sh.heap.WellFormed) (hpos : Positioned sh.heap t)
    (ht : Owns sh r t) {n : ℕ} {m : Mode} (hheld : (sh.nodeLocks n).HeldBy r m)
    {request : LockRequest} (hrequest : t.request = some request) : n + 1 < sh.rank request := by
  have hnode := (ht.nodes n m).mp hheld
  cases t with
  | entering n' frames acc script =>
      obtain rfl := Option.some.inj hrequest
      obtain ⟨q, hf⟩ := hpos
      obtain ⟨f, hmem, rfl⟩ := List.mem_map.mp hnode.1
      exact Nat.succ_lt_succ (hf.ascending hwf f hmem)
  | visiting op n' rest script => cases hrequest
  | scanning frames acc script => cases hrequest
  | _ => cases hnode

/-- The holder of the cache mutex waits for nothing. -/
theorem Owns.request_cache (ht : Owns sh r t) (hheld : sh.cacheMutex = some r) :
    t.request = none := by
  have hcache := ht.cache.mp hheld
  unfold LockThread.request
  split <;> simp_all [LockThread.script, cacheHeld]

theorem Owns.script_ne_nil (ht : Owns sh r t) (hheld : sh.Holds r) : t.script ≠ [] := by
  rcases hheld with hlist | hcache | ⟨n, m, hnode⟩
  · intro hnil
    have := ht.list.mp hlist
    rw [hnil] at this
    cases this
  · intro hnil
    have := ht.cache.mp hcache
    rw [hnil] at this
    cases this
  · have := (ht.nodes n m).mp hnode
    cases t <;> simp_all [LockThread.HoldsNode, LockThread.script]

/-- A blocked thread is kept waiting by one that proceeds, or is blocked on a later lock. -/
theorem LockInvariant.exists_later (hw : LockInvariant w) {request : LockRequest}
    (hr : Blocked w r request) :
    ∃ q, Proceeds w q ∨
      ∃ request', Blocked w q request' ∧ w.shared.rank request < w.shared.rank request' := by
  obtain ⟨hrequest, hgrant⟩ := hr
  -- the holder of the lock, and why it waits only for later locks
  have hholder : ∃ q, w.shared.Holds q ∧ ∀ request', (w.locals q).request = some request' →
      w.shared.rank request < w.shared.rank request' := by
    cases request with
    | list =>
        obtain ⟨q, hq⟩ := Option.ne_none_iff_exists'.mp hgrant
        exact ⟨q, Or.inl hq, fun _ h => (hw.owns q).rank_list hq h⟩
    | cache =>
        obtain ⟨q, hq⟩ := Option.ne_none_iff_exists'.mp hgrant
        refine ⟨q, Or.inr (Or.inl hq), fun _ h => ?_⟩
        rw [(hw.owns q).request_cache hq] at h
        cases h
    | node n m =>
        obtain ⟨q, m', hq⟩ := RwLock.exists_holder hgrant
        exact ⟨q, Or.inr (Or.inr ⟨n, m', hq⟩), fun _ h =>
          (hw.owns q).rank_node hw.wellFormed (hw.positioned q) hq h⟩
  obtain ⟨q, hheld, hlater⟩ := hholder
  refine ⟨q, ?_⟩
  rcases step_or_waits q (hw.positioned q) ((hw.owns q).script_ne_nil hheld) with hstep |
    ⟨request', hrequest', hgrant'⟩
  · exact Or.inl (Or.inr ⟨hheld, hstep⟩)
  · exact Or.inr ⟨request', ⟨hrequest', hgrant'⟩, hlater request' hrequest'⟩

theorem LockInvariant.rank_le (hw : LockInvariant w) {request : LockRequest}
    (hr : (w.locals r).request = some request) :
    w.shared.rank request ≤ w.shared.heap.fresh + 1 := by
  have hpos := hw.positioned r
  cases request with
  | list => exact Nat.zero_le _
  | cache => exact le_rfl
  | node n m =>
      -- the thread stands at the node
      have hwalk : ∃ q, w.shared.heap.walk q = some n := by
        generalize w.locals r = t at hr hpos
        unfold LockThread.request at hr
        split at hr <;> simp only [reduceCtorEq, Option.some.injEq, LockRequest.node.injEq] at hr
        · obtain ⟨q, -, hn⟩ := hpos
          exact ⟨q, hr.1 ▸ hn⟩
        · obtain ⟨q, hf⟩ := hpos
          exact ⟨q, hr.1 ▸ hf.walk⟩
      obtain ⟨q, hn⟩ := hwalk
      exact Nat.succ_le_succ (hw.wellFormed.allocated q n hn).le

/-- Where a thread waits for a lock, a thread proceeds. -/
theorem LockInvariant.exists_proceeds (hw : LockInvariant w)
    (hr : (w.locals r).request ≠ none) : ∃ q, Proceeds w q := by
  obtain ⟨request, hrequest⟩ := Option.ne_none_iff_exists'.mp hr
  by_cases hgrant : w.shared.Grants request
  · exact ⟨r, Or.inl ⟨request, hrequest, hgrant⟩⟩
  · have hbound : ∀ x : ℕ × LockRequest, Blocked w x.1 x.2 →
        w.shared.rank x.2 ≤ w.shared.heap.fresh + 1 := fun x hx => hw.rank_le hx.1
    have hlater : ∀ x : ℕ × LockRequest, Blocked w x.1 x.2 → ∃ y : ℕ × LockRequest,
        Proceeds w y.1 ∨ Blocked w y.1 y.2 ∧ w.shared.rank x.2 < w.shared.rank y.2 := by
      rintro ⟨q, later⟩ hq
      obtain ⟨p, hp | ⟨later', hblocked, hlt⟩⟩ := hw.exists_later hq
      · exact ⟨(p, later), Or.inl hp⟩
      · exact ⟨(p, later'), Or.inr ⟨hblocked, hlt⟩⟩
    obtain ⟨y, hy⟩ := exists_of_rank_bounded hbound hlater (r := (r, request))
      ⟨hrequest, hgrant⟩
    exact ⟨y.1, hy⟩

/-- In every state that handlers reach in which a thread waits for a lock, some waiting request is
granted or some holder of a lock goes on; and no thread holds a lock while it waits for a storage
server. -/
theorem naming_locks_progress {actions : List (ℕ × LockAction Slot)} {w : LockWorld Slot}
    (hhandlers : Handlers actions) (hrun : Machine.run lockStep lockStart actions = some w) :
    ((∃ r, (w.locals r).request ≠ none) →
      (∃ r request, (w.locals r).request = some request ∧ w.shared.Grants request) ∨
        ∃ r, w.shared.Holds r ∧ (threadStep r w.shared (w.locals r)).isSome) ∧
      ∀ r script, w.locals r = .running (.exchange :: script) → ¬w.shared.Holds r := by
  have hw := lockInvariant_of_run hhandlers.goodStarts hrun
  constructor
  · rintro ⟨r, hr⟩
    obtain ⟨q, ⟨request, h⟩ | h⟩ := hw.exists_proceeds hr
    · exact Or.inl ⟨q, request, h⟩
    · exact Or.inr ⟨q, h⟩
  · intro r script hr hheld
    have ht := hw.owns r
    rw [hr] at ht
    obtain ⟨⟨hlist, hcache⟩, -⟩ := ht.disciplined
    rcases hheld with h | h | ⟨n, m, h⟩
    · exact absurd (ht.list.mp h) (by simpa [LockThread.script, listHeld] using hlist)
    · exact absurd (ht.cache.mp h) (by simp [LockThread.script, cacheHeld])
    · exact (ht.nodes n m).mp h

/-- A LIST_PATHS holds the root, for which a CREATE_FILE waits with `ss_list_mutex`. -/
def listDuringCreate : List (ℕ × LockAction Slot) :=
  [(0, .start [.collect fun _ => 0]),
    (1, .start ([.trie (.search createA.path.str), .lockList, .unlockList, .exchange] ++
      recordScript createA.path.str 0)), (0, .step), (0, .step)] ++ List.replicate 9 (1, .step)

theorem naming_locks_progress_listDuringCreate :
    ∃ w, Machine.run lockStep lockStart listDuringCreate = some w ∧
      (w.locals 1).request = some (.node TrieHeap.root .write) ∧
      ((∃ r request, (w.locals r).request = some request ∧ w.shared.Grants request) ∨
        ∃ r, w.shared.Holds r ∧ (threadStep r w.shared (w.locals r)).isSome) := by
  have hany : (Machine.run lockStep lockStart listDuringCreate).any fun w =>
      decide ((w.locals 1).request = some (.node TrieHeap.root .write)) := by decide +kernel
  obtain ⟨w, hrun, hw⟩ := (Option.any_eq_true _ _).mp hany
  have hrequest := of_decide_eq_true hw
  have hhandlers : Handlers listDuringCreate := by
    simp only [listDuringCreate, handlers_append_steps, handlers_cons_start, handlers_cons_step,
      handlers_nil, and_true]
    exact ⟨⟨{ Message.zero with operation := .listPaths }, .listPaths rfl _⟩,
      createA, .create rfl 0⟩
  exact ⟨w, hrun, hrequest,
    (naming_locks_progress hhandlers hrun).1 ⟨1, hrequest ▸ Option.some_ne_none _⟩⟩

end NetworkFileSystem
