import NetworkFileSystem.NamingLocks

/-!
# The trie is linearizable

Threads that walk down the trie, from lock to lock, act on it as on one shared map from paths to
servers. A thread stands at the node of the part of its path that it has read, since nodes are
never moved, and its operation acts with the last visit.
-/

namespace NetworkFileSystem

open Linearizability Interleaving

variable {α : Type}

/-- A partial map, used by one operation at a time. -/
def pathMap : Object (Path → Option α) (TrieOp α) (Option α) :=
  fun map op result map' => map' = op.apply map ∧ result = op.result map

def TrieEvent.toCall : TrieEvent α → Option (Linearizability.Event (TrieOp α) (Option α))
  | .call e => some e
  | _ => none

/-- The frames are the nodes on a path, the last one first; the frame above a node has just
looked at it. -/
inductive Framed (h : TrieHeap α) : Path → List Frame → Prop
  | root (i : ℕ) : Framed h [] [⟨TrieHeap.root, i⟩]
  | child {q frame frames c n} (i : ℕ) (above : Framed h q (frame :: frames))
    (walk : h.walk (q ++ [c]) = some n) (next : frame.next = c.toNat + 1) :
    Framed h (q ++ [c]) (⟨n, i⟩ :: frame :: frames)

/-- A thread stands at the node of the part of the path that it has read. -/
def Positioned (h : TrieHeap α) : LockThread α → Prop
  | .locking op n rest _ | .visiting op n rest _ =>
    ∃ q, op.path = q ++ rest ∧ h.walk q = some n
  | .reading op n c rest seen _ =>
    ∃ q, op.path = q ++ c :: rest ∧ h.walk q = some n ∧ (h.cells n).children c = some seen
  | .entering n frames _ _ => ∃ q, Framed h q (⟨n, 0⟩ :: frames)
  | .scanning frames _ _ => ∃ q, Framed h q frames
  | .crashed => False
  | _ => True

def LockThread.phase : LockThread α → Phase (TrieOp α) (Option α)
  | .locking op _ _ _ | .visiting op _ _ _ | .reading op _ _ _ _ _ => .pending op
  | .returning op result _ => .finished op result
  | _ => .idle

variable {h h' : TrieHeap α} {q : Path} {frames : List Frame} {t t' : LockThread α}

theorem TrieHeap.Extends.children {n m : ℕ} {c : UInt8} (hext : h.Extends h')
    (hn : h.walk q = some n) (hm : (h.cells n).children c = some m) :
    (h'.cells n).children c = some m := by
  rw [← TrieHeap.walk_concat_of_walk (hext q n hn)]
  exact hext _ _ ((TrieHeap.walk_concat_of_walk hn).trans hm)

theorem Framed.mono (hf : Framed h q frames) (hext : h.Extends h') : Framed h' q frames := by
  induction hf with
  | root i => exact .root i
  | child i above walk next ih => exact .child i ih (hext _ _ walk) next

theorem Positioned.mono (ht : Positioned h t) (hext : h.Extends h') : Positioned h' t := by
  cases t with
  | locking op n rest script =>
      obtain ⟨q, hpath, hn⟩ := ht
      exact ⟨q, hpath, hext q n hn⟩
  | visiting op n rest script =>
      obtain ⟨q, hpath, hn⟩ := ht
      exact ⟨q, hpath, hext q n hn⟩
  | reading op n c rest seen script =>
      obtain ⟨q, hpath, hn, hm⟩ := ht
      exact ⟨q, hpath, hext q n hn, hext.children hn hm⟩
  | entering n frames acc script =>
      obtain ⟨q, hf⟩ := ht
      exact ⟨q, hf.mono hext⟩
  | scanning frames acc script =>
      obtain ⟨q, hf⟩ := ht
      exact ⟨q, hf.mono hext⟩
  | _ => exact ht

/-- The first frame may have looked at any number of children. -/
theorem Framed.walk {n i : ℕ} (hf : Framed h q (⟨n, i⟩ :: frames)) : h.walk q = some n := by
  cases hf with
  | root => rfl
  | child _ _ walk => exact walk

theorem Framed.advance {n i : ℕ} (hf : Framed h q (⟨n, i⟩ :: frames)) (j : ℕ) :
    Framed h q (⟨n, j⟩ :: frames) := by
  cases hf with
  | root => exact .root j
  | child _ above walk next => exact .child j above walk next

/-- What a step of a thread keeps, and what it makes of the map. -/
structure Advances (h : TrieHeap α) (t : LockThread α) (h' : TrieHeap α) (t' : LockThread α)
    (es : List (TrieEvent α)) : Prop where
  wellFormed : h'.WellFormed
  grows : h.Extends h'
  positioned : Positioned h' t'
  moves : Moves pathMap h.contents t.phase (es.filterMap TrieEvent.toCall) h'.contents t'.phase
  reread : ∀ seen found, TrieEvent.reread seen found ∈ es → found = some seen

theorem ThreadStep.advances {r : ℕ} {sh sh' : LockState α} {es : List (TrieEvent α)}
    (hwf : sh.heap.WellFormed) (ht : Positioned sh.heap t)
    (hstep : ThreadStep r sh t sh' t' es) : Advances sh.heap t sh'.heap t' es := by
  -- the steps that leave the trie as it is, outside of a call
  have hkeep : ∀ {es : List (TrieEvent α)} {t'}, Positioned sh.heap t' →
      Moves pathMap sh.heap.contents t.phase (es.filterMap TrieEvent.toCall) sh.heap.contents
        t'.phase →
      (∀ seen found, TrieEvent.reread seen found ∈ es → found = some seen) →
      Advances sh.heap t sh.heap t' es :=
    fun hpos hmoves hreread => ⟨hwf, .refl _, hpos, hmoves, hreread⟩
  cases hstep with
  | lockList => exact hkeep trivial (.silent _ _) (by simp)
  | unlockList => exact hkeep trivial (.silent _ _) (by simp)
  | lockCache => exact hkeep trivial (.silent _ _) (by simp)
  | unlockCache => exact hkeep trivial (.silent _ _) (by simp)
  | exchange => exact hkeep trivial (.silent _ _) (by simp)
  | invoke => exact hkeep ⟨[], rfl, rfl⟩ (.invoke _ _) (by simp)
  | collect => exact hkeep ⟨[], .root 0⟩ (.silent _ _) (by simp)
  | lock => exact hkeep ht (.silent _ _) (by simp)
  | act hvisit =>
      obtain ⟨q, hpath, hn⟩ := ht
      have hvisited := TrieHeap.visited hwf hpath hn
      rw [hvisit] at hvisited
      obtain ⟨hcontents, rfl⟩ := hvisited.returns _ rfl
      exact ⟨hvisited.wellFormed, hvisited.grows, trivial, .act ⟨hcontents, rfl⟩, by simp⟩
  | goOn hvisit =>
      obtain ⟨q, hpath, hn⟩ := ht
      have hvisited := TrieHeap.visited hwf hpath hn
      rw [hvisit] at hvisited
      obtain ⟨hcontents, ⟨rest', rfl⟩, hm⟩ := hvisited.goesOn _ _ rfl
      refine ⟨hvisited.wellFormed, hvisited.grows, ?_, ?_, by simp⟩
      · exact ⟨q, hpath, hvisited.grows q _ hn, hm⟩
      · exact hcontents ▸ .silent _ _
  | @reread op n c rest seen m script hm =>
      obtain ⟨q, hpath, hn, hseen⟩ := ht
      refine hkeep ⟨q ++ [c], ?_, ?_⟩ (.silent _ _) ?_
      · rw [hpath, List.append_assoc]
        rfl
      · rw [TrieHeap.walk_concat_of_walk hn, hm]
      · intro seen found hmem
        obtain ⟨rfl, rfl⟩ := TrieEvent.reread.inj (List.mem_singleton.mp hmem)
        exact hm.symm.trans hseen
  | crash hm =>
      obtain ⟨q, hpath, hn, hseen⟩ := ht
      cases hm.symm.trans hseen
  | ret => exact hkeep trivial (.ret _ _ _) (by simp)
  | enter =>
      obtain ⟨q, hf⟩ := ht
      exact hkeep ⟨q, hf⟩ (.silent _ _) (by simp)
  | @descend n i frames acc script child hi hchild =>
      obtain ⟨q, hf⟩ := ht
      refine hkeep ⟨q ++ [UInt8.ofNat i], .child 0 (hf.advance _) ?_ ?_⟩ (.silent _ _) (by simp)
      · rw [TrieHeap.walk_concat_of_walk hf.walk, hchild]
      · simp [Nat.mod_eq_of_lt hi]
  | skip hi hchild =>
      obtain ⟨q, hf⟩ := ht
      exact hkeep ⟨q, hf.advance _⟩ (.silent _ _) (by simp)
  | ascend hi =>
      obtain ⟨q, hf⟩ := ht
      cases hf with
      | child _ above => exact hkeep ⟨_, above⟩ (.silent _ _) (by simp)
  | finish hi => exact hkeep trivial (.silent _ _) (by simp)

/-- Holds of all threads at any time. -/
structure TrieInvariant (w : LockWorld α) : Prop where
  wellFormed : w.shared.heap.WellFormed
  positioned : ∀ r, Positioned w.shared.heap (w.locals r)

variable {w w' : LockWorld α} {r : ℕ}

theorem trieInvariant_start : TrieInvariant (lockStart : LockWorld α) :=
  ⟨TrieHeap.wellFormed_init, fun _ => trivial⟩

/-- A thread starts, or takes a step. -/
theorem lockProcess_cases {sh : LockState α} {a : LockAction α}
    {x : LockState α × LockThread α × List (TrieEvent α)} (hx : lockProcess r sh t a = some x) :
    (∃ script, a = .start script ∧ t = .idle ∧ x = (sh, .running script, [])) ∨
      a = .step ∧ ThreadStep r sh t x.1 x.2.1 x.2.2 := by
  cases a with
  | start script =>
      cases t <;> simp only [lockProcess, reduceCtorEq, Option.some.injEq] at hx
      exact Or.inl ⟨script, rfl, rfl, hx.symm⟩
  | step => exact Or.inr ⟨rfl, threadStep_cases hx⟩

theorem TrieInvariant.advances {a : LockAction α}
    {x : LockState α × LockThread α × List (TrieEvent α)} (hw : TrieInvariant w)
    (hx : lockProcess r w.shared (w.locals r) a = some x) :
    Advances w.shared.heap (w.locals r) x.1.heap x.2.1 x.2.2 := by
  rcases lockProcess_cases hx with ⟨script, rfl, hidle, rfl⟩ | ⟨rfl, hstep⟩
  · rw [hidle]
    exact ⟨hw.wellFormed, .refl _, trivial, .silent _ _, by simp⟩
  · exact hstep.advances hw.wellFormed (hw.positioned r)

theorem TrieInvariant.after {a : LockAction α}
    {x : LockState α × LockThread α × List (TrieEvent α)} (hw : TrieInvariant w)
    (hx : lockProcess r w.shared (w.locals r) a = some x) : TrieInvariant (w.after r x) := by
  have h := hw.advances hx
  refine ⟨h.wellFormed, fun q => ?_⟩
  by_cases hq : q = r
  · subst hq
    rw [World.locals_after_self]
    exact h.positioned
  · rw [World.locals_after_ne hq]
    exact (hw.positioned q).mono h.grows

/-- The map that the trie holds, between the steps of the threads. -/
structure HoldsMap (w : LockWorld α) (map : Path → Option α) : Prop extends TrieInvariant w where
  reread : ∀ r seen found, (r, .reread seen found) ∈ w.history → found = some seen
  contents : w.shared.heap.contents = map

theorem holdsMap_start : HoldsMap (lockStart : LockWorld α) fun _ => none where
  toTrieInvariant := trieInvariant_start
  reread r seen found hmem := by cases hmem
  contents := funext TrieHeap.contents_init

theorem HoldsMap.moves {map : Path → Option α} {a : LockAction α}
    {x : LockState α × LockThread α × List (TrieEvent α)} (hw : HoldsMap w map)
    (hx : lockProcess r w.shared (w.locals r) a = some x) :
    ∃ map', HoldsMap (w.after r x) map' ∧
      Moves pathMap map (w.locals r).phase (x.2.2.filterMap TrieEvent.toCall) map'
        x.2.1.phase := by
  have h := hw.advances hx
  refine ⟨x.1.heap.contents, ⟨hw.after hx, fun q seen found hmem => ?_, rfl⟩, ?_⟩
  · rcases World.mem_history_after.mp hmem with hold | ⟨-, hnew⟩
    · exact hw.reread q seen found hold
    · exact h.reread seen found hnew
  · exact hw.contents ▸ h.moves

/-- In every run each operation on the trie acts once, between its start and its return, on one map
from paths to servers, and a child pointer is found as it was seen under the lock. -/
theorem trie_linearizable {actions : List (ℕ × LockAction α)}
    (hrun : Machine.run lockStep lockStart actions = some w) :
    Linearizes pathMap (fun _ => none) (calls TrieEvent.toCall w.history)
      w.shared.heap.contents ∧
      (∀ r seen found, (r, .reread seen found) ∈ w.history → found = some seen) ∧
      ∀ r, w.locals r ≠ .crashed := by
  obtain ⟨map, hw, hlin⟩ := linearizes TrieEvent.toCall LockThread.phase
    (fun v r a x map hv _ hx => HoldsMap.moves hv hx) holdsMap_start (fun r => rfl) rfl
    (Machine.eachStep_true _ _) hrun
  refine ⟨hw.contents ▸ hlin, hw.reread, fun r hcrashed => ?_⟩
  have := hw.positioned r
  rw [hcrashed] at this
  exact this

/-- Two threads that create the same prefix. -/
def sharedPrefix : List (ℕ × LockAction ℕ) :=
  [(0, .start [.trie (.insert [97, 98] 5)]), (1, .start [.trie (.insert [97] 6)]),
    (0, .step), (1, .step), (0, .step), (0, .step), (1, .step), (1, .step), (1, .step), (0, .step),
    (0, .step), (0, .step), (1, .step), (1, .step), (0, .step), (0, .step), (0, .step)]

theorem trie_linearizable_sharedPrefix : ∃ w, Machine.run lockStep lockStart sharedPrefix = some w ∧
    w.shared.heap.contents [97, 98] = some 5 ∧ w.shared.heap.contents [97] = some 6 ∧
    Linearizes pathMap (fun _ => none) (calls TrieEvent.toCall w.history)
      w.shared.heap.contents := by
  have hany : (Machine.run lockStep lockStart sharedPrefix).any fun w =>
      decide (w.shared.heap.contents [97, 98] = some 5 ∧
        w.shared.heap.contents [97] = some 6) := by decide +kernel
  obtain ⟨w, hrun, hw⟩ := (Option.any_eq_true _ _).mp hany
  obtain ⟨hlong, hshort⟩ := of_decide_eq_true hw
  exact ⟨w, hrun, hlong, hshort, (trie_linearizable hrun).1⟩

end NetworkFileSystem
