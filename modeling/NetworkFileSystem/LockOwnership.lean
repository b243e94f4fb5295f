import NetworkFileSystem.TrieLinearization

/-!
# Who holds the locks of the naming server

Where a thread stands in its script says which locks it holds: `ss_list_mutex` if its next access
to this mutex is to unlock it, the cache mutex if that is its next instruction, and the lock of
each node that it visits or traverses. The scripts of the handlers take the mutexes in one order,
update the trie only under `ss_list_mutex`, and call the storage servers without a lock.
-/

namespace NetworkFileSystem

open Locks Interleaving

variable {α : Type}

/-- The next access to `ss_list_mutex` is to unlock it. -/
def listHeld : List (Instr α) → Bool
  | [] => false
  | .lockList :: _ => false
  | .unlockList :: _ => true
  | _ :: script => listHeld script

def cacheHeld : List (Instr α) → Bool
  | .unlockCache :: _ => true
  | _ => false

/-- What must follow an instruction. -/
def Instr.Allows (script : List (Instr α)) : Instr α → Prop
  | .lockList | .trie (.insert _ _) | .trie (.delete _) =>
    listHeld script = true ∧ cacheHeld script = false
  | .unlockList | .collect _ | .exchange => listHeld script = false ∧ cacheHeld script = false
  | .lockCache => cacheHeld script = true
  | .unlockCache | .trie (.search _) => cacheHeld script = false

def Disciplined : List (Instr α) → Prop
  | [] => True
  | instr :: script => instr.Allows script ∧ Disciplined script

namespace LockThread

/-- What is left of the script, from the current instruction on. -/
def script : LockThread α → List (Instr α)
  | .idle | .crashed => []
  | .running script => script
  | .locking op _ _ script | .visiting op _ _ script | .reading op _ _ _ _ script
  | .returning op _ script => .trie op :: script
  | .entering _ _ _ script | .scanning _ _ script => .collect (fun _ => 0) :: script

def HoldsNode (n : ℕ) (m : Mode) : LockThread α → Prop
  | .visiting op n' _ _ => n = n' ∧ m = op.mode
  | .entering _ frames _ _ | .scanning frames _ _ => n ∈ frames.map Frame.node ∧ m = .read
  | _ => False

end LockThread

/-- The locks held by the thread are those of its place in the script. -/
structure Owns (sh : LockState α) (r : ℕ) (t : LockThread α) : Prop where
  list : sh.ssListMutex = some r ↔ listHeld t.script = true
  cache : sh.cacheMutex = some r ↔ cacheHeld t.script = true
  nodes : ∀ n m, (sh.nodeLocks n).HeldBy r m ↔ t.HoldsNode n m
  disciplined : Disciplined t.script

/-- The locks of one thread are as before. -/
structure Unaffected (sh sh' : LockState α) (q : ℕ) : Prop where
  list : sh'.ssListMutex = some q ↔ sh.ssListMutex = some q
  cache : sh'.cacheMutex = some q ↔ sh.cacheMutex = some q
  nodes : ∀ n m, (sh'.nodeLocks n).HeldBy q m ↔ (sh.nodeLocks n).HeldBy q m

variable {sh sh' : LockState α} {t t' : LockThread α} {q r n : ℕ} {m : Mode}

theorem Owns.unaffected (h : Owns sh r t) (hsh : Unaffected sh sh' r) : Owns sh' r t where
  list := hsh.list.trans h.list
  cache := hsh.cache.trans h.cache
  nodes n m := (hsh.nodes n m).trans (h.nodes n m)
  disciplined := h.disciplined

namespace LockState

theorem heldBy_lockNode (h : (sh.nodeLocks n).Grantable m) (x : ℕ) (m' : Mode) :
    ((sh.lockNode n r m).nodeLocks x).HeldBy q m' ↔
      (sh.nodeLocks x).HeldBy q m' ∨ x = n ∧ q = r ∧ m' = m := by
  by_cases hx : x = n
  · subst hx
    simp only [lockNode, Function.update_self, true_and]
    exact RwLock.heldBy_acquire h
  · simp [lockNode, hx]

theorem heldBy_unlockNode (hwf : (sh.nodeLocks n).WellFormed) (h : (sh.nodeLocks n).HeldBy r m)
    (x : ℕ) (m' : Mode) :
    ((sh.unlockNode n r m).nodeLocks x).HeldBy q m' ↔
      (sh.nodeLocks x).HeldBy q m' ∧ ¬(x = n ∧ q = r ∧ m' = m) := by
  by_cases hx : x = n
  · subst hx
    simp only [unlockNode, Function.update_self, true_and]
    exact RwLock.heldBy_release hwf h
  · simp [unlockNode, hx]

theorem wellFormed_lockNode (hwf : ∀ x, (sh.nodeLocks x).WellFormed)
    (h : (sh.nodeLocks n).Grantable m) (hr : ¬(sh.nodeLocks n).HeldBy r .read) (x : ℕ) :
    ((sh.lockNode n r m).nodeLocks x).WellFormed := by
  by_cases hx : x = n
  · subst hx
    simpa [lockNode] using (hwf x).acquire h hr
  · simpa [lockNode, hx] using hwf x

theorem wellFormed_unlockNode (hwf : ∀ x, (sh.nodeLocks x).WellFormed) (x : ℕ) :
    ((sh.unlockNode n r m).nodeLocks x).WellFormed := by
  by_cases hx : x = n
  · subst hx
    simpa [unlockNode] using (hwf x).release r m
  · simpa [unlockNode, hx] using hwf x

end LockState

/-- The nodes of a traversal are allocated one after the other. -/
theorem Framed.ascending {h : TrieHeap α} (hwf : h.WellFormed) {p : Path} {frame : Frame}
    {frames : List Frame} (hf : Framed h p (frame :: frames)) :
    ∀ f ∈ frames, f.node < frame.node := by
  generalize hl : frame :: frames = l at hf
  induction hf generalizing frame frames with
  | root i =>
      obtain ⟨rfl, rfl⟩ := List.cons.inj hl
      exact fun f hmem => by cases hmem
  | @child p above frames' c n i hf hn hnext ih =>
      obtain ⟨rfl, rfl⟩ := List.cons.inj hl
      have habove := hf.walk
      rw [TrieHeap.walk_concat_of_walk habove] at hn
      have hlt := (hwf.ascending _ _ _ (hwf.allocated _ _ habove) hn).1
      intro f hmem
      rcases List.mem_cons.mp hmem with rfl | hmem
      · exact hlt
      · exact (ih rfl f hmem).trans hlt

/-- The locks after a step: those of the thread fit its new place, and the others keep theirs. -/
structure Exchanged (sh : LockState α) (r : ℕ) (sh' : LockState α) (t' : LockThread α) :
    Prop where
  wellFormed : ∀ x, (sh'.nodeLocks x).WellFormed
  owns : Owns sh' r t'
  others : ∀ q, q ≠ r → Unaffected sh sh' q

theorem Unaffected.refl (sh : LockState α) (q : ℕ) : Unaffected sh sh q :=
  ⟨Iff.rfl, Iff.rfl, fun _ _ => Iff.rfl⟩

/-- A thread goes on to a place that comes with the same locks. -/
theorem Owns.exchanged (hwf : ∀ x, (sh.nodeLocks x).WellFormed) (ht : Owns sh r t)
    (hlist : listHeld t'.script = listHeld t.script)
    (hcache : cacheHeld t'.script = cacheHeld t.script)
    (hnodes : ∀ n m, t'.HoldsNode n m ↔ t.HoldsNode n m) (hd : Disciplined t'.script) :
    Exchanged sh r sh t' where
  wellFormed := hwf
  owns :=
    { list := hlist ▸ ht.list
      cache := hcache ▸ ht.cache
      nodes := fun n m => (ht.nodes n m).trans (hnodes n m).symm
      disciplined := hd }
  others := fun q _ => .refl sh q

theorem Owns.locked (hwf : ∀ x, (sh.nodeLocks x).WellFormed) (ht : Owns sh r t)
    (hgrant : (sh.nodeLocks n).Grantable m) (hr : ¬t.HoldsNode n .read)
    (hscript : t'.script = t.script)
    (hnodes : ∀ x m', t'.HoldsNode x m' ↔ t.HoldsNode x m' ∨ x = n ∧ m' = m) :
    Exchanged sh r (sh.lockNode n r m) t' where
  wellFormed := LockState.wellFormed_lockNode hwf hgrant (mt (ht.nodes n .read).mp hr)
  owns :=
    { list := hscript ▸ ht.list
      cache := hscript ▸ ht.cache
      nodes := fun x m' => by
        rw [LockState.heldBy_lockNode hgrant, hnodes, ht.nodes]
        simp
      disciplined := hscript ▸ ht.disciplined }
  others q hq :=
    { list := Iff.rfl
      cache := Iff.rfl
      nodes := fun x m' => by simp [LockState.heldBy_lockNode hgrant, hq] }

theorem Owns.unlocked (hwf : ∀ x, (sh.nodeLocks x).WellFormed) (ht : Owns sh r t)
    (heap : TrieHeap α) (hheld : t.HoldsNode n m)
    (hlist : listHeld t'.script = listHeld t.script)
    (hcache : cacheHeld t'.script = cacheHeld t.script) (hd : Disciplined t'.script)
    (hnodes : ∀ x m', t'.HoldsNode x m' ↔ t.HoldsNode x m' ∧ ¬(x = n ∧ m' = m)) :
    Exchanged sh r ({ sh with heap := heap }.unlockNode n r m) t' := by
  have hlocks := fun (q x : ℕ) (m' : Mode) =>
    LockState.heldBy_unlockNode (q := q) (hwf n) ((ht.nodes n m).mpr hheld) x m'
  have hwf' : ∀ x, ((LockState.unlockNode { sh with heap := heap } n r m).nodeLocks x).WellFormed :=
    LockState.wellFormed_unlockNode hwf
  refine ⟨hwf', ?_, ?_⟩
  · refine ⟨hlist ▸ ht.list, hcache ▸ ht.cache, fun x m' => ?_, hd⟩
    refine (hlocks r x m').trans ?_
    rw [hnodes, ht.nodes]
    simp
  · intro q hq
    refine ⟨Iff.rfl, Iff.rfl, fun x m' => (hlocks q x m').trans ?_⟩
    simp [hq]

/-- Taking or giving back a mutex; `mine` says whether the thread has it afterwards. -/
theorem Owns.exchanged_mutex (hwf : ∀ x, (sh.nodeLocks x).WellFormed) (ht : Owns sh r t)
    (hheap : sh'.nodeLocks = sh.nodeLocks)
    (hlist : sh'.ssListMutex = some r ↔ listHeld t'.script = true)
    (hcache : sh'.cacheMutex = some r ↔ cacheHeld t'.script = true)
    (hothers : ∀ q, q ≠ r → (sh'.ssListMutex = some q ↔ sh.ssListMutex = some q) ∧
      (sh'.cacheMutex = some q ↔ sh.cacheMutex = some q))
    (hnodes : ∀ n m, t'.HoldsNode n m ↔ t.HoldsNode n m) (hd : Disciplined t'.script) :
    Exchanged sh r sh' t' where
  wellFormed := hheap ▸ hwf
  owns := ⟨hlist, hcache, fun n m => by rw [hheap, ht.nodes, hnodes], hd⟩
  others q hq := ⟨(hothers q hq).1, (hothers q hq).2, fun n m => by rw [hheap]⟩

/-- What the step of a thread makes of the locks. -/
theorem ThreadStep.exchanged {es : List (TrieEvent α)} (htrie : sh.heap.WellFormed)
    (hpos : Positioned sh.heap t) (hwf : ∀ x, (sh.nodeLocks x).WellFormed) (ht : Owns sh r t)
    (hstep : ThreadStep r sh t sh' t' es) : Exchanged sh r sh' t' := by
  have hd := ht.disciplined
  cases hstep with
  | lockList hfree =>
      obtain ⟨⟨hlist, hcache⟩, hd⟩ := hd
      refine ht.exchanged_mutex hwf rfl ?_ ?_ (fun q hq => ?_) (fun _ _ => Iff.rfl) hd
      · exact iff_of_true rfl hlist
      · rw [LockThread.script, hcache]
        exact ht.cache
      · simp [hfree, hq.symm]
  | unlockList =>
      obtain ⟨⟨hlist, hcache⟩, hd⟩ := hd
      have hmine := ht.list.mpr rfl
      refine ht.exchanged_mutex hwf rfl ?_ ?_ (fun q hq => ?_) (fun _ _ => Iff.rfl) hd
      · simp [LockThread.script, hlist]
      · rw [LockThread.script, hcache]
        exact ht.cache
      · simp [hmine, hq.symm]
  | lockCache hfree =>
      obtain ⟨hcache, hd⟩ := hd
      refine ht.exchanged_mutex hwf rfl ht.list ?_ (fun q hq => ?_) (fun _ _ => Iff.rfl) hd
      · exact iff_of_true rfl hcache
      · simp [hfree, hq.symm]
  | @unlockCache script =>
      obtain ⟨hallows, hd⟩ := hd
      have hcache : cacheHeld script = false := hallows
      have hmine := ht.cache.mpr rfl
      refine ht.exchanged_mutex hwf rfl ht.list ?_ (fun q hq => ?_) (fun _ _ => Iff.rfl) hd
      · simp [LockThread.script, hcache]
      · simp [hmine, hq.symm]
  | invoke => exact ht.exchanged hwf rfl rfl (fun _ _ => Iff.rfl) hd
  | collect => exact ht.exchanged hwf rfl rfl (by simp [LockThread.HoldsNode]) hd
  | exchange =>
      obtain ⟨⟨hlist, hcache⟩, hd⟩ := hd
      exact ht.exchanged hwf rfl hcache (fun _ _ => Iff.rfl) hd
  | lock hgrant =>
      refine ht.locked hwf hgrant id rfl (fun x m' => ?_)
      simp [LockThread.HoldsNode]
  | @act op n rest script heap result hvisit =>
      exact ht.unlocked hwf heap ⟨rfl, rfl⟩ rfl rfl hd (by simp [LockThread.HoldsNode])
  | @goOn op n rest script heap c seen hvisit =>
      exact ht.unlocked hwf heap ⟨rfl, rfl⟩ rfl rfl hd (by simp [LockThread.HoldsNode])
  | reread hm => exact ht.exchanged hwf rfl rfl (fun _ _ => Iff.rfl) hd
  | crash hm =>
      obtain ⟨q, -, -, hseen⟩ := hpos
      cases hm.symm.trans hseen
  | @ret op result script =>
      obtain ⟨hallows, hd⟩ := hd
      have hcache : cacheHeld script = false := by cases op <;> simp_all [Instr.Allows]
      exact ht.exchanged hwf rfl hcache (fun _ _ => Iff.rfl) hd
  | @enter n frames acc script hgrant =>
      obtain ⟨q, hf⟩ := hpos
      have hnew : n ∉ frames.map Frame.node := fun hmem => by
        obtain ⟨f, hf', rfl⟩ := List.mem_map.mp hmem
        exact lt_irrefl _ (hf.ascending htrie f hf')
      refine ht.locked hwf hgrant (fun h => hnew h.1) rfl (fun x m' => ?_)
      simp only [LockThread.HoldsNode, List.map_cons, List.mem_cons]
      tauto
  | descend hi hchild => exact ht.exchanged hwf rfl rfl (fun _ _ => Iff.rfl) hd
  | skip hi hchild => exact ht.exchanged hwf rfl rfl (fun _ _ => Iff.rfl) hd
  | @ascend n i frame frames acc script hi =>
      obtain ⟨q, hf⟩ := hpos
      have hnew : n ∉ (frame :: frames).map Frame.node := fun hmem => by
        obtain ⟨f, hf', rfl⟩ := List.mem_map.mp hmem
        exact lt_irrefl _ (hf.ascending htrie f hf')
      refine ht.unlocked hwf sh.heap ⟨List.mem_cons_self, rfl⟩ rfl rfl hd (fun x m' => ?_)
      simp only [LockThread.HoldsNode]
      constructor
      · rintro ⟨hmem, rfl⟩
        exact ⟨⟨List.mem_cons_of_mem _ hmem, rfl⟩, fun h => hnew (h.1 ▸ hmem)⟩
      · rintro ⟨⟨hmem, rfl⟩, hne⟩
        exact ⟨(List.mem_cons.mp hmem).resolve_left fun h => hne ⟨h, rfl⟩, rfl⟩
  | @finish n i acc script hi =>
      obtain ⟨⟨hlist, hcache⟩, hd⟩ := hd
      refine ht.unlocked hwf sh.heap ⟨List.mem_cons_self, rfl⟩ rfl hcache hd (fun x m' => ?_)
      simp [LockThread.HoldsNode]

/-! ### Runs -/

/-- Between the steps of any threads with disciplined scripts. -/
structure LockInvariant (w : LockWorld α) : Prop extends TrieInvariant w where
  locks : ∀ n, (w.shared.nodeLocks n).WellFormed
  owns : ∀ r, Owns w.shared r (w.locals r)

/-- A script that takes the locks in order and gives all of them back. -/
def GoodScript (script : List (Instr α)) : Prop :=
  Disciplined script ∧ listHeld script = false ∧ cacheHeld script = false

theorem lockInvariant_start : LockInvariant (lockStart : LockWorld α) where
  toTrieInvariant := trieInvariant_start
  locks n := RwLock.wellFormed_free
  owns r :=
    { list := by simp [lockStart, World.start, LockState.init, LockThread.script, listHeld]
      cache := by simp [lockStart, World.start, LockState.init, LockThread.script, cacheHeld]
      nodes := fun n m => by
        cases m <;> simp [lockStart, World.start, LockState.init, LockThread.HoldsNode,
          RwLock.HeldBy, RwLock.free]
      disciplined := trivial }

def GoodStarts (_ : LockWorld α) : ℕ × LockAction α → Prop
  | (_, .start script) => GoodScript script
  | (_, .step) => True

theorem LockInvariant.after {w : LockWorld α} {a : LockAction α}
    {x : LockState α × LockThread α × List (TrieEvent α)} (hw : LockInvariant w)
    (ha : GoodStarts w (r, a)) (hx : lockProcess r w.shared (w.locals r) a = some x) :
    LockInvariant (w.after r x) := by
  have hexchanged : Exchanged w.shared r x.1 x.2.1 := by
    rcases lockProcess_cases hx with ⟨script, rfl, hidle, rfl⟩ | ⟨rfl, hstep⟩
    · obtain ⟨hd, hlist, hcache⟩ : GoodScript script := ha
      have ht := hw.owns r
      rw [hidle] at ht
      exact ht.exchanged hw.locks hlist hcache (fun _ _ => Iff.rfl) hd
    · exact hstep.exchanged hw.wellFormed (hw.positioned r) hw.locks (hw.owns r)
  refine ⟨hw.toTrieInvariant.after hx, hexchanged.wellFormed, fun q => ?_⟩
  by_cases hq : q = r
  · subst hq
    rw [World.locals_after_self]
    exact hexchanged.owns
  · rw [World.locals_after_ne hq]
    exact (hw.owns q).unaffected (hexchanged.others q hq)

theorem lockInvariant_of_run {w : LockWorld α} {actions : List (ℕ × LockAction α)}
    (hstarts : Machine.EachStep lockStep GoodStarts lockStart actions)
    (hrun : Machine.run lockStep lockStart actions = some w) : LockInvariant w := by
  refine hstarts.invariant lockInvariant_start ?_ hrun
  rintro v ⟨r, a⟩ v' hv ha hstep
  obtain ⟨x, hx, rfl⟩ := step_eq_some.mp hstep
  exact hv.after ha hx

/-! ### The handlers -/

theorem goodScript_inserts (paths : List Path) (slot : α) :
    listHeld (paths.map (fun p => Instr.trie (.insert p slot)) ++ [.unlockList]) = true ∧
      Disciplined (paths.map (fun p => Instr.trie (.insert p slot)) ++ [.unlockList]) ∧
      cacheHeld (paths.map (fun p => Instr.trie (.insert p slot)) ++ [.unlockList]) = false := by
  induction paths with
  | nil => simp [listHeld, Disciplined, Instr.Allows, cacheHeld]
  | cons p paths ih =>
      obtain ⟨hlist, hd, hcache⟩ := ih
      exact ⟨hlist, ⟨⟨hlist, hcache⟩, hd⟩, rfl⟩

theorem HandlerScript.good {msg : Message} {script : List (Instr Slot)}
    (h : HandlerScript msg script) : GoodScript script := by
  cases h with
  | registerSs hop slot =>
      obtain ⟨hlist, hd, hcache⟩ := goodScript_inserts
        ((NamingServer.pathIndices msg).map fun i => (msg.accessiblePaths.get i).str) slot
      rw [List.map_map] at hlist hd hcache
      exact ⟨⟨⟨hlist, hcache⟩, hd⟩, rfl, rfl⟩
  | _ =>
      simp [GoodScript, Disciplined, Instr.Allows, listHeld, cacheHeld, recordScript]

/-- Every script that is started is one of a handler. -/
def Handlers (actions : List (ℕ × LockAction Slot)) : Prop :=
  ∀ r script, (r, .start script) ∈ actions → ∃ msg, HandlerScript msg script

@[simp] theorem handlers_nil : Handlers [] := by
  intro r script hmem
  cases hmem

@[simp] theorem handlers_cons_start {r : ℕ} {script : List (Instr Slot)}
    {actions : List (ℕ × LockAction Slot)} : Handlers ((r, .start script) :: actions) ↔
      (∃ msg, HandlerScript msg script) ∧ Handlers actions := by
  simp only [Handlers, List.mem_cons, Prod.mk.injEq, LockAction.start.injEq]
  constructor
  · exact fun h => ⟨h r script (Or.inl ⟨rfl, rfl⟩), fun q s hmem => h q s (Or.inr hmem)⟩
  · rintro ⟨hscript, hactions⟩ q s (⟨rfl, rfl⟩ | hmem)
    · exact hscript
    · exact hactions q s hmem

@[simp] theorem handlers_cons_step {r : ℕ} {actions : List (ℕ × LockAction Slot)} :
    Handlers ((r, .step) :: actions) ↔ Handlers actions := by
  simp [Handlers]

@[simp] theorem handlers_append_steps {r n : ℕ} {actions : List (ℕ × LockAction Slot)} :
    Handlers (actions ++ List.replicate n (r, .step)) ↔ Handlers actions := by
  simp [Handlers, List.mem_replicate]

theorem Handlers.goodStarts {actions : List (ℕ × LockAction Slot)} (h : Handlers actions) :
    Machine.EachStep lockStep GoodStarts lockStart actions := by
  rintro pre ⟨r, a⟩ post w rfl -
  cases a with
  | start script =>
      obtain ⟨msg, hscript⟩ := h r script (by simp)
      exact hscript.good
  | step => trivial

end NetworkFileSystem
