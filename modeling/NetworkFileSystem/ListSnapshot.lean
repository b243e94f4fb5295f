import NetworkFileSystem.LockOwnership
import NetworkFileSystem.PathOrder

/-!
# LIST_PATHS takes a snapshot

While `trie_collect_paths` holds the lock of the root no update gets past it, and of the updates
that did so before at most one is under way, since each holds `ss_list_mutex`. So the trie changes
at most once during the traversal: behind the traversal, which then returns the contents before
the change, or ahead of it.
-/

namespace NetworkFileSystem

open Locks Interleaving

variable {α : Type}

namespace LockThread

/-- In `trie_collect_paths`. -/
def Collecting : LockThread α → Prop
  | .entering _ _ _ _ | .scanning _ _ _ => True
  | _ => False

/-- Updates the trie, and has left the root behind. -/
def PastRoot : LockThread α → Prop
  | .locking op n _ _ | .visiting op n _ _ => op.mode = .write ∧ n ≠ TrieHeap.root
  | .reading op _ _ _ _ _ => op.mode = .write
  | _ => False

end LockThread

/-- A traversal at the node of a path, which the buffer holds. It has visited the paths before the
bound. -/
inductive Traverses (h : TrieHeap α) : LockThread α → List ℕ → PathCollection → Prop
  | entering {q n frames acc script} (framed : Framed h q (⟨n, 0⟩ :: frames))
    (buffer : acc.pathTo frames.length = q) :
    Traverses h (.entering n frames acc script) (q.map UInt8.toNat) acc
  | scanning {q n i frames acc script} (framed : Framed h q (⟨n, i⟩ :: frames))
    (buffer : acc.pathTo frames.length = q) :
    Traverses h (.scanning (⟨n, i⟩ :: frames) acc script) (q.map UInt8.toNat ++ [i]) acc

variable {h h' : TrieHeap α} {sh sh' : LockState α} {t t' : LockThread α} {q r : ℕ}
  {es : List (TrieEvent α)} {bound : List ℕ} {acc : PathCollection} {map : Path → Option α}

/-! ### Updates -/

/-- An update holds `ss_list_mutex`. -/
theorem Owns.list_of_pastRoot (ht : Owns sh r t) (hpast : t.PastRoot) :
    sh.ssListMutex = some r := by
  have hallows : ∀ (op : TrieOp α) script, op.mode = .write →
      Instr.Allows script (.trie op) → listHeld script = true := by
    intro op script hmode hallows
    cases op with
    | search path => cases hmode
    | insert path ssInfo => exact hallows.1
    | delete path => exact hallows.1
  have hd := ht.disciplined
  rw [ht.list]
  cases t with
  | locking op n rest script => exact hallows op script hpast.1 hd.1
  | visiting op n rest script => exact hallows op script hpast.1 hd.1
  | reading op n c rest seen script => exact hallows op script hpast hd.1
  | _ => cases hpast

/-- While another thread reads the root, an update that holds a node is past the root. -/
theorem Owns.ne_root (hwf : (sh.nodeLocks TrieHeap.root).WellFormed) (hqr : q ≠ r)
    (hroot : (sh.nodeLocks TrieHeap.root).HeldBy q .read) {op : TrieOp α} {n : ℕ} {rest : Path}
    {script : List (Instr α)} (ht : Owns sh r (.visiting op n rest script))
    (hmode : op.mode = .write) : n ≠ TrieHeap.root := by
  rintro rfl
  have hheld := (ht.nodes TrieHeap.root .write).mpr ⟨rfl, hmode.symm⟩
  exact hqr (hwf.writer_alone hheld hroot).1

/-- While another thread reads the root, no update gets past it. -/
theorem ThreadStep.pastRoot (hwf : (sh.nodeLocks TrieHeap.root).WellFormed) (hqr : q ≠ r)
    (hroot : (sh.nodeLocks TrieHeap.root).HeldBy q .read) (ht : Owns sh r t)
    (hstep : ThreadStep r sh t sh' t' es) (hpast : t'.PastRoot) : t.PastRoot := by
  cases hstep with
  | invoke => exact absurd rfl hpast.2
  | lock => exact hpast
  | goOn => exact ⟨hpast, ht.ne_root hwf hqr hroot hpast⟩
  | reread => exact hpast.1
  | _ => cases hpast

theorem TrieOp.apply_eq_update {op : TrieOp α} (hmode : op.mode = .write)
    (map : Path → Option α) : ∃ v, op.apply map = Function.update map op.path v := by
  cases op with
  | insert path ssInfo => exact ⟨some ssInfo, rfl⟩
  | search path => cases hmode
  | delete path => exact ⟨none, rfl⟩

theorem TrieOp.apply_eq_self {op : TrieOp α} (hmode : op.mode ≠ .write) (map : Path → Option α) :
    op.apply map = map := by
  cases op with
  | insert path ssInfo => exact absurd rfl hmode
  | search path => rfl
  | delete path => exact absurd rfl hmode

/-- The contents of the trie change only by the last visit of an update, and at its path. -/
theorem ThreadStep.contents (hadvances : Advances sh.heap t sh'.heap t' es)
    (hstep : ThreadStep r sh t sh' t' es) :
    sh'.heap.contents = sh.heap.contents ∨
      ∃ op n rest script v, t = .visiting op n rest script ∧ op.mode = .write ∧
        sh'.heap.contents = Function.update sh.heap.contents op.path v ∧ ¬t'.PastRoot := by
  cases hstep with
  | @act op n rest script heap result hvisit =>
      obtain ⟨hcontents, -⟩ := hadvances.moves.of_acted
      by_cases hmode : op.mode = .write
      · obtain ⟨v, hv⟩ := TrieOp.apply_eq_update hmode sh.heap.contents
        exact Or.inr ⟨op, n, rest, script, v, rfl, hmode, hcontents.trans hv, id⟩
      · exact Or.inl (hcontents.trans (TrieOp.apply_eq_self hmode _))
  | @goOn op n rest script heap c seen hvisit =>
      exact Or.inl hadvances.moves.eq_of_nil
  | _ => exact Or.inl rfl

/-! ### The traversal -/

theorem Framed.root_mem {p : Path} {frames : List Frame} (hf : Framed h p frames) :
    TrieHeap.root ∈ frames.map Frame.node := by
  induction hf with
  | root i => exact List.mem_cons_self
  | child i above walk next ih => exact List.mem_cons_of_mem _ ih

theorem Traverses.mono (ht : Traverses h t bound acc) (hext : h.Extends h') :
    Traverses h' t bound acc := by
  cases ht with
  | entering hf hbuffer => exact .entering (hf.mono hext) hbuffer
  | scanning hf hbuffer => exact .scanning (hf.mono hext) hbuffer

theorem Traverses.collecting (ht : Traverses h t bound acc) : t.Collecting := by
  cases ht <;> trivial

theorem Traverses.not_pastRoot (ht : Traverses h t bound acc) : ¬t.PastRoot := by
  cases ht <;> exact id

/-- A traversal that has visited something holds the root. -/
theorem Traverses.root_held (ht : Traverses h t bound acc) {p : Path} (hp : Before p bound) :
    t.HoldsNode TrieHeap.root .read := by
  cases ht with
  | entering hf hbuffer =>
      cases hf with
      | root => exact absurd hp (before_nil p)
      | child i above walk next => exact ⟨above.root_mem, rfl⟩
  | scanning hf hbuffer => exact ⟨hf.root_mem, rfl⟩

namespace PathCollection

theorem pathTo_succ (acc : PathCollection) (level : ℕ) :
    acc.pathTo (level + 1) = acc.pathTo level ++ [acc.currentPath level] := by
  rw [pathTo, List.range_succ, List.map_append]
  rfl

end PathCollection

/-- A step of the traversal, in which the trie does not change: it goes on, with the root locked,
or it is done. -/
theorem ThreadStep.traverses (hzero : ∀ p, sh.heap.contents p ≠ none → 0 ∉ p)
    (ht : Traverses sh.heap t bound acc)
    (hsnapshot : Snapshot map bound acc.paths sh.heap.contents)
    (hstep : ThreadStep r sh t sh' t' es) :
    sh'.heap = sh.heap ∧
      ((∃ bound' acc', Traverses sh.heap t' bound' acc' ∧
          Snapshot map bound' acc'.paths sh.heap.contents ∧
          t'.HoldsNode TrieHeap.root .read ∧ es = []) ∨
        (∀ p, Before p bound) ∧ es = [.collected acc.paths] ∧ ¬t'.Collecting) := by
  have hroom : acc.paths.length ≤ maxAccessiblePaths := by
    obtain ⟨all, -, -, hpaths⟩ := hsnapshot.stored
    rw [hpaths]
    exact List.length_take_le _ _
  cases ht with
  | @entering q n frames acc script hf hbuffer =>
      cases hstep with
      | enter hgrant =>
          refine ⟨rfl, Or.inl ?_⟩
          have hinfo := TrieHeap.contents_of_walk hf.walk
          have hadds := TrieNode.storePath_adds (sh.heap.cells n).ssInfo acc frames.length hroom
            fun hsome => by
              rw [hbuffer]
              exact hzero q fun hnone => by simp [← hinfo, hnone] at hsome
          have hbuffer' := (PathCollection.pathTo_congr hadds.2).trans hbuffer
          refine ⟨_, _, .scanning hf hbuffer', ?_, ⟨hf.root_mem, rfl⟩, rfl⟩
          have hpath : (if (sh.heap.cells n).ssInfo.isSome then [[]] else []).map (q ++ ·) =
              if (sh.heap.cells n).ssInfo.isSome then [q] else [] := by split_ifs <;> simp
          have hvisit := hsnapshot.visit
          rw [hinfo] at hvisit
          rwa [hadds.1, hbuffer, hpath]
  | @scanning q n i frames acc script hf hbuffer =>
      cases hstep with
      | @descend _ _ _ _ _ child hi hchild =>
          refine ⟨rfl, Or.inl ⟨(q ++ [UInt8.ofNat i]).map UInt8.toNat,
            ⟨Function.update acc.currentPath frames.length (UInt8.ofNat i), acc.paths⟩,
            ?_, ?_, ?_, rfl⟩⟩
          · refine .entering (.child 0 (hf.advance _) ?_ ?_) ?_
            · rw [TrieHeap.walk_concat_of_walk hf.walk, hchild]
            · simp [Nat.mod_eq_of_lt hi]
            · rw [List.length_cons, PathCollection.pathTo_update, hbuffer]
          · simpa [Nat.mod_eq_of_lt hi] using hsnapshot
          · exact ⟨(hf.advance (i + 1)).root_mem, rfl⟩
      | skip hi hchild =>
          refine ⟨rfl, Or.inl ⟨_, acc, .scanning (hf.advance _) hbuffer, ?_, ?_, rfl⟩⟩
          · have hc : (UInt8.ofNat i).toNat = i := by simp [Nat.mod_eq_of_lt hi]
            refine hsnapshot.pass (fun p => ∃ rest, p = q ++ UInt8.ofNat i :: rest) ?_ ?_
            · intro p
              have := before_concat_succ q (UInt8.ofNat i) p
              rwa [hc] at this
            · rintro p ⟨rest, rfl⟩
              exact TrieHeap.contents_eq_none hf.walk hchild
          · exact ⟨(hf.advance (i + 1)).root_mem, rfl⟩
      | @ascend _ _ frame frames _ _ hi =>
          obtain ⟨node, j⟩ := frame
          cases hf with
          | @child q _ _ c _ _ above walk next =>
              obtain rfl : j = c.toNat + 1 := next
              rw [List.length_cons, PathCollection.pathTo_succ] at hbuffer
              obtain ⟨hbuffer, -⟩ := List.append_inj' hbuffer rfl
              refine ⟨rfl, Or.inl ⟨_, acc, .scanning above hbuffer, ?_, ?_, rfl⟩⟩
              · refine hsnapshot.pass (fun _ => False) (fun p => ?_) fun p => False.elim
                rw [before_concat_succ, before_concat_last _ hi]
                simp
              · exact ⟨above.root_mem, rfl⟩
      | finish hi =>
          refine ⟨rfl, Or.inr ⟨fun p => ?_, rfl, id⟩⟩
          cases hf with
          | root => exact (before_concat_last [] hi p).mpr (Or.inr ⟨p, rfl⟩)

/-! ### Paths without zeros, and the trie as a tree -/

def ZeroFree (script : List (Instr α)) : Prop := ∀ op, .trie op ∈ script → 0 ∉ op.path

theorem ThreadStep.mem_script {op : TrieOp α} (hstep : ThreadStep r sh t sh' t' es)
    (hop : .trie op ∈ t'.script) : .trie op ∈ t.script := by
  cases hstep <;> simp_all [LockThread.script]

theorem HandlerScript.zeroFree {msg : Message} {script : List (Instr Slot)}
    (hscript : HandlerScript msg script) : ZeroFree script := by
  have hstr := fun (n : ℕ) (a : CharArray n) => a.zero_notMem_str
  cases hscript with
  | registerSs _ slot =>
      intro op hop
      simp only [List.cons_append, List.mem_cons, List.mem_append, List.mem_map, reduceCtorEq,
        List.not_mem_nil, or_false, false_or, Instr.trie.injEq] at hop
      obtain ⟨i, -, rfl⟩ := hop
      exact hstr _ (msg.accessiblePaths.get i)
  | _ => simp [ZeroFree, recordScript, TrieOp.path, hstr]

/-- Between the steps of handlers: only paths without zeros are mapped. -/
structure PathInvariant (w : LockWorld α) : Prop extends LockInvariant w where
  scripts : ∀ r, ZeroFree (w.locals r).script
  contents : ∀ p, w.shared.heap.contents p ≠ none → 0 ∉ p

def CleanStarts (w : LockWorld α) (a : ℕ × LockAction α) : Prop :=
  GoodStarts w a ∧ ∀ script, a.2 = .start script → ZeroFree script

theorem pathInvariant_start : PathInvariant (lockStart : LockWorld α) where
  toLockInvariant := lockInvariant_start
  scripts r op hop := by cases hop
  contents p hp := absurd (TrieHeap.contents_init p) hp

variable {w w' : LockWorld α} {a : LockAction α}
  {x : LockState α × LockThread α × List (TrieEvent α)}

/-- What the action of a thread makes of the contents of the trie. -/
theorem PathInvariant.contents_cases (hw : PathInvariant w)
    (hx : lockProcess r w.shared (w.locals r) a = some x) :
    x.1.heap.contents = w.shared.heap.contents ∨
      ∃ op n rest script v, w.locals r = .visiting op n rest script ∧ op.mode = .write ∧
        x.1.heap.contents = Function.update w.shared.heap.contents op.path v ∧
        ¬x.2.1.PastRoot := by
  have hadvances := hw.advances hx
  rcases lockProcess_cases hx with ⟨script, rfl, -, rfl⟩ | ⟨rfl, hstep⟩
  · exact Or.inl rfl
  · exact hstep.contents hadvances

theorem PathInvariant.after (hw : PathInvariant w) (ha : CleanStarts w (r, a))
    (hx : lockProcess r w.shared (w.locals r) a = some x) : PathInvariant (w.after r x) := by
  refine ⟨hw.toLockInvariant.after ha.1 hx, fun q => ?_, fun p hp => ?_⟩
  · by_cases hq : q = r
    · subst hq
      rw [World.locals_after_self]
      rcases lockProcess_cases hx with ⟨script, rfl, -, rfl⟩ | ⟨rfl, hstep⟩
      · exact ha.2 script rfl
      · exact fun op hop => hw.scripts q op (hstep.mem_script hop)
    · rw [World.locals_after_ne hq]
      exact hw.scripts q
  · rcases hw.contents_cases hx with heq | ⟨op, n, rest, script, v, hlocal, -, heq, -⟩
    · exact hw.contents p (heq ▸ hp)
    · by_cases hpath : p = op.path
      · have hop := hw.scripts r op
        rw [hlocal] at hop
        exact hpath ▸ hop List.mem_cons_self
      · refine hw.contents p ?_
        rwa [World.shared_after, heq, Function.update_of_ne hpath] at hp

theorem Handlers.cleanStarts {actions : List (ℕ × LockAction Slot)} (hhandlers : Handlers actions) :
    Machine.EachStep lockStep CleanStarts lockStart actions := by
  rintro pre ⟨r, a⟩ post w hactions hrun
  refine ⟨hhandlers.goodStarts pre _ post w hactions hrun, ?_⟩
  rintro script rfl
  obtain ⟨msg, hscript⟩ := hhandlers r script (by simp [hactions])
  exact hscript.zeroFree

/-- The nodes in memory hold the contents of some tree. -/
theorem exists_tree_of_run {actions : List (ℕ × LockAction α)}
    (hrun : Machine.run lockStep lockStart actions = some w) :
    ∃ t : TrieNode α, ∀ p, t.trieSearch p = w.shared.heap.contents p := by
  refine (Machine.run_invariant (I := fun v => TrieInvariant v ∧
    ∃ t : TrieNode α, ∀ p, t.trieSearch p = v.shared.heap.contents p)
    ⟨trieInvariant_start, createTrieNode, fun p => ?_⟩ ?_ hrun).2
  · exact (TrieNode.trieSearch_create p).trans (TrieHeap.contents_init p).symm
  · rintro v ⟨r, a⟩ v' ⟨hv, t, ht⟩ hstep
    obtain ⟨x, hx, rfl⟩ := step_eq_some.mp hstep
    refine ⟨hv.after hx, ?_⟩
    rcases (hv.advances hx).moves.eq_or_acts with heq | ⟨op, result, heq, -⟩
    · exact ⟨t, fun p => (ht p).trans (congrFun heq.symm p)⟩
    · refine ⟨op.applyNode t, fun p => ?_⟩
      rw [TrieOp.trieSearch_applyNode, funext ht]
      exact congrFun heq.symm p

/-! ### Runs -/

/-- The trie held the map at an instant at which the thread was in its traversal. -/
def SeenAt (actions : List (ℕ × LockAction α)) (r : ℕ) (map : Path → Option α) : Prop :=
  ∃ pre w, pre <+: actions ∧ Machine.run lockStep lockStart pre = some w ∧
    (w.locals r).Collecting ∧ w.shared.heap.contents = map

/-- A traversal that has stored paths of `map`. The contents are still those of `map`, or the one
update that could change them is over. -/
structure Traversing (actions : List (ℕ × LockAction α)) (w : LockWorld α) (r : ℕ)
    (map : Path → Option α) (bound : List ℕ) (acc : PathCollection) : Prop where
  seen : SeenAt actions r map
  zeroFree : ∀ p, map p ≠ none → 0 ∉ p
  traverses : Traverses w.shared.heap (w.locals r) bound acc
  snapshot : Snapshot map bound acc.paths w.shared.heap.contents
  undisturbed : map = w.shared.heap.contents ∨
    (w.locals r).HoldsNode TrieHeap.root .read ∧ ∀ q, ¬(w.locals q).PastRoot

variable {actions : List (ℕ × LockAction α)}

theorem SeenAt.append (hseen : SeenAt actions r map) (as : List (ℕ × LockAction α)) :
    SeenAt (actions ++ as) r map := by
  obtain ⟨pre, w, hpre, hw⟩ := hseen
  exact ⟨pre, w, hpre.trans (List.prefix_append _ _), hw⟩

theorem seenAt_of_run (hrun : Machine.run lockStep lockStart actions = some w)
    (hr : (w.locals r).Collecting) : SeenAt actions r w.shared.heap.contents :=
  ⟨actions, w, List.prefix_refl _, hrun, hr, rfl⟩

/-- Steps of the other threads: a change behind the traversal comes after the map, and one ahead of
it is taken into the map. -/
theorem Traversing.other (hw : PathInvariant w)
    (hx : lockProcess r w.shared (w.locals r) a = some x) (hw' : PathInvariant (w.after r x))
    (hrun : Machine.run lockStep lockStart (actions ++ [(r, a)]) = some (w.after r x))
    (hqr : q ≠ r) (htr : Traversing actions w q map bound acc) :
    ∃ map', Traversing (actions ++ [(r, a)]) (w.after r x) q map' bound acc := by
  have hlocal : (w.after r x).locals q = w.locals q := World.locals_after_ne hqr
  have htraverses : Traverses (w.after r x).shared.heap ((w.after r x).locals q) bound acc := by
    rw [hlocal]
    exact htr.traverses.mono (hw.advances hx).grows
  have hseen := htr.seen.append [(r, a)]
  -- with the root locked for the traversal
  have hread : (w.locals q).HoldsNode TrieHeap.root .read →
      (w.shared.nodeLocks TrieHeap.root).HeldBy q .read := ((hw.owns q).nodes _ _).mpr
  rcases hw.contents_cases hx with heq | ⟨op, n, rest, script, v, hr, hmode, heq, hnot⟩
  · refine ⟨map, hseen, htr.zeroFree, htraverses, ?_, ?_⟩
    · rw [World.shared_after, heq]
      exact htr.snapshot
    · rw [World.shared_after, heq, hlocal]
      refine htr.undisturbed.imp_right fun ⟨hroot, hpast⟩ => ⟨hroot, fun p hp => ?_⟩
      by_cases hpr : p = r
      · subst hpr
        rw [World.locals_after_self] at hp
        rcases lockProcess_cases hx with ⟨script, rfl, -, rfl⟩ | ⟨rfl, hstep⟩
        · exact hp
        · exact hpast p (hstep.pastRoot (hw.locks _) hqr (hread hroot) (hw.owns p) hp)
      · rw [World.locals_after_ne hpr] at hp
        exact hpast p hp
  · have hpast : (w.locals q).HoldsNode TrieHeap.root .read → (w.locals r).PastRoot := by
      intro hroot
      have howns := hw.owns r
      rw [hr] at howns ⊢
      exact ⟨hmode, howns.ne_root (hw.locks _) hqr (hread hroot) hmode⟩
    by_cases hp : Before op.path bound
    · have hroot := htr.traverses.root_held hp
      have hmap := htr.undisturbed.resolve_right fun h => h.2 r (hpast hroot)
      refine ⟨map, hseen, htr.zeroFree, htraverses, ?_, Or.inr ⟨hlocal ▸ hroot, fun p hp => ?_⟩⟩
      · rw [World.shared_after, heq]
        exact htr.snapshot.behind hp v
      · by_cases hpr : p = r
        · subst hpr
          rw [World.locals_after_self] at hp
          exact hnot hp
        · rw [World.locals_after_ne hpr] at hp
          have hlist := (hw.owns p).list_of_pastRoot hp
          rw [(hw.owns r).list_of_pastRoot (hpast hroot)] at hlist
          exact hpr (Option.some.inj hlist).symm
    · have hmap := htr.undisturbed.resolve_right fun h => h.2 r (hpast h.1)
      subst hmap
      refine ⟨(w.after r x).shared.heap.contents, ?_, hw'.contents, htraverses, ?_, Or.inl rfl⟩
      · exact seenAt_of_run hrun (hlocal ▸ htr.traverses.collecting)
      · rw [World.shared_after, heq]
        exact htr.snapshot.before_change hp v

structure SnapshotInvariant (actions : List (ℕ × LockAction α)) (w : LockWorld α) : Prop where
  paths : PathInvariant w
  traversing : ∀ r, (w.locals r).Collecting → ∃ map bound acc, Traversing actions w r map bound acc
  collected : ∀ r paths, (r, .collected paths) ∈ w.history → ∃ map, SeenAt actions r map ∧
    ∀ t : TrieNode α, (∀ p, t.trieSearch p = map p) → ∀ buffer, t.trieCollectPaths buffer = paths

/-- The step of a thread after which it is in a traversal. -/
theorem SnapshotInvariant.traversing_self (hinv : SnapshotInvariant actions w)
    (hx : lockProcess r w.shared (w.locals r) a = some x) (hw' : PathInvariant (w.after r x))
    (hrun : Machine.run lockStep lockStart (actions ++ [(r, a)]) = some (w.after r x))
    (hr : x.2.1.Collecting) :
    ∃ map bound acc, Traversing (actions ++ [(r, a)]) (w.after r x) r map bound acc := by
  have hlocal : (w.after r x).locals r = x.2.1 := World.locals_after_self
  rcases lockProcess_cases hx with ⟨script, rfl, -, rfl⟩ | ⟨rfl, hstep⟩
  · exact hr.elim
  · by_cases hold : (w.locals r).Collecting
    · obtain ⟨map, bound, acc, htr⟩ := hinv.traversing r hold
      obtain ⟨hheap, ⟨bound', acc', htraverses, hsnapshot, hroot, -⟩ | ⟨-, -, hdone⟩⟩ :=
        hstep.traverses hinv.paths.contents htr.traverses htr.snapshot
      · refine ⟨map, bound', acc', htr.seen.append _, htr.zeroFree, ?_, ?_, ?_⟩
        · rw [hlocal, World.shared_after, hheap]
          exact htraverses
        · rw [World.shared_after, hheap]
          exact hsnapshot
        · rw [hlocal, World.shared_after, hheap]
          refine htr.undisturbed.imp_right fun ⟨_, hpast⟩ => ⟨hroot, fun p hp => ?_⟩
          by_cases hpr : p = r
          · subst hpr
            rw [hlocal] at hp
            exact htraverses.not_pastRoot hp
          · rw [World.locals_after_ne hpr] at hp
            exact hpast p hp
      · exact absurd hr hdone
    · -- the traversal begins
      obtain ⟨buffer, script, hnew, hheap⟩ : ∃ buffer script,
          x.2.1 = .entering TrieHeap.root [] ⟨buffer, []⟩ script ∧ x.1 = w.shared := by
        obtain ⟨sh', t', es⟩ := x
        generalize w.locals r = t at hstep hold
        cases hstep with
        | @collect buffer script => exact ⟨buffer, script, rfl, rfl⟩
        | enter | descend | skip | ascend => exact absurd trivial hold
        | _ => exact hr.elim
      refine ⟨(w.after r x).shared.heap.contents, [], ⟨buffer, []⟩,
        seenAt_of_run hrun (hlocal ▸ hr), hw'.contents, ?_, .start _, Or.inl rfl⟩
      rw [hlocal, hnew]
      exact .entering (.root 0) rfl

theorem SnapshotInvariant.after (hinv : SnapshotInvariant actions w)
    (ha : CleanStarts w (r, a)) (hx : lockProcess r w.shared (w.locals r) a = some x)
    (hrun : Machine.run lockStep lockStart (actions ++ [(r, a)]) = some (w.after r x)) :
    SnapshotInvariant (actions ++ [(r, a)]) (w.after r x) := by
  have hw' := hinv.paths.after ha hx
  refine ⟨hw', fun q hq => ?_, fun q paths hmem => ?_⟩
  · by_cases hqr : q = r
    · subst hqr
      rw [World.locals_after_self] at hq
      exact hinv.traversing_self hx hw' hrun hq
    · rw [World.locals_after_ne hqr] at hq
      obtain ⟨map, bound, acc, htr⟩ := hinv.traversing q hq
      obtain ⟨map', htr'⟩ := htr.other hinv.paths hx hw' hrun hqr
      exact ⟨map', bound, acc, htr'⟩
  · rcases World.mem_history_after.mp hmem with hold | ⟨rfl, hnew⟩
    · obtain ⟨map, hseen, hpaths⟩ := hinv.collected q paths hold
      exact ⟨map, hseen.append _, hpaths⟩
    · rcases lockProcess_cases hx with ⟨script, rfl, -, rfl⟩ | ⟨rfl, hstep⟩
      · cases hnew
      · have hcollecting : (w.locals q).Collecting := by
          obtain ⟨sh', t', es⟩ := x
          generalize w.locals q = t at hstep
          cases hstep <;> simp_all [LockThread.Collecting]
        obtain ⟨map, bound, acc, htr⟩ := hinv.traversing q hcollecting
        obtain ⟨-, ⟨_, _, -, -, -, hnone⟩ | ⟨hall, hes, -⟩⟩ :=
          hstep.traverses hinv.paths.contents htr.traverses htr.snapshot
        · rw [hnone] at hnew
          cases hnew
        · rw [hes, List.mem_singleton] at hnew
          obtain rfl := TrieEvent.collected.inj hnew
          exact ⟨map, htr.seen.append _, fun t ht buffer =>
            htr.snapshot.finish hall htr.zeroFree ht buffer⟩

/-- The paths that LIST_PATHS collects are those that `trie_collect_paths` returns on the contents
that the trie had at one instant during the traversal. -/
theorem list_paths_snapshot {actions : List (ℕ × LockAction Slot)} {w : LockWorld Slot} {r : ℕ}
    {paths : List Path} (hhandlers : Handlers actions)
    (hrun : Machine.run lockStep lockStart actions = some w)
    (hpaths : (r, .collected paths) ∈ w.history) :
    ∃ pre w', pre <+: actions ∧ Machine.run lockStep lockStart pre = some w' ∧
      (w'.locals r).Collecting ∧ ∃ t : TrieNode Slot,
        (∀ p, t.trieSearch p = w'.shared.heap.contents p) ∧
          ∀ buffer, t.trieCollectPaths buffer = paths := by
  have hinv : Machine.run lockStep lockStart actions = some w ∧ SnapshotInvariant actions w := by
    refine hhandlers.cleanStarts.history_invariant
      (I := fun as v => Machine.run lockStep lockStart as = some v ∧ SnapshotInvariant as v)
      ⟨rfl, pathInvariant_start, fun r hr => hr.elim, fun r paths hmem => by cases hmem⟩ ?_ hrun
    rintro pre v ⟨q, a⟩ v' ⟨hv, hinv⟩ ha hstep
    have hrun' := Machine.run_concat_eq_some.mpr ⟨v, hv, hstep⟩
    obtain ⟨x, hx, rfl⟩ := step_eq_some.mp hstep
    exact ⟨hrun', hinv.after ha hx hrun'⟩
  obtain ⟨map, ⟨pre, w', hpre, hrun', hr, rfl⟩, hresult⟩ := hinv.2.collected r paths hpaths
  obtain ⟨t, ht⟩ := exists_tree_of_run hrun'
  exact ⟨pre, w', hpre, hrun', hr, t, ht, hresult t ht⟩

/-- A CREATE_FILE that is past the root when the LIST_PATHS starts. -/
def createDuringList : List (ℕ × LockAction Slot) :=
  [(0, .start [.collect fun _ => 0]),
    (1, .start ([.trie (.search createA.path.str), .lockList, .unlockList, .exchange] ++
      recordScript createA.path.str 0))] ++
    List.replicate 12 (1, .step) ++ List.replicate 2 (0, .step) ++ List.replicate 7 (1, .step) ++
    List.replicate 773 (0, .step)

theorem list_paths_snapshot_createDuringList :
    ∃ w, Machine.run lockStep lockStart createDuringList = some w ∧
      (0, .collected [[47, 97]]) ∈ w.history ∧
      ∃ pre w', pre <+: createDuringList ∧ Machine.run lockStep lockStart pre = some w' ∧
        (w'.locals 0).Collecting ∧ ∃ t : TrieNode Slot,
          (∀ p, t.trieSearch p = w'.shared.heap.contents p) ∧
            ∀ buffer, t.trieCollectPaths buffer = [[47, 97]] := by
  have hany : (Machine.run lockStep lockStart createDuringList).any fun w =>
      w.history.any fun e =>
        match e with
        | (0, .collected paths) => decide (paths = [[47, 97]])
        | _ => false := by decide +kernel
  obtain ⟨w, hrun, hw⟩ := (Option.any_eq_true _ _).mp hany
  obtain ⟨e, hmem, he⟩ := List.any_eq_true.mp hw
  have hpaths : e = (0, .collected [[47, 97]]) := by
    split at he
    · rw [of_decide_eq_true he]
    · cases he
  subst hpaths
  have hhandlers : Handlers createDuringList := by
    simp only [createDuringList, handlers_append_steps, handlers_cons_start, handlers_nil,
      and_true]
    exact ⟨⟨{ Message.zero with operation := .listPaths }, .listPaths rfl _⟩,
      createA, .create rfl 0⟩
  exact ⟨w, hrun, hmem, list_paths_snapshot hhandlers hrun hmem⟩

end NetworkFileSystem
