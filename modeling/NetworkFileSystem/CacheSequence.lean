import NetworkFileSystem.LruCacheSoundness
import NetworkFileSystem.Library.RecencyOrder

/-!
# The linked nodes as a sequence

While no operation follows a slot to a freed node, the nodes are a doubly linked list from `head`
to `tail`. Each operation acts on the sequence of their entries as its scan says, and the sequence
is ordered by when the nodes were last touched.
-/

namespace NetworkFileSystem

namespace LruCache

open DoublyLinked (Seg)
open Recency (RecentFirst)

/-- Following `next` from the pointer visits these nodes, and then `NULL`. -/
inductive Chain (c : LruCache) : Option Ptr → List Ptr → Prop
  | nil : Chain c none []
  | cons {p : Ptr} {n : LruCacheNode} {l : List Ptr} :
    c.heap p = some n → Chain c n.next l → Chain c (some p) (p :: l)

/-- The live nodes are the entries in order, linked in both directions. -/
structure Sequence (c : LruCache) (es : List CacheEntry) : Prop where
  chain : c.Chain c.head (es.map (·.ptr))
  nodup : (es.map (·.ptr)).Nodup
  live : ∀ p, (c.heap p).isSome ↔ p ∈ es.map (·.ptr)
  contents : ∀ e ∈ es, c.contents e.ptr = some (e.path, e.ssInfo)
  last : c.tail = (es.map (·.ptr)).getLast?
  inverse : ∀ p q n m, c.heap p = some n → c.heap q = some m →
    (n.next = some q ↔ m.prev = some p)
  head : ∀ p n, c.heap p = some n → (n.prev = none ↔ c.head = some p)
  tail : ∀ p n, c.heap p = some n → (n.next = none ↔ c.tail = some p)
  count : c.count = es.length
  bounded : es.length ≤ lruCacheSize

/-- What the operation makes of the sequence, by the result of its scan: a hit or an update moves
the found entry to the front, a removal deletes it, a new put drops the last entry of a full
sequence and prepends one if it gets the memory, and a miss changes nothing. -/
def Acts (c : LruCache) (op : LruOp) (c' : LruCache) (es es' : List CacheEntry) : Prop :=
  match c.scan op.path with
  | none => False
  | some (_, some p) => ∃ l₁ e l₂, es = l₁ ++ e :: l₂ ∧ e.ptr = p ∧ e.path = op.path ∧
    match op with
    | .get _ => es' = e :: (l₁ ++ l₂)
    | .put _ ssInfo _ => es' = { e with ssInfo := ssInfo } :: (l₁ ++ l₂)
    | .remove _ => es' = l₁ ++ l₂
  | some (_, none) =>
    match op with
    | .get _ | .remove _ => c' = c ∧ es' = es
    | .put path ssInfo malloc =>
      es' = (if malloc then [⟨c.fresh, path, ssInfo⟩] else []) ++
        if es.length = lruCacheSize then es.dropLast else es

/-- The node that the operation moves or links to the front. -/
def touched (c : LruCache) (op : LruOp) (_ : LruCache) : List Ptr :=
  match op, c.scan op.path with
  | .get _, some (_, some p) | .put _ _ _, some (_, some p) => [p]
  | .put _ _ true, some (_, none) => [c.fresh]
  | _, _ => []

/-- The nodes that the operations touched, in order. -/
def touches (ops : List LruOp) : List Ptr := Machine.outputs apply touched lruInit ops

variable {c c' : LruCache} {r r' : RecencyList} {path : Path} {op : LruOp} {ops : List LruOp}
  {p q : Ptr} {n m : LruCacheNode} {es : List CacheEntry}

/-! ### The shape of the list -/

theorem chain_of_seg {b : Option Ptr} {l : List Ptr} (h : Seg c.links b l none) :
    c.Chain l.head? l := by
  induction l generalizing b with
  | nil => exact .nil
  | cons p l ih =>
      obtain ⟨n, hn, -, hnext⟩ := exists_node h.1
      refine .cons hn ?_
      rw [hnext, Option.or_none]
      exact ih h.2

/-- The links of a node are those of its place in the list. -/
theorem Represents.links_at (h : Represents c r) (hn : c.heap p = some n) {l₁ l₂ : List Ptr}
    (hl : r.ptrs = l₁ ++ p :: l₂) : n.prev = l₁.getLast? ∧ n.next = l₂.head? := by
  have hlink := (hl ▸ h.seg).lookup
  rw [Option.or_none, Option.or_none, links, hn, Option.map_some, Option.some.injEq] at hlink
  exact ⟨congrArg DoublyLinked.Links.prev hlink, congrArg DoublyLinked.Links.next hlink⟩

theorem Represents.neighbours (h : Represents c r) (hn : c.heap p = some n) :
    ∃ l₁ l₂, r.ptrs = l₁ ++ p :: l₂ ∧ n.prev = l₁.getLast? ∧ n.next = l₂.head? := by
  have hp : p ∈ r.ptrs := h.isSome_iff.mp (by rw [hn]; rfl)
  obtain ⟨l₁, l₂, hl⟩ := List.append_of_mem hp
  exact ⟨l₁, l₂, hl, h.links_at hn hl⟩

theorem Represents.inverse (h : Represents c r) (hn : c.heap p = some n)
    (hm : c.heap q = some m) : n.next = some q ↔ m.prev = some p := by
  constructor
  · intro hnext
    obtain ⟨l₁, l₂, hl, -, hnext'⟩ := h.neighbours hn
    obtain ⟨l₂, rfl⟩ := List.head?_eq_some_iff.mp (hnext'.symm.trans hnext)
    have hq : r.ptrs = (l₁ ++ [p]) ++ q :: l₂ := by rw [hl, List.append_assoc]; rfl
    rw [(h.links_at hm hq).1, List.getLast?_concat]
  · intro hprev
    obtain ⟨l₁, l₂, hl, hprev', -⟩ := h.neighbours hm
    obtain ⟨l₁, rfl⟩ := List.getLast?_eq_some_iff.mp (hprev'.symm.trans hprev)
    have hp : r.ptrs = l₁ ++ p :: (q :: l₂) := by rw [hl, List.append_assoc]; rfl
    rw [(h.links_at hn hp).2, List.head?_cons]

theorem Represents.prev_eq_none_iff (h : Represents c r) (hn : c.heap p = some n) :
    n.prev = none ↔ c.head = some p := by
  rw [h.head]
  constructor
  · intro hprev
    obtain ⟨l₁, l₂, hl, hprev', -⟩ := h.neighbours hn
    obtain rfl := List.getLast?_eq_none_iff.mp (hprev'.symm.trans hprev)
    rw [hl]
    rfl
  · intro hhead
    obtain ⟨l₂, hl⟩ := List.head?_eq_some_iff.mp hhead
    have hfirst : r.ptrs = [] ++ p :: l₂ := hl
    exact (h.links_at hn hfirst).1

theorem Represents.next_eq_none_iff (h : Represents c r) (hn : c.heap p = some n) :
    n.next = none ↔ c.tail = some p := by
  rw [h.tail]
  constructor
  · intro hnext
    obtain ⟨l₁, l₂, hl, -, hnext'⟩ := h.neighbours hn
    obtain rfl := List.head?_eq_none_iff.mp (hnext'.symm.trans hnext)
    rw [hl, List.getLast?_concat]
  · intro htail
    obtain ⟨l₁, hl⟩ := List.getLast?_eq_some_iff.mp htail
    have hlast : r.ptrs = l₁ ++ p :: [] := hl
    exact (h.links_at hn hlast).2

theorem Represents.sequence (h : Represents c r) : Sequence c r.entries where
  chain := by
    rw [h.head]
    exact chain_of_seg h.seg
  nodup := h.wellFormed.nodup
  live _ := h.isSome_iff
  contents := h.contents
  last := h.tail
  inverse _ _ _ _ hn hm := h.inverse hn hm
  head _ _ hn := h.prev_eq_none_iff hn
  tail _ _ hn := h.next_eq_none_iff hn
  count := h.count
  bounded := h.wellFormed.bounded

/-! ### One operation -/

theorem entries_makeRoom (r : RecencyList) : r.makeRoom.entries =
    if r.entries.length = lruCacheSize then r.entries.dropLast else r.entries := by
  rw [RecencyList.makeRoom]
  split_ifs
  · rw [RecencyList.evict]
    cases hlast : r.entries.getLast? with
    | none => simp [List.getLast?_eq_none_iff.mp hlast]
    | some e => rfl
  · rfl

theorem Represents.fresh_notMem (h : Represents c r) : c.fresh ∉ r.ptrs := fun hp =>
  (h.wellFormed.below _ hp).ne h.fresh

/-- What an operation does that is defined. -/
structure Steps (c : LruCache) (r : RecencyList) (op : LruOp) (c' : LruCache)
    (r' : RecencyList) : Prop where
  represents : Represents c' r'
  acts : Acts c op c' r.entries r'.entries
  recent : ∀ ts, RecentFirst ts r.ptrs → RecentFirst (ts ++ touched c op c') r'.ptrs

theorem Represents.exists_apply (h : Represents c r) (hr' : r.apply op = some r') :
    ∃ c', c.apply op = some c' ∧ Represents c' r' :=
  Machine.exists_of_rel_some (hr' ▸ apply_refines h op)

/-- The scan finds the node of an entry, and the other entries are left by its removal. -/
theorem Represents.found {e : CacheEntry} (h : Represents c r)
    (ho : r.lookup path = some (some e)) :
    ∃ l₁ l₂, (∃ prev, c.scan path = some (prev, some e.ptr)) ∧
      r.entries = l₁ ++ e :: l₂ ∧ r.without e.ptr = l₁ ++ l₂ ∧ e.path = path := by
  obtain ⟨pre, l₁, l₂, hes, hmap, hl₁, he⟩ := RecencyList.lookup_found ho
  have hscan := scan_found h hes hmap hl₁ he
  rw [← List.append_assoc] at hes
  exact ⟨pre ++ l₁, l₂, ⟨_, hscan⟩, hes, RecencyList.without_eq h.wellFormed hes, he⟩

theorem recentFirst_moveToFront {ts : List Ptr} {e : CacheEntry} (hts : RecentFirst ts r.ptrs) :
    RecentFirst (ts ++ [e.ptr]) (r.moveToFront e).ptrs := by
  have hnotin : e.ptr ∉ (r.without e.ptr).map (·.ptr) := by simp [RecencyList.without]
  exact (hts.sublist (List.filter_sublist.map _)).touch hnotin

theorem Represents.get_step (h : Represents c r) (hslot : c.SlotLive path) :
    ∃ c' r', c.apply (.get path) = some c' ∧ Steps c r (.get path) c' r' := by
  obtain ⟨o, ho⟩ := h.lookup_defined hslot
  cases o with
  | none =>
      obtain ⟨q, hq⟩ := scan_missed h ho
      refine ⟨c, r, by simp [apply, lruGet, hq], h, ?_, fun ts hts => ?_⟩
      · simp [Acts, LruOp.path, hq]
      · simpa [touched, LruOp.path, hq] using hts
  | some e =>
      obtain ⟨l₁, l₂, ⟨prev, hscan⟩, hes, hwithout, he⟩ := h.found ho
      have hr' : r.apply (.get path) = some (r.moveToFront e) := by
        rw [RecencyList.apply, RecencyList.lruGet, ho]
        rfl
      obtain ⟨c', hc', h'⟩ := h.exists_apply hr'
      refine ⟨c', _, hc', h', ?_, fun ts hts => ?_⟩
      · simp only [Acts, LruOp.path, hscan]
        exact ⟨l₁, e, l₂, hes, rfl, he, congrArg (e :: ·) hwithout⟩
      · simp only [touched, LruOp.path, hscan]
        exact recentFirst_moveToFront hts

theorem Represents.put_step (h : Represents c r) (hslot : c.SlotLive path)
    (ssInfo : StorageServerInfo) (malloc : Bool) :
    ∃ c' r', c.apply (.put path ssInfo malloc) = some c' ∧
      Steps c r (.put path ssInfo malloc) c' r' := by
  obtain ⟨o, ho⟩ := h.lookup_defined hslot
  cases o with
  | none =>
      obtain ⟨q, hq⟩ := scan_missed h ho
      have hr' : r.apply (.put path ssInfo malloc) =
          some (if malloc then r.makeRoom.insert path ssInfo else r.makeRoom) := by
        rw [RecencyList.apply, RecencyList.lruPut, ho]
        rfl
      obtain ⟨c', hc', h'⟩ := h.exists_apply hr'
      have hroom : r.makeRoom.ptrs.Sublist r.ptrs := (RecencyList.makeRoom_sublist r).map _
      refine ⟨c', _, hc', h', ?_, fun ts hts => ?_⟩
      · simp only [Acts, LruOp.path, hq, ← entries_makeRoom]
        cases malloc with
        | false => rfl
        | true =>
            simp only [if_true, RecencyList.insert, RecencyList.fresh_makeRoom, h.fresh]
            rfl
      · cases malloc with
        | false =>
            simp only [touched, LruOp.path, hq, List.append_nil]
            exact hts.sublist hroom
        | true =>
            have hptrs : (r.makeRoom.insert path ssInfo).ptrs = c.fresh :: r.makeRoom.ptrs := by
              rw [h.fresh, ← RecencyList.fresh_makeRoom]
              rfl
            simp only [touched, LruOp.path, hq, if_true, hptrs]
            exact (hts.sublist hroom).touch fun hmem => h.fresh_notMem (hroom.subset hmem)
  | some e =>
      obtain ⟨l₁, l₂, ⟨prev, hscan⟩, hes, hwithout, he⟩ := h.found ho
      have hr' : r.apply (.put path ssInfo malloc) =
          some (r.moveToFront { e with ssInfo := ssInfo }) := by
        rw [RecencyList.apply, RecencyList.lruPut, ho]
        rfl
      obtain ⟨c', hc', h'⟩ := h.exists_apply hr'
      refine ⟨c', _, hc', h', ?_, fun ts hts => ?_⟩
      · simp only [Acts, LruOp.path, hscan]
        exact ⟨l₁, e, l₂, hes, rfl, he, by rw [RecencyList.moveToFront, hwithout]⟩
      · simp only [touched, LruOp.path, hscan]
        exact recentFirst_moveToFront (e := { e with ssInfo := ssInfo }) hts

theorem Represents.remove_step (h : Represents c r) (hslot : c.SlotLive path) :
    ∃ c' r', c.apply (.remove path) = some c' ∧ Steps c r (.remove path) c' r' := by
  obtain ⟨o, ho⟩ := h.lookup_defined hslot
  cases o with
  | none =>
      obtain ⟨q, hq⟩ := scan_missed h ho
      refine ⟨c, r, by simp [apply, lruRemove, hq], h, ?_, fun ts hts => ?_⟩
      · simp [Acts, LruOp.path, hq]
      · simpa [touched, LruOp.path, hq] using hts
  | some e =>
      obtain ⟨l₁, l₂, ⟨prev, hscan⟩, hes, hwithout, he⟩ := h.found ho
      have hr' : r.apply (.remove path) = some (r.removeEntry path e) :=
        RecencyList.lruRemove_found ho
      obtain ⟨c', hc', h'⟩ := h.exists_apply hr'
      refine ⟨c', _, hc', h', ?_, fun ts hts => ?_⟩
      · simp only [Acts, LruOp.path, hscan]
        exact ⟨l₁, e, l₂, hes, rfl, he, hwithout⟩
      · simp only [touched, List.append_nil]
        exact hts.sublist (List.filter_sublist.map _)

theorem Represents.step (h : Represents c r) (hslot : c.SlotLive op.path) :
    ∃ c' r', c.apply op = some c' ∧ Steps c r op c' r' := by
  cases op with
  | get path => exact h.get_step hslot
  | put path ssInfo malloc => exact h.put_step hslot ssInfo malloc
  | remove path => exact h.remove_step hslot

/-! ### Whole runs -/

/-- While no operation follows a slot to a freed node, the nodes are a doubly linked list, every
operation is defined and acts on it as its scan says, and the tail is the node that was touched
least recently. -/
theorem sequence_of_run (ops : List LruOp)
    (hsteps : Machine.EachStep apply (fun c op => c.SlotLive op.path) lruInit ops) :
    ∃ c es, Machine.run apply lruInit ops = some c ∧ Sequence c es ∧
      (∀ p, c.tail = some p → ∃ a b, touches ops = a ++ b ∧ p ∈ a ∧ p ∉ b ∧
        ∀ q, (c.heap q).isSome → q ≠ p → q ∈ b) ∧
      ∀ op, c.SlotLive op.path →
        ∃ c' es', c.apply op = some c' ∧ Sequence c' es' ∧ Acts c op c' es es' := by
  obtain ⟨c, hc, r, h, hrecent, -⟩ := hsteps.defined
    (I := fun pre c => ∃ r, Represents c r ∧ RecentFirst (touches pre) r.ptrs ∧
      Machine.run apply lruInit pre = some c)
    ⟨.init, represents_lruInit, Recency.recentFirst_nil, rfl⟩ <| by
      rintro pre c op ⟨r, h, hrecent, hrun⟩ hslot
      obtain ⟨c', r', hc', hstep⟩ := h.step hslot
      refine ⟨c', hc', r', hstep.represents, ?_, Machine.run_concat_eq_some.mpr ⟨c, hrun, hc'⟩⟩
      rw [touches, Machine.outputs_append hrun, Machine.outputs_singleton hc']
      exact hstep.recent _ hrecent
  refine ⟨c, r.entries, hc, h.sequence, fun p hp => ?_, fun op hslot => ?_⟩
  · obtain ⟨l, hl⟩ := List.getLast?_eq_some_iff.mp (h.tail.symm.trans hp)
    rw [hl] at hrecent
    obtain ⟨a, b, hab, ha, hb, hothers⟩ := hrecent.last
    refine ⟨a, b, hab, ha, hb, fun q hq hne => hothers q ?_⟩
    have hmem := h.isSome_iff.mp hq
    rw [hl, List.mem_append, List.mem_singleton] at hmem
    exact hmem.resolve_right hne
  · obtain ⟨c', r', hc', hstep⟩ := h.step hslot
    exact ⟨c', r'.entries, hc', hstep.represents.sequence, hstep.acts⟩

instance (c : LruCache) (path : Path) : Decidable (c.SlotLive path) :=
  decidable_of_iff ((c.map (hashPath path)).all fun p => (c.heap p).isSome)
    (by simp [SlotLive, Option.all_eq_true])

/-- Of two paths the first one is looked up again. -/
def putGetOps : List LruOp :=
  [.put [47, 97] someServer true, .put [48, 66] someServer true, .get [47, 97]]

theorem sequence_of_run_putGet :
    ∃ c es, Machine.run apply lruInit putGetOps = some c ∧ Sequence c es ∧ c.tail = some 1 ∧
      ∃ a b, touches putGetOps = a ++ b ∧ 1 ∈ a ∧ 1 ∉ b ∧
        ∀ q, (c.heap q).isSome → q ≠ 1 → q ∈ b := by
  have hany : (Machine.run apply lruInit putGetOps).any fun c => c.tail = some 1 := by
    decide +kernel
  obtain ⟨c₀, hrun₀, htail⟩ := (Option.any_eq_true _ _).mp hany
  obtain ⟨c, es, hrun, hes, hlast, -⟩ := sequence_of_run putGetOps (by decide +kernel)
  obtain rfl : c₀ = c := Option.some.inj (hrun₀.symm.trans hrun)
  exact ⟨c₀, es, hrun, hes, of_decide_eq_true htail, hlast 1 (of_decide_eq_true htail)⟩

end LruCache
end NetworkFileSystem
