import NetworkFileSystem.LruCacheRefinement

/-!
# Slots that refer to freed nodes

Removal redirects a slot to the next node of the recency list, whatever that node hashes to, and
both removal and eviction clear only the slot of the hash of the freed node. A run keeps every slot
on a linked node exactly when no step frees a node to which some other slot refers.
-/

namespace NetworkFileSystem

/-- The operation stores a new node in this slot if it stores one. -/
def LruOp.Inserts : LruOp → Fin lruCacheSize → Prop
  | put path _ malloc, i => malloc = true ∧ i = hashPath path
  | _, _ => False

namespace RecencyList

variable {r : RecencyList} {path : Path} {e : CacheEntry} {op : LruOp}

def NoDangling (r : RecencyList) : Prop := ∀ i p, r.slots i = some p → p ∈ r.ptrs

/-- The entry that goes when room is made for a new one. -/
def evicted (r : RecencyList) : Option CacheEntry :=
  if r.entries.length = lruCacheSize then r.entries.getLast? else none

/-- The entry that an operation frees. -/
def freed (r : RecencyList) : LruOp → Option CacheEntry
  | .put path _ _ => if r.lookup path = some none then r.evicted else none
  | .get _ => none
  | .remove path => (r.lookup path).join

def FreesOwnSlotOnly (r : RecencyList) (op : LruOp) : Prop :=
  ∀ e, r.freed op = some e → ∀ i, r.slots i = some e.ptr → i = hashPath e.path ∨ op.Inserts i

theorem NoDangling.lookup (h : r.NoDangling) (path : Path) : ∃ o, r.lookup path = some o := by
  rw [← Option.ne_none_iff_exists', ne_eq, lookup_eq_none_iff]
  rintro ⟨p, hslot, hp⟩
  exact hp (h _ p hslot)

theorem mem_ptrs_moveToFront (he : e.ptr ∈ r.ptrs) {p : Ptr} :
    p ∈ (r.moveToFront e).ptrs ↔ p ∈ r.ptrs := by
  simp only [ptrs, moveToFront, without, List.map_cons, List.mem_cons, List.mem_map,
    List.mem_filter]
  constructor
  · rintro (rfl | ⟨x, ⟨hx, -⟩, rfl⟩)
    · exact List.mem_map.mp he
    · exact ⟨x, hx, rfl⟩
  · rintro ⟨x, hx, rfl⟩
    by_cases hxe : x.ptr = e.ptr
    · exact Or.inl hxe
    · exact Or.inr ⟨x, ⟨hx, by simpa using hxe⟩, rfl⟩

theorem NoDangling.moveToFront (h : r.NoDangling) (he : e.ptr ∈ r.ptrs) :
    (r.moveToFront e).NoDangling :=
  fun i p hp => (mem_ptrs_moveToFront he).mpr (h i p hp)

theorem lookup_found_mem (h : r.lookup path = some (some e)) : e ∈ r.entries ∧ e.path = path := by
  obtain ⟨pre, l₁, l₂, hes, -, -, he⟩ := lookup_found h
  exact ⟨by simp [hes], he⟩

theorem freed_mem (h : r.freed op = some e) : e ∈ r.entries := by
  cases op with
  | get path => simp [freed] at h
  | put path ssInfo malloc =>
      simp only [freed, evicted] at h
      split_ifs at h
      exact List.mem_of_getLast? h
  | remove path => exact (lookup_found_mem (Option.join_eq_some_iff.mp h)).1

theorem fresh_makeRoom : r.makeRoom.fresh = r.fresh := by
  rw [makeRoom, evict]
  split <;> [split <;> rfl; rfl]

theorem mem_ptrs_makeRoom (hr : r.WellFormed) {p : Ptr} :
    p ∈ r.makeRoom.ptrs ↔ p ∈ r.ptrs ∧ ∀ e, r.evicted = some e → p ≠ e.ptr := by
  by_cases hfull : r.entries.length = lruCacheSize
  · simp only [makeRoom, evicted, if_pos hfull, evict]
    rcases List.eq_nil_or_concat' r.entries with hes | ⟨l, e, hes⟩
    · simp [hes]
    · have hn := hr.nodup
      rw [ptrs, hes, List.map_append, List.nodup_append] at hn
      have hne : ∀ q ∈ l.map (·.ptr), q ≠ e.ptr := fun q hq => hn.2.2 q hq e.ptr (by simp)
      simp only [hes, List.getLast?_concat, List.dropLast_concat, ptrs, List.map_append,
        List.mem_append, Option.some.injEq, forall_eq']
      constructor
      · intro hp
        exact ⟨Or.inl hp, hne p hp⟩
      · rintro ⟨hp, hpe⟩
        exact hp.resolve_right (by simpa using hpe)
  · simp [makeRoom, evicted, hfull]

theorem slots_makeRoom {i : Fin lruCacheSize} {p : Ptr} :
    r.makeRoom.slots i = some p ↔ r.slots i = some p ∧
      ∀ e, r.evicted = some e → ¬(p = e.ptr ∧ i = hashPath e.path) := by
  by_cases hfull : r.entries.length = lruCacheSize
  · simp only [makeRoom, evicted, if_pos hfull, evict]
    cases r.entries.getLast? with
    | none => simp
    | some e =>
        simp only [Option.some.injEq, forall_eq']
        by_cases hown : r.slots (hashPath e.path) = some e.ptr
        · by_cases hi : i = hashPath e.path
          · subst hi
            simp [hown, eq_comm]
          · simp [hown, hi]
        · rw [if_neg hown]
          constructor
          · rintro hp
            exact ⟨hp, fun h => hown (by rw [← h.2, ← h.1, hp])⟩
          · exact And.left
  · simp [makeRoom, evicted, hfull]

/-- Any other slot keeps its pointer to the evicted entry. -/
theorem slots_makeRoom_of_evicted {i : Fin lruCacheSize} (he : r.evicted = some e)
    (hi : r.slots i = some e.ptr) (hne : i ≠ hashPath e.path) :
    r.makeRoom.slots i = some e.ptr :=
  slots_makeRoom.mpr ⟨hi, fun e' he' h' => by
    obtain rfl : e = e' := Option.some.inj (he.symm.trans he')
    exact hne h'.2⟩

theorem makeRoom_noDangling_iff (hr : r.WellFormed) (h : r.NoDangling) :
    r.makeRoom.NoDangling ↔
      ∀ e, r.evicted = some e → ∀ i, r.slots i = some e.ptr → i = hashPath e.path := by
  constructor
  · intro hd e he i hi
    by_contra hne
    have hslot := slots_makeRoom_of_evicted he hi hne
    exact ((mem_ptrs_makeRoom hr).mp (hd i e.ptr hslot)).2 e he rfl
  · intro hd i p hp
    obtain ⟨hslot, hne⟩ := slots_makeRoom.mp hp
    refine (mem_ptrs_makeRoom hr).mpr ⟨h i p hslot, fun e he hpe => ?_⟩
    exact hne e he ⟨hpe, hd e he i (hpe ▸ hslot)⟩

/-- The slot of the inserted path may have referred to the evicted entry. -/
theorem insert_noDangling_iff (hr : r.WellFormed) (h : r.NoDangling) (path : Path)
    (ssInfo : StorageServerInfo) :
    (r.makeRoom.insert path ssInfo).NoDangling ↔
      ∀ e, r.evicted = some e → ∀ i, r.slots i = some e.ptr →
        i = hashPath e.path ∨ i = hashPath path := by
  constructor
  · intro hd e he i hi
    by_contra hne
    obtain ⟨hne, hnp⟩ := not_or.mp hne
    have hslot := slots_makeRoom_of_evicted he hi hne
    have hmem := hd i e.ptr (by simpa [insert, Function.update_of_ne hnp] using hslot)
    rcases List.mem_cons.mp hmem with hfresh | hmem
    · have hlt := hr.below _ (h i _ hi)
      rw [fresh_makeRoom] at hfresh
      exact hlt.ne hfresh
    · exact ((mem_ptrs_makeRoom hr).mp hmem).2 e he rfl
  · intro hd i p hp
    by_cases hi : i = hashPath path
    · subst hi
      obtain rfl : r.makeRoom.fresh = p := by simpa [insert] using hp
      exact List.mem_cons_self
    · have hslot : r.makeRoom.slots i = some p := by simpa [insert, hi] using hp
      obtain ⟨hslot, hne⟩ := slots_makeRoom.mp hslot
      refine List.mem_cons_of_mem _ ((mem_ptrs_makeRoom hr).mpr ⟨h i p hslot, fun e he hpe => ?_⟩)
      exact hne e he ⟨hpe, (hd e he i (hpe ▸ hslot)).resolve_right hi⟩

/-- The slot of a removed entry is redirected to its successor. -/
theorem remove_noDangling_iff (hr : r.WellFormed) (h : r.NoDangling) (he : e ∈ r.entries) :
    (r.removeEntry e.path e).NoDangling ↔
      ∀ i, r.slots i = some e.ptr → i = hashPath e.path := by
  have hmem : ∀ p, p ∈ (r.without e.ptr).map (·.ptr) ↔ p ∈ r.ptrs ∧ p ≠ e.ptr := by
    intro p
    simp only [without, ptrs, List.mem_map, List.mem_filter]
    constructor
    · rintro ⟨x, ⟨hx, hxe⟩, rfl⟩
      exact ⟨⟨x, hx, rfl⟩, by simpa using hxe⟩
    · rintro ⟨⟨x, hx, rfl⟩, hxe⟩
      exact ⟨x, ⟨hx, by simpa using hxe⟩, rfl⟩
  have hsucc : ∀ p, r.successor e.ptr = some p → p ∈ (r.without e.ptr).map (·.ptr) := by
    intro p hp
    obtain ⟨l₁, l₂, hes⟩ := List.append_of_mem he
    rw [successor_eq hr hes] at hp
    rw [without_eq hr hes, List.map_append]
    exact List.mem_append_right _ (List.mem_of_head? hp)
  constructor
  · intro hd i hi
    by_contra hne
    refine ((hmem e.ptr).mp (hd i e.ptr ?_)).2 rfl
    by_cases hown : r.slots (hashPath e.path) = some e.ptr
    · simpa [hown, hne] using hi
    · simpa [hown] using hi
  · intro hd i p hp
    by_cases hown : r.slots (hashPath e.path) = some e.ptr
    · by_cases hi : i = hashPath e.path
      · subst hi
        exact hsucc p (by simpa [hown] using hp)
      · have hslot : r.slots i = some p := by simpa [hown, hi] using hp
        exact (hmem p).mpr ⟨h i p hslot, fun hpe => hi (hd i (hpe ▸ hslot))⟩
    · have hslot : r.slots i = some p := by simpa [hown] using hp
      refine (hmem p).mpr ⟨h i p hslot, fun hpe => hown ?_⟩
      rw [← hd i (hpe ▸ hslot), hslot, hpe]

/-- From a state without dangling slots every operation is defined, and leaves none exactly when
it frees no entry that another slot refers to. -/
theorem apply_noDangling_iff (hr : r.WellFormed) (h : r.NoDangling) (op : LruOp) :
    ∃ r', r.apply op = some r' ∧ (r'.NoDangling ↔ r.FreesOwnSlotOnly op) := by
  obtain ⟨o, ho⟩ := h.lookup op.path
  have hnone : r.freed op = none → r.FreesOwnSlotOnly op := fun hf e he => by simp [hf] at he
  cases op with
  | get path =>
      have ho : r.lookup path = some o := ho
      cases o with
      | none => exact ⟨r, by simp [apply, lruGet, ho], iff_of_true h (hnone rfl)⟩
      | some e =>
          have he := (lookup_found_mem ho).1
          exact ⟨_, by simp only [apply, lruGet, ho, Option.map_some],
            iff_of_true (h.moveToFront (ptr_mem he)) (hnone rfl)⟩
  | put path ssInfo malloc =>
      have ho : r.lookup path = some o := ho
      cases o with
      | some e =>
          have he : e.ptr ∈ r.ptrs := ptr_mem (lookup_found_mem ho).1
          refine ⟨_, by rw [apply, lruPut, ho]; rfl, iff_of_true ?_ (hnone (by simp [freed, ho]))⟩
          exact h.moveToFront (e := { e with ssInfo := ssInfo }) he
      | none =>
          refine ⟨_, by rw [apply, lruPut, ho]; rfl, ?_⟩
          have hfreed : r.freed (.put path ssInfo malloc) = r.evicted := by simp [freed, ho]
          cases malloc with
          | false =>
              simpa [FreesOwnSlotOnly, hfreed, LruOp.Inserts] using makeRoom_noDangling_iff hr h
          | true =>
              simpa [FreesOwnSlotOnly, hfreed, LruOp.Inserts] using
                insert_noDangling_iff hr h path ssInfo
  | remove path =>
      have ho : r.lookup path = some o := ho
      cases o with
      | none =>
          exact ⟨r, by simp only [apply, lruRemove, ho, Option.map_some],
            iff_of_true h (hnone (by simp [freed, ho]))⟩
      | some e =>
          refine ⟨_, lruRemove_found ho, ?_⟩
          obtain ⟨he, rfl⟩ := lookup_found_mem ho
          simpa [FreesOwnSlotOnly, freed, ho, LruOp.Inserts] using remove_noDangling_iff hr h he

end RecencyList

namespace LruCache

open DoublyLinked (Seg)

variable {c c' : LruCache} {r : RecencyList} {path : Path} {op : LruOp}

/-- Following the `next` pointers from a pointer leads to the node at `p`. -/
inductive Follows (c : LruCache) : Option Ptr → Ptr → Prop
  | here {p : Ptr} : (c.heap p).isSome → Follows c (some p) p
  | next {p q : Ptr} {n : LruCacheNode} :
    c.heap p = some n → Follows c n.next q → Follows c (some p) q

def Linked (c : LruCache) (p : Ptr) : Prop := Follows c c.head p

def NoDangling (c : LruCache) : Prop := ∀ i p, c.map i = some p → c.Linked p

/-- The node that an operation frees: the one that `lru_remove` finds, or the tail of a full list
when `lru_put` finds none. -/
def freed (c : LruCache) : LruOp → Option Ptr
  | .put path _ _ =>
    (c.scan path).bind fun found =>
      if found.2 = none ∧ c.count = lruCacheSize then c.tail else none
  | .get _ => none
  | .remove path => (c.scan path).bind Prod.snd

/-- The only slots that refer to a node that the operation frees are the one of its path, which
the operation clears or redirects, and the one in which it stores the new node. -/
def FreesOwnSlotOnly (c : LruCache) (op : LruOp) : Prop :=
  ∀ p n, c.freed op = some p → c.heap p = some n →
    ∀ i, c.map i = some p → i = hashPath n.path ∨ op.Inserts i

theorem Follows.isSome {o : Option Ptr} {p : Ptr} (h : Follows c o p) : (c.heap p).isSome := by
  induction h with
  | here hp => exact hp
  | next _ _ ih => exact ih

theorem follows_iff {b : Option Ptr} {l : List Ptr} (hs : Seg c.links b l none) {p : Ptr} :
    Follows c l.head? p ↔ p ∈ l := by
  induction l generalizing b with
  | nil =>
      refine ⟨fun h => ?_, fun h => by simp at h⟩
      cases h
  | cons x l ih =>
      obtain ⟨n, hn, -, hnext⟩ := exists_node hs.1
      replace hnext : n.next = l.head? := hnext.trans Option.or_none
      rw [List.head?_cons, List.mem_cons, ← ih hs.2]
      constructor
      · intro h
        cases h with
        | here _ => exact Or.inl rfl
        | next hx h =>
            obtain rfl := Option.some.inj (hn.symm.trans hx)
            exact Or.inr (hnext ▸ h)
      · rintro (rfl | h)
        · exact .here (by rw [hn]; rfl)
        · exact .next hn (hnext.symm ▸ h)

theorem Represents.linked_iff (h : Represents c r) {p : Ptr} : c.Linked p ↔ p ∈ r.ptrs := by
  rw [Linked, h.head, follows_iff h.seg]

theorem Represents.noDangling_iff (h : Represents c r) : c.NoDangling ↔ r.NoDangling := by
  simp only [NoDangling, RecencyList.NoDangling, h.linked_iff, h.map]

theorem Represents.freed (h : Represents c r) (op : LruOp) :
    c.freed op = (r.freed op).map (·.ptr) := by
  cases op with
  | get path => rfl
  | put path ssInfo malloc =>
      rw [LruCache.freed, RecencyList.freed]
      cases hl : r.lookup path with
      | none => simp [scan_undefined h hl]
      | some found =>
          cases found with
          | some e =>
              obtain ⟨pre, l₁, l₂, hes, hslot, hl₁, he⟩ := RecencyList.lookup_found hl
              simp [scan_found h hes hslot hl₁ he]
          | none =>
              obtain ⟨q, hq⟩ := scan_missed h hl
              have hcount : c.count = lruCacheSize ↔ r.entries.length = lruCacheSize := by
                rw [h.count]
                exact Int.ofNat_inj
              simp only [hq, Option.bind_some, true_and, hcount, if_true, RecencyList.evicted]
              split_ifs
              · rw [h.tail, RecencyList.ptrs, List.getLast?_map]
              · rfl
  | remove path =>
      rw [LruCache.freed, RecencyList.freed]
      cases hl : r.lookup path with
      | none => simp [scan_undefined h hl]
      | some found =>
          cases found with
          | none =>
              obtain ⟨q, hq⟩ := scan_missed h hl
              simp [hq]
          | some e =>
              obtain ⟨pre, l₁, l₂, hes, hslot, hl₁, he⟩ := RecencyList.lookup_found hl
              simp [scan_found h hes hslot hl₁ he]

theorem Represents.path_eq (h : Represents c r) {e : CacheEntry} (he : e ∈ r.entries)
    {n : LruCacheNode} (hn : c.heap e.ptr = some n) : n.path = e.path ∧ n.ssInfo = e.ssInfo := by
  have hc := h.contents e he
  simpa only [LruCache.contents, hn, Option.map_some, Option.some.injEq, Prod.mk.injEq] using hc

theorem Represents.freesOwnSlotOnly_iff (h : Represents c r) :
    c.FreesOwnSlotOnly op ↔ r.FreesOwnSlotOnly op := by
  rw [FreesOwnSlotOnly, RecencyList.FreesOwnSlotOnly, h.map]
  constructor
  · intro hf e he
    obtain ⟨n, hn⟩ := Option.isSome_iff_exists.mp
      (h.isSome_iff.mpr (RecencyList.ptr_mem (RecencyList.freed_mem he)))
    have hpath := (h.path_eq (RecencyList.freed_mem he) hn).1
    exact hpath ▸ hf e.ptr n (by rw [h.freed, he]; rfl) hn
  · intro hf p n hp hn
    obtain ⟨e, he, rfl⟩ := Option.map_eq_some_iff.mp ((h.freed op).symm.trans hp)
    exact (h.path_eq (RecencyList.freed_mem he) hn).1 ▸ hf e he

/-- Every slot of every state of a run refers to a linked node, and so every operation of the run
is defined, exactly when each operation frees its own slots only. -/
theorem noDangling_iff_freesOwnSlotOnly (ops : List LruOp) :
    (∀ pre, pre <+: ops → ∃ c, Machine.run apply lruInit pre = some c ∧ c.NoDangling) ↔
      Machine.EachStep apply FreesOwnSlotOnly lruInit ops := by
  have hrep : ∀ {pre c}, Machine.run apply lruInit pre = some c → ∃ r, Represents c r := by
    intro pre c hc
    obtain ⟨r, -, h⟩ := Machine.exists_of_some_rel (hc ▸ run_refines pre)
    exact ⟨r, h⟩
  rw [Machine.eachStep_iff_forall_prefix (I := fun c => (∃ r, Represents c r) ∧ c.NoDangling)]
  · refine forall₂_congr fun pre _ => exists_congr fun c => ?_
    exact and_congr_right fun hc => ⟨fun hd => ⟨hrep hc, hd⟩, And.right⟩
  · exact ⟨⟨_, represents_lruInit⟩, fun i p hp => by simp [lruInit] at hp⟩
  · rintro c op ⟨⟨r, h⟩, hd⟩
    obtain ⟨r', hr', hiff⟩ :=
      RecencyList.apply_noDangling_iff h.wellFormed (h.noDangling_iff.mp hd) op
    obtain ⟨c', hc', h'⟩ := Machine.exists_of_rel_some (hr' ▸ apply_refines h op)
    refine ⟨c', hc', ?_⟩
    rw [h.freesOwnSlotOnly_iff, ← hiff, ← h'.noDangling_iff]
    exact and_iff_right ⟨r', h'⟩

def someServer : StorageServerInfo where
  ip := [49]
  nmPort := 1
  clientPort := 2
  accessiblePaths := .replicate _ []
  numAccessiblePaths := 0

/-- Removing the second path redirects its slot to the node of the first one, which the next
removal frees. -/
theorem slot_dangles_after_removals :
    ∃ c, Machine.run apply lruInit [.put [97] someServer true, .put [98] someServer true,
        .remove [98], .remove [97]] = some c ∧ ¬ c.NoDangling ∧ c.lruGet [98] = none := by
  have hrun : ((Machine.run apply lruInit [.put [97] someServer true, .put [98] someServer true,
      .remove [98], .remove [97]]).map fun c =>
        (c.map (hashPath [98]), (c.heap 0).isSome, (c.lruGet [98]).isSome)) =
      some (some 0, false, false) := by
    decide +kernel
  obtain ⟨c, hc, heq⟩ := Option.map_eq_some_iff.mp hrun
  simp only [Prod.mk.injEq] at heq
  obtain ⟨hslot, hheap, hget⟩ := heq
  refine ⟨c, hc, fun h => ?_, by simpa using hget⟩
  simpa [hheap] using (h _ 0 hslot).isSome

end LruCache
end NetworkFileSystem
