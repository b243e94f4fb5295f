import NetworkFileSystem.RecencyList
import NetworkFileSystem.Library.DoublyLinked
import Mathlib.Data.List.Perm.Subperm

/-!
# The linked nodes refine the recency list

`Represents` relates the nodes of `lru_cache.c` to a recency list: the linked nodes are the entries
in order, in both directions and from both ends, and no other node is allocated. Every operation
of the code is defined exactly when that of the list is, and keeps the relation.
-/

namespace NetworkFileSystem.LruCache

open DoublyLinked (Links LinkMap Seg)

variable {c c' : LruCache} {r : RecencyList} {path : Path} {p q : Ptr} {v : Option Ptr}

def links (c : LruCache) : LinkMap Ptr := fun p => (c.heap p).map fun n => ⟨n.prev, n.next⟩

def contents (c : LruCache) (p : Ptr) : Option (Path × StorageServerInfo) :=
  (c.heap p).map fun n => (n.path, n.ssInfo)

structure Represents (c : LruCache) (r : RecencyList) : Prop where
  wellFormed : r.WellFormed
  seg : Seg c.links none r.ptrs none
  head : c.head = r.ptrs.head?
  tail : c.tail = r.ptrs.getLast?
  contents : ∀ e ∈ r.entries, c.contents e.ptr = some (e.path, e.ssInfo)
  live : ∀ p, (c.heap p).isSome → p ∈ r.ptrs
  map : c.map = r.slots
  fresh : c.fresh = r.fresh
  count : c.count = r.entries.length

theorem represents_lruInit : Represents lruInit .init where
  wellFormed := ⟨List.nodup_nil, by simp [RecencyList.init, RecencyList.ptrs], Nat.zero_le _⟩
  seg := trivial
  head := rfl
  tail := rfl
  contents := by simp [RecencyList.init]
  live := by simp [lruInit]
  map := rfl
  fresh := rfl
  count := rfl

/-! ### Writes to the links of live nodes -/

/-- The step from `c` to `c'` only set the links of live nodes, to `L`. -/
structure Relinked (c c' : LruCache) (L : LinkMap Ptr) : Prop where
  links : c'.links = L
  contents : c'.contents = c.contents
  map : c'.map = c.map
  fresh : c'.fresh = c.fresh
  count : c'.count = c.count
  head : c'.head = c.head
  tail : c'.tail = c.tail

theorem exists_node {l : Links Ptr} (h : c.links p = some l) :
    ∃ n, c.heap p = some n ∧ n.prev = l.prev ∧ n.next = l.next := by
  obtain ⟨n, hn, rfl⟩ := Option.map_eq_some_iff.mp h
  exact ⟨n, hn, rfl, rfl⟩

theorem isSome_links : (c.links p).isSome = (c.heap p).isSome := Option.isSome_map

theorem isSome_contents : (c.contents p).isSome = (c.heap p).isSome := Option.isSome_map

theorem Relinked.refl (c : LruCache) : Relinked c c c.links := ⟨rfl, rfl, rfl, rfl, rfl, rfl, rfl⟩

theorem Relinked.trans {c'' : LruCache} {L L' : LinkMap Ptr} (h : Relinked c c' L)
    (h' : Relinked c' c'' L') : Relinked c c'' L' where
  links := h'.links
  contents := h'.contents.trans h.contents
  map := h'.map.trans h.map
  fresh := h'.fresh.trans h.fresh
  count := h'.count.trans h.count
  head := h'.head.trans h.head
  tail := h'.tail.trans h.tail

theorem Relinked.isSome {L : LinkMap Ptr} (h : Relinked c c' L) (p : Ptr) :
    (c'.heap p).isSome = (c.heap p).isSome := by
  rw [← isSome_contents, h.contents, isSome_contents]

theorem modify_eq {n : LruCacheNode} (hn : c.heap p = some n) (f : LruCacheNode → LruCacheNode) :
    c.modify f p = some { c with heap := Function.update c.heap p (some (f n)) } := by
  rw [modify, hn]
  rfl

theorem setNext_spec (v : Option Ptr) (h : (c.heap p).isSome) :
    ∃ c', c.setNext v p = some c' ∧ Relinked c c' (DoublyLinked.setNext c.links v p) := by
  obtain ⟨n, hn⟩ := Option.isSome_iff_exists.mp h
  refine ⟨_, modify_eq hn _, ?_, ?_, rfl, rfl, rfl, rfl, rfl⟩ <;>
    funext q <;> by_cases hq : q = p
  · subst q
    simp [links, hn]
  · simp [links, DoublyLinked.setNext, Function.update_of_ne hq]
  · subst q
    simp [LruCache.contents, hn]
  · simp [LruCache.contents, hq]

theorem setPrev_spec (v : Option Ptr) (h : (c.heap p).isSome) :
    ∃ c', c.setPrev v p = some c' ∧ Relinked c c' (DoublyLinked.setPrev c.links v p) := by
  obtain ⟨n, hn⟩ := Option.isSome_iff_exists.mp h
  refine ⟨_, modify_eq hn _, ?_, ?_, rfl, rfl, rfl, rfl, rfl⟩ <;>
    funext q <;> by_cases hq : q = p
  · subst q
    simp [links, hn]
  · simp [links, DoublyLinked.setPrev, Function.update_of_ne hq]
  · subst q
    simp [LruCache.contents, hn]
  · simp [LruCache.contents, hq]

theorem whenLinked_setNext_spec (v : Option Ptr) {o : Option Ptr}
    (h : ∀ q, o = some q → (c.heap q).isSome) :
    ∃ c', c.whenLinked (·.setNext v) o = some c' ∧
      Relinked c c' (o.elim c.links (DoublyLinked.setNext c.links v)) := by
  cases o with
  | none => exact ⟨c, rfl, .refl c⟩
  | some q => exact setNext_spec v (h q rfl)

theorem whenLinked_setPrev_spec (v : Option Ptr) {o : Option Ptr}
    (h : ∀ q, o = some q → (c.heap q).isSome) :
    ∃ c', c.whenLinked (·.setPrev v) o = some c' ∧
      Relinked c c' (o.elim c.links (DoublyLinked.setPrev c.links v)) := by
  cases o with
  | none => exact ⟨c, rfl, .refl c⟩
  | some q => exact setPrev_spec v (h q rfl)

/-! ### Relinking a node -/

theorem unlinkNode_spec {a b : Option Ptr} (hp : c.links p = some ⟨a, b⟩) (hap : a ≠ some p)
    (ha : ∀ q, a = some q → (c.heap q).isSome) (hb : ∀ q, b = some q → (c.heap q).isSome) :
    ∃ c', c.unlinkNode p = some c' ∧ Relinked c c' (DoublyLinked.bridge c.links a b) := by
  obtain ⟨n, hn, hprev, hnext⟩ := exists_node hp
  obtain ⟨c₁, hc₁, h₁⟩ := whenLinked_setNext_spec (c := c) b ha
  have hp₁ : c₁.links p = some ⟨a, b⟩ := by
    rw [h₁.links, ← hp]
    cases a with
    | none => rfl
    | some q => exact DoublyLinked.setNext_of_ne fun h => hap (by rw [h])
  obtain ⟨n₁, hn₁, hprev₁, hnext₁⟩ := exists_node hp₁
  obtain ⟨c₂, hc₂, h₂⟩ := whenLinked_setPrev_spec (c := c₁) (o := b) a fun q hq => by
    rw [h₁.isSome]
    exact hb q hq
  refine ⟨c₂, ?_, h₁.trans ?_⟩
  · simp only [unlinkNode, hn, hprev, hnext, hc₁, hn₁, hprev₁, hnext₁, Option.bind_eq_bind,
      Option.bind_some, hc₂]
  · rw [h₁.links] at h₂
    exact h₂

theorem linkFront_spec (hp : (c.heap p).isSome) (hf : ∀ q, c.head = some q → (c.heap q).isSome) :
    ∃ c', c.linkFront p = some c' ∧ c'.links = DoublyLinked.pushFront c.links p c.head ∧
      c'.contents = c.contents ∧ c'.map = c.map ∧ c'.fresh = c.fresh ∧ c'.count = c.count ∧
      c'.head = some p ∧ c'.tail = c.tail.or (some p) := by
  obtain ⟨c₁, hc₁, h₁⟩ := setPrev_spec none hp
  obtain ⟨c₂, hc₂, h₂⟩ := setNext_spec c.head (h₁.isSome p ▸ hp)
  have h₁₂ := h₁.trans h₂
  have hhead : c₂.head = c.head := h₁₂.head
  obtain ⟨c₃, hc₃, h₃⟩ := whenLinked_setPrev_spec (c := c₂) (o := c.head) (some p) fun q hq => by
    rw [h₁₂.isSome]
    exact hf q hq
  have h := h₁₂.trans h₃
  refine ⟨{ c₃ with head := some p, tail := c₃.tail.or (some p) }, ?_, ?_, h.contents, h.map,
    h.fresh, h.count, rfl, by rw [h.tail]⟩
  · simp only [linkFront, hc₁, h₁.head, hc₂, hhead, hc₃, Option.bind_eq_bind, Option.bind_some]
  · change c₃.links = _
    have hset : DoublyLinked.setNext (DoublyLinked.setPrev c.links none p) c.head p =
        Function.update c.links p (some ⟨none, c.head⟩) := by
      obtain ⟨l, hl⟩ := Option.isSome_iff_exists.mp (isSome_links.trans hp)
      simp [DoublyLinked.setNext, DoublyLinked.setPrev, hl]
    rw [h₃.links, h₂.links, h₁.links, hset]
    rfl

theorem cutTail_spec {l₁ l₂ : List Ptr} (hs : Seg c.links none (l₁ ++ p :: l₂) none)
    (hn : (l₁ ++ p :: l₂).Nodup) (htail : c.tail = (l₁ ++ p :: l₂).getLast?) :
    ∃ c', c.cutTail p = some c' ∧ Relinked { c with tail := (l₁ ++ l₂).getLast? } c' c'.links ∧
      c'.links p = c.links p ∧
      DoublyLinked.bridge c'.links l₁.getLast? l₂.head? =
        DoublyLinked.bridge c.links l₁.getLast? l₂.head? := by
  have hlive : ∀ q, l₁.getLast? = some q → (c.heap q).isSome := fun q hq =>
    isSome_links ▸ hs.isSome (List.mem_append_left _ (List.mem_of_getLast? hq))
  have hne : ∀ q, l₁.getLast? = some q → p ≠ q := fun q hq h =>
    (List.nodup_append.mp hn).2.2 q (List.mem_of_getLast? hq) p (by simp) h.symm
  cases l₂ with
  | nil =>
      obtain ⟨n, hnode, hprev, -⟩ := exists_node hs.lookup
      rw [Option.or_none] at hprev
      obtain ⟨c', hc', h'⟩ :=
        whenLinked_setNext_spec (c := { c with tail := l₁.getLast? }) none hlive
      have hlast : c.tail = some p := by rw [htail]; simp
      refine ⟨c', ?_, ?_, ?_, ?_⟩
      · simp only [cutTail, if_pos hlast, hnode, hprev, Option.bind_eq_bind, Option.bind_some, hc']
      · rw [List.append_nil]
        exact h'.links ▸ h'
      · rw [h'.links]
        cases hq : l₁.getLast? with
        | none => rfl
        | some q => exact DoublyLinked.setNext_of_ne (hne q hq)
      · rw [h'.links]
        cases l₁.getLast? with
        | none => rfl
        | some q => exact DoublyLinked.bridge_setNext none none
  | cons x l₂ =>
      have hlast : c.tail ≠ some p := by
        rw [htail, List.getLast?_append, List.getLast?_cons_cons, List.getLast?_cons,
          Option.some_or]
        intro hlast
        have hp : p ∈ x :: l₂ := List.mem_of_getLast? (by rw [List.getLast?_cons, hlast])
        exact (List.nodup_cons.mp (List.nodup_append.mp hn).2.1).1 hp
      refine ⟨c, if_neg hlast, ⟨rfl, rfl, rfl, rfl, rfl, rfl, ?_⟩, rfl, rfl⟩
      rw [htail]
      simp [List.getLast?_append, List.getLast?_cons]

/-! ### Moving an entry to the front -/

theorem Represents.isSome_iff (h : Represents c r) : (c.heap p).isSome ↔ p ∈ r.ptrs :=
  ⟨h.live p, fun hp => isSome_links ▸ h.seg.isSome hp⟩

theorem moveToFront_spec {e : CacheEntry} (h : Represents c r) (he : e ∈ r.entries) :
    ∃ c', c.moveToFront e.ptr = some c' ∧ Represents c' (r.moveToFront e) := by
  obtain ⟨l₁, l₂, hes⟩ := List.append_of_mem he
  have hwithout := RecencyList.without_eq h.wellFormed hes
  have hperm := RecencyList.moveToFront_perm h.wellFormed hes
  by_cases hhead : c.head = some e.ptr
  · have hl₁ : l₁ = [] := by
      cases l₁ with
      | nil => rfl
      | cons x l₁ =>
          have hx : x.ptr = e.ptr := by
            rw [h.head, RecencyList.ptrs, hes] at hhead
            simpa using hhead
          have hn := h.wellFormed.nodup
          rw [RecencyList.ptrs, hes] at hn
          exact absurd hx (RecencyList.notMem_of_nodup hn x (by simp))
    subst hl₁
    have hr : r.moveToFront e = r := by
      rw [RecencyList.moveToFront, hwithout, List.nil_append]
      rw [List.nil_append] at hes
      rw [← hes]
    exact ⟨c, if_pos hhead, hr.symm ▸ h⟩
  · have hptrs : r.ptrs = l₁.map (·.ptr) ++ e.ptr :: l₂.map (·.ptr) := by
      simp [RecencyList.ptrs, hes]
    have hptrs' : (r.moveToFront e).ptrs = e.ptr :: (l₁.map (·.ptr) ++ l₂.map (·.ptr)) := by
      simp [RecencyList.ptrs, RecencyList.moveToFront, hwithout]
    have hseg := hptrs ▸ h.seg
    have hn := hptrs ▸ h.wellFormed.nodup
    obtain ⟨hnotin, hn'⟩ := List.nodup_cons.mp (List.nodup_middle.mp hn)
    have hlink : c.links e.ptr = _ := hseg.lookup
    have hlive : ∀ {p}, p ∈ r.ptrs → (c.heap p).isSome := h.isSome_iff.mpr
    rw [Option.or_none, Option.or_none] at hlink
    obtain ⟨c₁, hc₁, h₁, hlink₁, hbridge⟩ := cutTail_spec hseg hn (hptrs ▸ h.tail)
    have hlive₁ : ∀ {p}, p ∈ r.ptrs → (c₁.heap p).isSome := fun hp => h₁.isSome _ ▸ hlive hp
    obtain ⟨c₂, hc₂, h₂⟩ := unlinkNode_spec (hlink₁.trans hlink)
      (fun hq => hnotin (List.mem_append_left _ (List.mem_of_getLast? hq)))
      (fun q hq => hlive₁ (hptrs ▸ List.mem_append_left _ (List.mem_of_getLast? hq)))
      (fun q hq => hlive₁ (hptrs ▸ List.mem_append_right _
        (List.mem_cons_of_mem _ (List.mem_of_head? hq))))
    have hhead₂ : c₂.head = (l₁.map (·.ptr) ++ l₂.map (·.ptr)).head? := by
      have hc : c.head = (l₁.map (·.ptr) ++ e.ptr :: l₂.map (·.ptr)).head? := hptrs ▸ h.head
      rw [h₂.head, h₁.head]
      change c.head = _
      cases l₁ with
      | nil => exact absurd hc hhead
      | cons x l₁ => exact hc
    obtain ⟨c₃, hc₃, hlinks, hcont, hmap, hfresh, hcount, hhead₃, htail⟩ :=
      linkFront_spec (c := c₂) (p := e.ptr)
        (by rw [h₂.isSome]; exact hlive₁ (RecencyList.ptr_mem he)) fun q hq => by
          rw [h₂.isSome]
          refine hlive₁ (hptrs ▸ ?_)
          have := List.mem_of_head? (hhead₂ ▸ hq)
          simp only [List.mem_append, List.mem_cons] at this ⊢
          tauto
    have hcontents : c₃.contents = c.contents := hcont.trans (h₂.contents.trans h₁.contents)
    refine ⟨c₃, ?_, ?_⟩
    · simp only [moveToFront, if_neg hhead, hc₁, hc₂, hc₃, Option.bind_eq_bind, Option.bind_some]
    · exact {
        wellFormed := h.wellFormed.of_subperm hperm.subperm rfl
        seg := by
          rw [hptrs', hlinks, h₂.links, hbridge, hhead₂]
          exact (hseg.unlink hn).pushFront hn' hnotin
        head := by rw [hhead₃, hptrs']; rfl
        tail := by
          rw [htail, h₂.tail, h₁.tail, hptrs']
          change (l₁.map (·.ptr) ++ l₂.map (·.ptr)).getLast?.or _ = _
          rw [List.getLast?_cons]
          cases (l₁.map (·.ptr) ++ l₂.map (·.ptr)).getLast? <;> rfl
        contents := fun x hx => by rw [hcontents]; exact h.contents x (hperm.mem_iff.mp hx)
        live := fun p hp => by
          rw [← isSome_contents, hcontents, isSome_contents] at hp
          exact (hperm.map (·.ptr)).mem_iff.mpr (h.live p hp)
        map := hmap.trans (h₂.map.trans (h₁.map.trans h.map))
        fresh := hfresh.trans (h₂.fresh.trans (h₁.fresh.trans h.fresh))
        count := by
          rw [hcount, h₂.count, h₁.count, hperm.length_eq]
          exact h.count }

/-! ### The scan of a slot -/

theorem exists_node_of_entry {a b : Option Ptr} {e : CacheEntry} (hl : c.links e.ptr = some ⟨a, b⟩)
    (hc : c.contents e.ptr = some (e.path, e.ssInfo)) :
    ∃ n, c.heap e.ptr = some n ∧ n.path = e.path ∧ n.ssInfo = e.ssInfo ∧ n.next = b := by
  obtain ⟨n, hn, -, hnext⟩ := exists_node hl
  have he : (n.path, n.ssInfo) = (e.path, e.ssInfo) := by
    simpa [LruCache.contents, hn] using hc
  exact ⟨n, hn, congrArg Prod.fst he, congrArg Prod.snd he, hnext⟩

theorem scanFrom_found {b : Option Ptr} (prevNode : Option Ptr) {fuel : ℕ} {e : CacheEntry}
    {l₁ l₂ : List CacheEntry} (hs : Seg c.links b ((l₁ ++ e :: l₂).map (·.ptr)) none)
    (hc : ∀ x ∈ l₁ ++ e :: l₂, c.contents x.ptr = some (x.path, x.ssInfo))
    (hl₁ : ∀ x ∈ l₁, x.path ≠ path) (he : e.path = path) (hfuel : l₁.length < fuel) :
    c.scanFrom path fuel prevNode ((l₁ ++ e :: l₂).map (·.ptr)).head? =
      some ((l₁.map (·.ptr)).getLast?.or prevNode, some e.ptr) := by
  induction l₁ generalizing b prevNode fuel with
  | nil =>
      obtain ⟨fuel, rfl⟩ := Nat.exists_eq_add_one_of_ne_zero (Nat.ne_zero_of_lt hfuel)
      obtain ⟨n, hn, hpath, -, -⟩ := exists_node_of_entry hs.1 (hc e (by simp))
      simp [scanFrom, hn, hpath, he]
  | cons x l₁ ih =>
      rw [List.cons_append, List.map_cons] at hs
      obtain ⟨fuel, rfl⟩ := Nat.exists_eq_add_one_of_ne_zero (Nat.ne_zero_of_lt hfuel)
      obtain ⟨n, hn, hpath, -, hnext⟩ := exists_node_of_entry hs.1 (hc x (by simp))
      have hx : n.path ≠ path := hpath ▸ hl₁ x (by simp)
      rw [Option.or_none] at hnext
      have hrest := ih (some x.ptr) hs.2 (fun y hy => hc y (List.mem_cons_of_mem _ hy))
        (fun y hy => hl₁ y (by simp [hy])) (Nat.lt_of_succ_lt_succ hfuel)
      simp only [List.cons_append, List.map_cons, List.head?_cons, scanFrom, hn,
        Option.bind_eq_bind, Option.bind_some, if_neg hx, hnext]
      rw [hrest, List.getLast?_cons]
      cases (l₁.map (·.ptr)).getLast? <;> rfl

theorem scanFrom_missed {b : Option Ptr} (prevNode : Option Ptr) {fuel : ℕ} {l : List CacheEntry}
    (hs : Seg c.links b (l.map (·.ptr)) none)
    (hc : ∀ x ∈ l, c.contents x.ptr = some (x.path, x.ssInfo))
    (hl : ∀ x ∈ l, x.path ≠ path) (hfuel : l.length < fuel) :
    ∃ q, c.scanFrom path fuel prevNode (l.map (·.ptr)).head? = some (q, none) := by
  induction l generalizing b prevNode fuel with
  | nil => exact ⟨prevNode, by cases fuel <;> rfl⟩
  | cons x l ih =>
      obtain ⟨fuel, rfl⟩ := Nat.exists_eq_add_one_of_ne_zero (Nat.ne_zero_of_lt hfuel)
      obtain ⟨n, hn, hpath, -, hnext⟩ := exists_node_of_entry hs.1 (hc x (by simp))
      have hx : n.path ≠ path := hpath ▸ hl x (by simp)
      rw [Option.or_none] at hnext
      obtain ⟨q, hq⟩ := ih (some x.ptr) hs.2
        (fun y hy => hc y (List.mem_cons_of_mem _ hy)) (fun y hy => hl y (by simp [hy]))
        (Nat.lt_of_succ_lt_succ hfuel)
      refine ⟨q, ?_⟩
      simp only [List.map_cons, List.head?_cons, scanFrom, hn, Option.bind_eq_bind,
        Option.bind_some, if_neg hx, hnext, hq]

theorem Represents.length_le_fresh (h : Represents c r) : r.entries.length ≤ c.fresh := by
  have hsub : r.ptrs ⊆ List.range r.fresh := fun p hp =>
    List.mem_range.mpr (h.wellFormed.below p hp)
  have hlen := (List.subperm_of_subset h.wellFormed.nodup hsub).length_le
  rw [List.length_range, RecencyList.ptrs, List.length_map] at hlen
  exact h.fresh ▸ hlen

theorem scan_undefined (h : Represents c r) (hl : r.lookup path = none) : c.scan path = none := by
  obtain ⟨p, hslot, hp⟩ := RecencyList.lookup_eq_none_iff.mp hl
  have hheap : c.heap p = none := by
    rw [← Option.not_isSome_iff_eq_none, h.isSome_iff]
    exact hp
  simp [scan, h.map, hslot, scanFrom, hheap]

theorem scan_missed (h : Represents c r) (hl : r.lookup path = some none) :
    ∃ q, c.scan path = some (q, none) := by
  obtain ⟨pre, es, hes, hslot, hne⟩ := RecencyList.lookup_missed hl
  rw [scan, h.map, hslot]
  have hseg := h.seg
  rw [RecencyList.ptrs, hes, List.map_append, DoublyLinked.seg_append] at hseg
  refine scanFrom_missed none hseg.2 (fun x hx => h.contents x (hes ▸ by simp [hx])) hne ?_
  have hlen := h.length_le_fresh
  rw [hes, List.length_append] at hlen
  omega

theorem scan_found {e : CacheEntry} {pre l₁ l₂ : List CacheEntry} (h : Represents c r)
    (hes : r.entries = pre ++ (l₁ ++ e :: l₂))
    (hslot : r.slots (hashPath path) = ((l₁ ++ e :: l₂).map (·.ptr)).head?)
    (hl₁ : ∀ x ∈ l₁, x.path ≠ path) (he : e.path = path) :
    c.scan path = some ((l₁.map (·.ptr)).getLast?, some e.ptr) := by
  have hseg := h.seg
  rw [RecencyList.ptrs, hes, List.map_append, DoublyLinked.seg_append] at hseg
  have hlen := h.length_le_fresh
  rw [hes, List.length_append, List.length_append, List.length_cons] at hlen
  rw [scan, h.map, hslot, scanFrom_found none hseg.2 (fun x hx => h.contents x (hes ▸ by simp_all))
    hl₁ he (by omega), Option.or_none]

/-! ### The operations -/

theorem contents_free (p q : Ptr) :
    (c.free p).contents q = if q = p then none else c.contents q := by
  by_cases hq : q = p <;> simp [LruCache.contents, free, hq]

theorem links_free (p q : Ptr) : (c.free p).links q = if q = p then none else c.links q := by
  by_cases hq : q = p <;> simp [links, free, hq]

/-- Eviction leaves `head` alone, which is right for a full list as it is not its only node. -/
theorem evict_spec (h : Represents c r) (hfull : r.entries.length = lruCacheSize) :
    ∃ c', c.evict = some c' ∧ Represents c' r.evict := by
  obtain ⟨l, e, hes⟩ := (List.eq_nil_or_concat' r.entries).resolve_left
    (by rintro h0; simp [h0] at hfull)
  have hr : r.evict = { r with
      entries := l
      slots := if r.slots (hashPath e.path) = some e.ptr then
        Function.update r.slots (hashPath e.path) none else r.slots } := by
    simp [RecencyList.evict, hes]
  have hptrs : r.ptrs = l.map (·.ptr) ++ [e.ptr] := by simp [RecencyList.ptrs, hes]
  have hseg := hptrs ▸ h.seg
  have hn := hptrs ▸ h.wellFormed.nodup
  have hnotin : e.ptr ∉ l.map (·.ptr) := fun hp =>
    (List.nodup_append.mp hn).2.2 _ hp e.ptr (by simp) rfl
  have htail : c.tail = some e.ptr := by rw [h.tail, hptrs]; simp
  have hlink : c.links e.ptr = _ := hseg.lookup
  obtain ⟨n, hnode, hprev, -⟩ := exists_node hlink
  have hpath : n.path = e.path := by
    have hc := h.contents e (by simp [hes])
    simp only [LruCache.contents, hnode, Option.map_some, Option.some.injEq, Prod.mk.injEq] at hc
    exact hc.1
  rw [Option.or_none] at hprev
  obtain ⟨c₁, hc₁, h₁⟩ := whenLinked_setNext_spec none
    (c := { c with map := r.evict.slots, tail := (l.map (·.ptr)).getLast? })
    (o := (l.map (·.ptr)).getLast?) fun q hq => h.isSome_iff.mpr
      (hptrs ▸ List.mem_append_left _ (List.mem_of_getLast? hq))
  refine ⟨{ c₁.free e.ptr with count := c₁.count - 1 }, ?_, ?_⟩
  · have hslots : (c.clearSlot (hashPath e.path) e.ptr).map = r.evict.slots := by
      rw [hr, ← h.map]
      rfl
    simp only [evict, htail, hnode, Option.bind_eq_bind, Option.bind_some, hpath, hslots, hprev]
    exact congrArg (Option.bind · _) hc₁
  · have hc : ∀ q, q ≠ e.ptr → (c₁.free e.ptr).contents q = c.contents q := fun q hq => by
      rw [contents_free, if_neg hq, h₁.contents]
      rfl
    have hsub : r.evict.entries.Sublist r.entries := by
      rw [hr, hes]
      exact List.sublist_append_left l [e]
    have hptrs' : r.evict.ptrs = l.map (·.ptr) := by rw [hr]; rfl
    exact {
      wellFormed := h.wellFormed.of_subperm hsub.subperm (by rw [hr])
      seg := by
        rw [hptrs']
        change Seg (c₁.free e.ptr).links none _ none
        refine ((DoublyLinked.seg_append.mp hseg).1.setNext_getLast
          (List.nodup_append.mp hn).1).congr fun q hq => ?_
        rw [links_free, if_neg (ne_of_mem_of_not_mem hq hnotin), h₁.links]
        rfl
      head := by
        rw [hptrs']
        refine h₁.head.trans (h.head.trans ?_)
        rw [hptrs]
        cases l with
        | nil => simp [hes, lruCacheSize] at hfull
        | cons x l => rfl
      tail := by rw [hptrs']; exact h₁.tail
      contents := fun x hx => by
        have hxl : x ∈ l := by rw [hr] at hx; exact hx
        refine (hc _ ?_).trans (h.contents x (hsub.subset hx))
        exact ne_of_mem_of_not_mem (List.mem_map_of_mem hxl) hnotin
      live := fun p hp => by
        change ((c₁.free e.ptr).heap p).isSome at hp
        rw [← isSome_contents, contents_free] at hp
        by_cases hpe : p = e.ptr
        · simp [hpe] at hp
        · rw [if_neg hpe, h₁.contents, isSome_contents] at hp
          have hmem := h.live p hp
          rw [hptrs, List.mem_append, List.mem_singleton] at hmem
          exact hptrs' ▸ hmem.resolve_right hpe
      map := h₁.map
      fresh := by rw [hr]; exact h₁.fresh.trans h.fresh
      count := by
        change c₁.count - 1 = _
        rw [h₁.count, hr]
        change c.count - 1 = _
        rw [h.count, hes, List.length_append]
        simp }

theorem insertNode_spec (h : Represents c r) (hroom : r.entries.length < lruCacheSize)
    (path : Path) (ssInfo : StorageServerInfo) :
    ∃ c', c.insertNode path ssInfo = some c' ∧ Represents c' (r.insert path ssInfo) := by
  have hnotin : c.fresh ∉ r.ptrs := fun hp =>
    (h.wellFormed.below _ hp).ne h.fresh
  let c₀ : LruCache := { c with
    heap := Function.update c.heap c.fresh (some ⟨path, ssInfo, none, none⟩)
    fresh := c.fresh + 1 }
  have hother : ∀ q, q ∈ r.ptrs → c₀.heap q = c.heap q := fun q hq =>
    Function.update_of_ne (ne_of_mem_of_not_mem hq hnotin) _ _
  have hnew : c₀.heap c.fresh = some ⟨path, ssInfo, none, none⟩ := Function.update_self _ _ _
  obtain ⟨c₁, hc₁, hlinks, hcont, hmap, hfresh, hcount, hhead, htail⟩ :=
    linkFront_spec (c := c₀) (p := c.fresh) (by rw [hnew]; rfl) fun q hq => by
      have hq' : q ∈ r.ptrs := List.mem_of_head? (h.head ▸ hq)
      rw [hother q hq']
      exact h.isSome_iff.mpr hq'
  refine ⟨_, by simp only [insertNode]; exact congrArg (Option.bind · _) hc₁, ?_⟩
  have hptrs : (r.insert path ssInfo).ptrs = c.fresh :: r.ptrs := by
    rw [h.fresh]
    rfl
  exact {
    wellFormed := by
      refine ⟨hptrs ▸ List.nodup_cons.mpr ⟨hnotin, h.wellFormed.nodup⟩, fun p hp => ?_, ?_⟩
      · rw [hptrs, List.mem_cons] at hp
        change p < r.fresh + 1
        rcases hp with rfl | hp
        · exact Nat.lt_succ_of_le h.fresh.le
        · exact Nat.lt_succ_of_lt (h.wellFormed.below p hp)
      · exact hroom
    seg := by
      rw [hptrs]
      change Seg c₁.links none _ none
      have hseg : Seg c₀.links none r.ptrs none := h.seg.congr fun q hq => by
        simp only [links, hother q hq]
      rw [hlinks]
      change Seg (DoublyLinked.pushFront c₀.links c.fresh c.head) none _ none
      rw [h.head]
      exact hseg.pushFront h.wellFormed.nodup hnotin
    head := by rw [hptrs]; exact hhead
    tail := by
      rw [hptrs, List.getLast?_cons]
      refine htail.trans ?_
      change c.tail.or _ = _
      rw [h.tail]
      cases r.ptrs.getLast? <;> rfl
    contents := fun x hx => by
      change c₁.contents x.ptr = _
      rw [hcont]
      rcases List.mem_cons.mp hx with rfl | hx
      · change (c₀.heap r.fresh).map _ = _
        rw [← h.fresh, hnew]
        rfl
      · simp only [LruCache.contents, hother _ (RecencyList.ptr_mem hx)]
        exact h.contents x hx
    live := fun p hp => by
      change (c₁.heap p).isSome at hp
      rw [← isSome_contents, hcont, isSome_contents] at hp
      rw [hptrs, List.mem_cons]
      by_cases hpc : p = c.fresh
      · exact Or.inl hpc
      · refine Or.inr (h.live p ?_)
        rwa [← Function.update_of_ne hpc (some ⟨path, ssInfo, none, none⟩) c.heap]
    map := by
      change Function.update c₁.map _ _ = Function.update r.slots _ _
      rw [hmap, h.fresh]
      exact congrArg (Function.update · (hashPath path) (some r.fresh)) h.map
    fresh := by
      change c₁.fresh = r.fresh + 1
      rw [hfresh, ← h.fresh]
    count := by
      change c₁.count + 1 = ((r.entries.length + 1 : ℕ) : ℤ)
      have hc := h.count
      rw [hcount]
      change c.count + 1 = _
      omega }

theorem unlinkFromSlot_spec {a b : Option Ptr} (index : Fin lruCacheSize) (prevNode : Option Ptr)
    (hp : c.links p = some ⟨a, b⟩) (ha : ∀ q, a = some q → (c.heap q).isSome)
    (hap : a ≠ some p) (hprev : ∀ q, prevNode = some q → a = some q) :
    ∃ c', c.unlinkFromSlot index b prevNode = some c' ∧
      Relinked { c with map := prevNode.elim (Function.update c.map index b) fun _ => c.map }
        c' c'.links ∧
      c'.links p = some ⟨a, b⟩ ∧
      DoublyLinked.bridge c'.links a b = DoublyLinked.bridge c.links a b := by
  cases prevNode with
  | none => exact ⟨_, rfl, ⟨rfl, rfl, rfl, rfl, rfl, rfl, rfl⟩, hp, rfl⟩
  | some q =>
      obtain rfl := hprev q rfl
      obtain ⟨c', hc', h'⟩ := setNext_spec b (ha q rfl)
      refine ⟨c', hc', h'.links ▸ h', ?_, ?_⟩
      · rw [h'.links, DoublyLinked.setNext_of_ne fun h => hap (by rw [h]), hp]
      · rw [h'.links, DoublyLinked.bridge_setNext]

theorem head_erase {l₁ l₂ : List Ptr} (hp : p ∉ l₁) :
    (if (l₁ ++ p :: l₂).head? = some p then l₂.head? else (l₁ ++ p :: l₂).head?) =
      (l₁ ++ l₂).head? := by
  cases l₁ with
  | nil => simp
  | cons x l₁ =>
      have hx : x ≠ p := fun h => hp (by simp [h])
      simp [hx]

theorem getLast_erase {l₁ l₂ : List Ptr} (hp : p ∉ l₂) :
    (if (l₁ ++ p :: l₂).getLast? = some p then l₁.getLast? else (l₁ ++ p :: l₂).getLast?) =
      (l₁ ++ l₂).getLast? := by
  rcases List.eq_nil_or_concat' l₂ with rfl | ⟨l₂, x, rfl⟩
  · simp
  · have hx : x ≠ p := fun h => hp (by simp [h])
    have hlast : (l₁ ++ p :: (l₂ ++ [x])).getLast? = some x := by
      rw [← List.cons_append, ← List.append_assoc, List.getLast?_concat]
    rw [hlast, if_neg (by simpa using hx), ← List.append_assoc, List.getLast?_concat]

theorem lruRemove_spec {e : CacheEntry} {pre l₁ l₂ : List CacheEntry} (h : Represents c r)
    (hes : r.entries = pre ++ (l₁ ++ e :: l₂))
    (hslot : r.slots (hashPath path) = ((l₁ ++ e :: l₂).map (·.ptr)).head?)
    (hl₁ : ∀ x ∈ l₁, x.path ≠ path) (he : e.path = path) :
    ∃ c', c.lruRemove path = some c' ∧ Represents c' (r.removeEntry path e) := by
  have hes' : r.entries = (pre ++ l₁) ++ e :: l₂ := by rw [hes, List.append_assoc]
  have hwithout := RecencyList.without_eq h.wellFormed hes'
  have hsucc := RecencyList.successor_eq h.wellFormed hes'
  have hptrs : r.ptrs = (pre ++ l₁).map (·.ptr) ++ e.ptr :: l₂.map (·.ptr) := by
    simp [RecencyList.ptrs, hes']
  have hseg := hptrs ▸ h.seg
  have hn := hptrs ▸ h.wellFormed.nodup
  obtain ⟨hnotin, hn'⟩ := List.nodup_cons.mp (List.nodup_middle.mp hn)
  obtain ⟨hnotin₁, hnotin₂⟩ := not_or.mp (mt List.mem_append.mpr hnotin)
  have hlink : c.links e.ptr = _ := hseg.lookup
  rw [Option.or_none, Option.or_none] at hlink
  have hlive : ∀ {q}, q ∈ r.ptrs → (c.heap q).isSome := h.isSome_iff.mpr
  have ha : ∀ q, ((pre ++ l₁).map (·.ptr)).getLast? = some q → (c.heap q).isSome := fun q hq =>
    hlive (hptrs ▸ List.mem_append_left _ (List.mem_of_getLast? hq))
  have hap : ((pre ++ l₁).map (·.ptr)).getLast? ≠ some e.ptr := fun hq =>
    hnotin₁ (List.mem_of_getLast? hq)
  obtain ⟨n, hnode, -, hnext⟩ := exists_node hlink
  obtain ⟨c₁, hc₁, h₁, hlink₁, hbridge⟩ := unlinkFromSlot_spec (hashPath path)
    (l₁.map (·.ptr)).getLast? hlink ha hap fun q hq => by
      rw [List.map_append, List.getLast?_append, hq, Option.some_or]
  have hlive₁ : ∀ {q}, q ∈ r.ptrs → (c₁.heap q).isSome := fun hq => h₁.isSome _ ▸ hlive hq
  obtain ⟨c₂, hc₂, h₂⟩ := unlinkNode_spec hlink₁ hap
    (fun q hq => hlive₁ (hptrs ▸ List.mem_append_left _ (List.mem_of_getLast? hq)))
    (fun q hq => hlive₁ (hptrs ▸ List.mem_append_right _
      (List.mem_cons_of_mem _ (List.mem_of_head? hq))))
  have hlink₂ : c₂.links e.ptr = some ⟨((pre ++ l₁).map (·.ptr)).getLast?,
      (l₂.map (·.ptr)).head?⟩ := by
    rw [h₂.links, DoublyLinked.bridge_of_notMem hnotin₁ hnotin₂, hlink₁]
  obtain ⟨n₂, hnode₂, hprev₂, hnext₂⟩ := exists_node hlink₂
  have hhead₂ : c₂.head = r.ptrs.head? := (h₂.head.trans h₁.head).trans h.head
  have htail₂ : c₂.tail = r.ptrs.getLast? := (h₂.tail.trans h₁.tail).trans h.tail
  have hcontents : c₂.contents = c.contents := h₂.contents.trans h₁.contents
  let c₃ : LruCache := { c₂.free e.ptr with
    head := if c₂.head = some e.ptr then n₂.next else c₂.head
    tail := if c₂.tail = some e.ptr then n₂.prev else c₂.tail
    count := c₂.count - 1 }
  have hrun : c.lruRemove path = some c₃ := by
    simp only [lruRemove, scan_found h hes hslot hl₁ he, hnode, hnext, hc₁, hc₂, hnode₂,
      Option.bind_eq_bind, Option.bind_some]
    rfl
  have hptrs' : (r.without e.ptr).map (·.ptr) = (pre ++ l₁).map (·.ptr) ++ l₂.map (·.ptr) := by
    rw [hwithout, List.map_append]
  have hsub : (r.without e.ptr).Sublist r.entries := List.filter_sublist
  refine ⟨c₃, hrun, ?_⟩
  exact {
    wellFormed := h.wellFormed.of_subperm hsub.subperm rfl
    seg := by
      refine (congrArg (Seg c₃.links none · none) hptrs').mpr ?_
      refine (hseg.unlink hn).congr fun q hq => ?_
      change (c₂.free e.ptr).links q = _
      rw [links_free, if_neg (ne_of_mem_of_not_mem hq hnotin), h₂.links, hbridge]
    head := by
      refine Eq.trans ?_ (congrArg List.head? hptrs').symm
      change (if c₂.head = some e.ptr then n₂.next else c₂.head) = _
      rw [hnext₂, hhead₂, hptrs, head_erase hnotin₁]
    tail := by
      refine Eq.trans ?_ (congrArg List.getLast? hptrs').symm
      change (if c₂.tail = some e.ptr then n₂.prev else c₂.tail) = _
      rw [hprev₂, htail₂, hptrs, getLast_erase hnotin₂]
    contents := fun x hx => by
      have hxe : x.ptr ≠ e.ptr := by simpa using List.of_mem_filter hx
      change (c₂.free e.ptr).contents x.ptr = _
      rw [contents_free, if_neg hxe, hcontents]
      exact h.contents x (hsub.subset hx)
    live := fun q hq => by
      change ((c₂.free e.ptr).heap q).isSome at hq
      rw [← isSome_contents, contents_free] at hq
      by_cases hqe : q = e.ptr
      · simp [hqe] at hq
      · rw [if_neg hqe, hcontents, isSome_contents] at hq
        obtain ⟨x, hx, rfl⟩ := List.mem_map.mp (h.live q hq)
        exact List.mem_map_of_mem (List.mem_filter.mpr ⟨hx, by simpa using hqe⟩)
    map := by
      change c₂.map = _
      rw [h₂.map, h₁.map, RecencyList.slots_removeEntry, hsucc]
      cases l₁ with
      | nil =>
          have hslot' : r.slots (hashPath path) = some e.ptr := hslot
          rw [if_pos hslot', ← h.map]
          rfl
      | cons x l₁ =>
          have hx : x.ptr ≠ e.ptr := fun hx => hnotin₁ (by simp [hx])
          have hslot' : r.slots (hashPath path) = some x.ptr := hslot
          rw [if_neg (by simpa [hslot'] using hx), ← h.map, List.map_cons, List.getLast?_cons]
          rfl
    fresh := (h₂.fresh.trans h₁.fresh).trans h.fresh
    count := by
      change c₂.count - 1 = ((r.without e.ptr).length : ℤ)
      have hcount : c₂.count = r.entries.length := (h₂.count.trans h₁.count).trans h.count
      rw [hcount, hwithout, hes']
      simp only [List.length_append, List.length_cons]
      omega }

theorem setInfo_spec {e : CacheEntry} {l₁ l₂ : List CacheEntry} (h : Represents c r)
    (hes : r.entries = l₁ ++ e :: l₂) (ssInfo : StorageServerInfo) :
    ∃ c', c.setInfo ssInfo e.ptr = some c' ∧
      Represents c' { r with entries := l₁ ++ { e with ssInfo := ssInfo } :: l₂ } := by
  obtain ⟨n, hn⟩ := Option.isSome_iff_exists.mp
    (h.isSome_iff.mpr (RecencyList.ptr_mem (e := e) (by simp [hes])))
  have hpath : n.path = e.path := by
    have hc := h.contents e (by simp [hes])
    simp only [LruCache.contents, hn, Option.map_some, Option.some.injEq, Prod.mk.injEq] at hc
    exact hc.1
  have hptrs : RecencyList.ptrs { r with
      entries := l₁ ++ { e with ssInfo := ssInfo } :: l₂ } = r.ptrs := by
    simp [RecencyList.ptrs, hes]
  have hother := RecencyList.notMem_of_nodup (by simpa only [RecencyList.ptrs, hes] using
    h.wellFormed.nodup)
  refine ⟨_, modify_eq hn _, ?_⟩
  exact {
    wellFormed := by
      refine ⟨hptrs.symm ▸ h.wellFormed.nodup, fun q hq => h.wellFormed.below q (hptrs ▸ hq), ?_⟩
      simpa [hes] using h.wellFormed.bounded
    seg := by
      refine (congrArg (Seg _ none · none) hptrs).mpr (h.seg.congr fun q _ => ?_)
      by_cases hq : q = e.ptr
      · subst q
        simp [links, hn]
      · simp [links, Function.update_of_ne hq]
    head := h.head.trans (congrArg List.head? hptrs.symm)
    tail := h.tail.trans (congrArg List.getLast? hptrs.symm)
    contents := fun x hx => by
      rcases List.mem_append.mp hx with hx | hx
      · have hxe := hother x (List.mem_append_left _ hx)
        simp only [LruCache.contents, Function.update_of_ne hxe]
        exact h.contents x (by simp [hes, hx])
      · rcases List.mem_cons.mp hx with rfl | hx
        · simp [LruCache.contents, hpath]
        · have hxe := hother x (List.mem_append_right _ hx)
          simp only [LruCache.contents, Function.update_of_ne hxe]
          exact h.contents x (by simp [hes, hx])
    live := fun q hq => by
      refine hptrs.symm ▸ h.live q ?_
      by_cases hqe : q = e.ptr
      · rw [hqe, hn]
        rfl
      · simpa only [Function.update_of_ne hqe] using hq
    map := h.map
    fresh := h.fresh
    count := by
      refine h.count.trans ?_
      simp [hes] }

/-! ### Refinement -/

theorem lruGet_refines (h : Represents c r) (path : Path) :
    Option.Rel (fun x y => Represents x.1 y.1 ∧ x.2 = y.2) (c.lruGet path) (r.lruGet path) := by
  cases hl : r.lookup path with
  | none =>
      simp only [lruGet, RecencyList.lruGet, hl, scan_undefined h hl, Option.bind_eq_bind,
        Option.bind_none, Option.map_none]
      exact .none
  | some found =>
      cases found with
      | none =>
          obtain ⟨q, hq⟩ := scan_missed h hl
          simp only [lruGet, RecencyList.lruGet, hl, hq, Option.bind_eq_bind, Option.bind_some,
            Option.map_some]
          exact .some ⟨h, rfl⟩
      | some e =>
          obtain ⟨pre, l₁, l₂, hes, hslot, hl₁, he⟩ := RecencyList.lookup_found hl
          obtain ⟨c', hc', h'⟩ := moveToFront_spec h (e := e) (by simp [hes])
          have hcont := h'.contents e (by simp [RecencyList.moveToFront])
          obtain ⟨n, hn, hne⟩ := Option.map_eq_some_iff.mp hcont
          have hinfo : n.ssInfo = e.ssInfo := congrArg Prod.snd hne
          simp only [lruGet, RecencyList.lruGet, hl, scan_found h hes hslot hl₁ he, hc', hn,
            Option.bind_eq_bind, Option.bind_some, Option.map_some]
          exact .some ⟨h', congrArg some hinfo⟩

theorem makeRoom_spec (h : Represents c r) :
    ∃ c', c.makeRoom = some c' ∧ Represents c' r.makeRoom ∧
      r.makeRoom.entries.length < lruCacheSize := by
  have hcount := h.count
  by_cases hfull : r.entries.length = lruCacheSize
  · obtain ⟨c', hc', h'⟩ := evict_spec h hfull
    refine ⟨c', ?_, ?_, ?_⟩
    · rw [makeRoom, if_pos (by rw [hcount, hfull]), hc']
    · rwa [RecencyList.makeRoom, if_pos hfull]
    · rw [RecencyList.makeRoom, if_pos hfull, RecencyList.evict]
      cases hlast : r.entries.getLast? with
      | none => simp [List.getLast?_eq_none_iff.mp hlast] at hfull
      | some e => simp [hfull]
  · refine ⟨c, ?_, ?_, ?_⟩
    · rw [makeRoom, if_neg]
      rw [hcount]
      exact_mod_cast hfull
    · rwa [RecencyList.makeRoom, if_neg hfull]
    · rw [RecencyList.makeRoom, if_neg hfull]
      exact lt_of_le_of_ne h.wellFormed.bounded hfull

theorem lruPut_refines (h : Represents c r) (path : Path) (ssInfo : StorageServerInfo)
    (malloc : Bool) :
    Option.Rel Represents (c.lruPut path ssInfo malloc) (r.lruPut path ssInfo malloc) := by
  cases hl : r.lookup path with
  | none =>
      simp only [lruPut, RecencyList.lruPut, hl, scan_undefined h hl, Option.bind_eq_bind,
        Option.bind_none, Option.map_none]
      exact .none
  | some found =>
      cases found with
      | none =>
          obtain ⟨q, hq⟩ := scan_missed h hl
          obtain ⟨c', hc', h', hroom⟩ := makeRoom_spec h
          obtain ⟨c'', hc'', h''⟩ := insertNode_spec h' hroom path ssInfo
          simp only [lruPut, RecencyList.lruPut, hl, hq, hc', Option.bind_eq_bind,
            Option.bind_some, Option.map_some]
          cases malloc with
          | false => exact .some h'
          | true =>
              rw [if_pos rfl, if_pos rfl, hc'']
              exact .some h''
      | some e =>
          obtain ⟨pre, l₁, l₂, hes, hslot, hl₁, he⟩ := RecencyList.lookup_found hl
          have hes' : r.entries = (pre ++ l₁) ++ e :: l₂ := by rw [hes, List.append_assoc]
          obtain ⟨c', hc', h'⟩ := setInfo_spec h hes' ssInfo
          obtain ⟨c'', hc'', h''⟩ := moveToFront_spec h' (e := { e with ssInfo := ssInfo })
            (by simp)
          have hmoved : RecencyList.moveToFront
              { r with entries := (pre ++ l₁) ++ { e with ssInfo := ssInfo } :: l₂ }
              { e with ssInfo := ssInfo } = r.moveToFront { e with ssInfo := ssInfo } := by
            have hw := RecencyList.without_eq h'.wellFormed rfl
            have hw' := RecencyList.without_eq h.wellFormed hes'
            simp only [RecencyList.moveToFront, hw, hw']
          rw [hmoved] at h''
          simp only [lruPut, RecencyList.lruPut, hl, scan_found h hes hslot hl₁ he, hc', hc'',
            Option.bind_eq_bind, Option.bind_some, Option.map_some]
          exact .some h''

theorem lruRemove_refines (h : Represents c r) (path : Path) :
    Option.Rel Represents (c.lruRemove path) (r.lruRemove path) := by
  cases hl : r.lookup path with
  | none =>
      simp only [lruRemove, RecencyList.lruRemove, hl, scan_undefined h hl, Option.bind_eq_bind,
        Option.bind_none, Option.map_none]
      exact .none
  | some found =>
      cases found with
      | none =>
          obtain ⟨q, hq⟩ := scan_missed h hl
          simp only [lruRemove, RecencyList.lruRemove, hl, hq, Option.bind_eq_bind,
            Option.bind_some, Option.map_some]
          exact .some h
      | some e =>
          obtain ⟨pre, l₁, l₂, hes, hslot, hl₁, he⟩ := RecencyList.lookup_found hl
          obtain ⟨c', hc', h'⟩ := lruRemove_spec h hes hslot hl₁ he
          rw [hc', RecencyList.lruRemove_found hl]
          exact .some h'

/-- Every cache operation is defined exactly when it is on the recency list. -/
theorem apply_refines (h : Represents c r) (op : LruOp) :
    Option.Rel Represents (c.apply op) (r.apply op) := by
  cases op with
  | put path ssInfo malloc => exact lruPut_refines h path ssInfo malloc
  | get path =>
      have hrel := lruGet_refines h path
      rw [apply, RecencyList.apply]
      generalize c.lruGet path = x at hrel ⊢
      generalize r.lruGet path = y at hrel ⊢
      cases hrel with
      | some hxy => exact .some hxy.1
      | none => exact .none
  | remove path => exact lruRemove_refines h path

/-- The runs of the code are those of the recency list. -/
theorem run_refines (ops : List LruOp) :
    Option.Rel Represents (Machine.run apply lruInit ops)
      (Machine.run RecencyList.apply .init ops) :=
  Machine.run_rel (fun _ _ op h => apply_refines h op) represents_lruInit ops

end NetworkFileSystem.LruCache
