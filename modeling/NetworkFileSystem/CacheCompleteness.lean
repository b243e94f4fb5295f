import NetworkFileSystem.CacheSequence
import NetworkFileSystem.Library.Interleaving
import Mathlib.Data.Finset.Dedup

/-!
# Recently used paths are found

Colliding paths share a slot, and a search only visits the nodes behind that of the slot. If every
hit is at the slot itself, no node ever gets in front of the node of its slot, each path has one
node, and a path is found until as many others were used as the cache has room for.
-/

namespace NetworkFileSystem

open Interleaving Recency

/-- What an operation means for the recency of its path. -/
inductive CacheEvent
  /-- A put stored the path, or a put or a lookup found it. -/
  | used (path : Path)
  /-- A put found no node, and got no memory for one. -/
  | unstored (path : Path)
  | removed (path : Path)
  deriving DecidableEq

namespace CacheEvent

def usedPath : CacheEvent → Option Path
  | used path => some path
  | _ => none

/-- The path that was put or hit. -/
def putPath : CacheEvent → Option Path
  | used path | unstored path => some path
  | removed _ => none

end CacheEvent

/-- The events of an operation, given whether the search for its path finds a node. -/
def LruOp.events : LruOp → Bool → List CacheEvent
  | .get path, found => if found then [.used path] else []
  | .put path _ malloc, found => [if found || malloc then .used path else .unstored path]
  | .remove path, _ => [.removed path]

/-- The paths, other than this one, that were put or hit. -/
def otherPaths (log : List CacheEvent) (path : Path) : Finset Path :=
  (log.filterMap CacheEvent.putPath).toFinset.erase path

theorem otherPaths_subset_append (log log' : List CacheEvent) (path : Path) :
    otherPaths log path ⊆ otherPaths (log ++ log') path := by
  intro q hq
  simp only [otherPaths, List.filterMap_append, Finset.mem_erase, List.mem_toFinset,
    List.mem_append] at hq ⊢
  exact ⟨hq.1, Or.inl hq.2⟩

theorem mem_otherPaths {log : List CacheEvent} {path q : Path} :
    q ∈ otherPaths log path ↔ q ≠ path ∧ ∃ e ∈ log, e.putPath = some q := by
  simp [otherPaths]

namespace RecencyList

variable {r r' : RecencyList} {path : Path} {e x : CacheEntry} {op : LruOp}
  {log : List CacheEvent} {p : Ptr} {ssInfo : StorageServerInfo}

def paths (r : RecencyList) : List Path := r.entries.map (·.path)

/-- Each entry has its own path, and stands at or behind the entry that its slot refers to, unless
that is gone. -/
structure AllSeen (r : RecencyList) : Prop where
  nodup : r.paths.Nodup
  seen : ∀ e ∈ r.entries, ∃ p, r.slots (hashPath e.path) = some p ∧
    (p ∈ r.ptrs → p = e.ptr ∨ Precedes r.ptrs p e.ptr)

theorem AllSeen.inj (h : AllSeen r) (he : e ∈ r.entries) (hx : x ∈ r.entries)
    (hpath : x.path = e.path) : x = e :=
  List.inj_on_of_nodup_map h.nodup hx he hpath

theorem WellFormed.inj (hr : r.WellFormed) (he : e ∈ r.entries) (hx : x ∈ r.entries)
    (hptr : x.ptr = e.ptr) : x = e :=
  List.inj_on_of_nodup_map hr.nodup hx he hptr

/-- A search that is defined finds the entry of its path. -/
theorem AllSeen.lookup (hr : r.WellFormed) (h : AllSeen r) (he : e ∈ r.entries)
    {o : Option CacheEntry} (ho : r.lookup e.path = some o) : o = some e := by
  cases o with
  | some x =>
      obtain ⟨hx, hpath⟩ := lookup_found_mem ho
      exact congrArg some (h.inj he hx hpath)
  | none =>
      obtain ⟨pre, es, hes, hslot, hne⟩ := lookup_missed ho
      obtain ⟨p, hp, hseen⟩ := h.seen e he
      rw [hp] at hslot
      obtain ⟨l, hl⟩ := List.head?_eq_some_iff.mp hslot.symm
      have hptrs : r.ptrs = pre.map (·.ptr) ++ es.map (·.ptr) := by
        rw [ptrs, hes, List.map_append]
      have hpes : p ∈ es.map (·.ptr) := by simp [hl]
      have hpre : e ∈ pre := by
        rw [hes, List.mem_append] at he
        exact he.resolve_right fun hmem => hne e hmem rfl
      have hn := hr.nodup
      rw [hptrs] at hn hseen
      have hahead : Precedes (pre.map (·.ptr) ++ es.map (·.ptr)) e.ptr p :=
        precedes_append.mpr (Or.inr (Or.inl ⟨List.mem_map_of_mem hpre, hpes⟩))
      rcases hseen (List.mem_append_right _ hpes) with rfl | hbehind
      · exact absurd hpes (List.disjoint_of_nodup_append hn (List.mem_map_of_mem hpre))
      · exact absurd hahead (hbehind.asymm hn)

theorem AllSeen.notMem_of_missed (hr : r.WellFormed) (h : AllSeen r)
    (ho : r.lookup path = some none) : path ∉ r.paths := by
  intro hmem
  obtain ⟨e, he, rfl⟩ := List.mem_map.mp hmem
  cases h.lookup hr he ho

/-! ### What the operations keep -/

theorem ptrs_moveToFront (e : CacheEntry) :
    (r.moveToFront e).ptrs = e.ptr :: (r.without e.ptr).map (·.ptr) := rfl

theorem ptrs_without_sublist (p : Ptr) : ((r.without p).map (·.ptr)).Sublist r.ptrs :=
  List.filter_sublist.map _

theorem mem_ptrs_without {q : Ptr} : q ∈ (r.without p).map (·.ptr) ↔ q ∈ r.ptrs ∧ q ≠ p := by
  simp only [without, ptrs, List.mem_map, List.mem_filter]
  constructor
  · rintro ⟨x, ⟨hx, hne⟩, rfl⟩
    exact ⟨⟨x, hx, rfl⟩, by simpa using hne⟩
  · rintro ⟨⟨x, hx, rfl⟩, hne⟩
    exact ⟨x, ⟨hx, by simpa using hne⟩, rfl⟩

/-- A hit at the slot brings the node of the slot to the front. -/
theorem AllSeen.moveToFront (hr : r.WellFormed) (h : AllSeen r) (he : e ∈ r.entries)
    (hslot : r.slots (hashPath e.path) = some e.ptr) :
    AllSeen (r.moveToFront { e with ssInfo := ssInfo }) := by
  obtain ⟨l₁, l₂, hes⟩ := List.append_of_mem he
  have hpaths : (r.moveToFront { e with ssInfo := ssInfo }).paths = (r.moveToFront e).paths := rfl
  have hperm : (r.moveToFront { e with ssInfo := ssInfo }).paths.Perm r.paths := by
    rw [hpaths]
    exact (moveToFront_perm hr hes).map (·.path)
  refine ⟨hperm.nodup_iff.mpr h.nodup, fun x hx => ?_⟩
  rw [ptrs_moveToFront]
  rcases List.mem_cons.mp hx with rfl | hx
  · exact ⟨e.ptr, hslot, fun _ => Or.inl rfl⟩
  · obtain ⟨hx, hne⟩ := List.mem_filter.mp hx
    have hne : x.ptr ≠ e.ptr := by simpa using hne
    have hxptr : x.ptr ∈ (r.without e.ptr).map (·.ptr) :=
      mem_ptrs_without.mpr ⟨ptr_mem hx, hne⟩
    obtain ⟨p, hp, hseen⟩ := h.seen x hx
    refine ⟨p, hp, fun hmem => ?_⟩
    rcases List.mem_cons.mp hmem with rfl | hmem
    · exact Or.inr ((List.singleton_sublist.mpr hxptr).cons_cons _)
    · obtain ⟨hmem', -⟩ := mem_ptrs_without.mp hmem
      refine (hseen hmem').imp_right fun hbefore => ?_
      exact (hbefore.of_sublist hr.nodup (ptrs_without_sublist _) hmem hxptr).trans
        (List.sublist_cons_self _ _)

/-- Eviction takes the last entry; no other entry stands behind it. -/
theorem AllSeen.makeRoom (hr : r.WellFormed) (h : AllSeen r) : AllSeen r.makeRoom := by
  refine ⟨h.nodup.sublist ((makeRoom_sublist r).map _), fun x hx => ?_⟩
  have hsub : r.makeRoom.ptrs.Sublist r.ptrs := (makeRoom_sublist r).map _
  have hxr := mem_of_makeRoom hx
  obtain ⟨p, hp, hseen⟩ := h.seen x hxr
  refine ⟨p, slots_makeRoom.mpr ⟨hp, ?_⟩, fun hmem => ?_⟩
  · rintro e he ⟨rfl, -⟩
    have hxe := ((mem_ptrs_makeRoom hr).mp (ptr_mem hx)).2 e he
    rw [evicted] at he
    split_ifs at he
    obtain ⟨l, hl⟩ := List.getLast?_eq_some_iff.mp he
    have hptrs : r.ptrs = l.map (·.ptr) ++ [e.ptr] := by rw [ptrs, hl, List.map_append]; rfl
    have hlast : Precedes r.ptrs x.ptr e.ptr := by
      rw [hptrs]
      refine precedes_append.mpr (Or.inr (Or.inl ⟨?_, by simp⟩))
      have hmem := ptr_mem hxr
      rw [hptrs, List.mem_append, List.mem_singleton] at hmem
      exact hmem.resolve_right hxe
    have hemem : e.ptr ∈ r.ptrs := by simp [hptrs]
    rcases hseen hemem with heq | hbefore
    · exact hxe heq.symm
    · exact hlast.asymm hr.nodup hbefore
  · exact (hseen (hsub.subset hmem)).imp_right fun hbefore =>
      hbefore.of_sublist hr.nodup hsub hmem (ptr_mem hx)

/-- A new entry comes in front of all others, and its slot refers to it. -/
theorem AllSeen.insert (h : AllSeen r) (hpath : path ∉ r.paths) :
    AllSeen (r.insert path ssInfo) := by
  refine ⟨List.nodup_cons.mpr ⟨hpath, h.nodup⟩, fun x hx => ?_⟩
  have hptrs : (r.insert path ssInfo).ptrs = r.fresh :: r.ptrs := rfl
  have hfront : x ∈ r.entries → Precedes (r.insert path ssInfo).ptrs r.fresh x.ptr := fun hx =>
    (List.singleton_sublist.mpr (ptr_mem hx)).cons_cons _
  by_cases hhash : hashPath x.path = hashPath path
  · refine ⟨r.fresh, by simp [RecencyList.insert, hhash], fun _ => ?_⟩
    rcases List.mem_cons.mp hx with rfl | hx
    · exact Or.inl rfl
    · exact Or.inr (hfront hx)
  · rcases List.mem_cons.mp hx with rfl | hx
    · exact absurd rfl hhash
    · obtain ⟨p, hp, hseen⟩ := h.seen x hx
      refine ⟨p, by simp [RecencyList.insert, hhash, hp], fun hmem => ?_⟩
      rw [hptrs] at hmem ⊢
      rcases List.mem_cons.mp hmem with rfl | hmem
      · exact Or.inr (hfront hx)
      · exact (hseen hmem).imp_right fun hbefore => hbefore.trans (List.sublist_cons_self _ _)

/-- The slot of a removed entry goes on to the next one. -/
theorem AllSeen.remove (hr : r.WellFormed) (h : AllSeen r) (he : e ∈ r.entries) :
    AllSeen (r.removeEntry e.path e) := by
  refine ⟨h.nodup.sublist (List.filter_sublist.map _), fun x hx => ?_⟩
  change x ∈ r.without e.ptr at hx
  have hxptr : x.ptr ∈ (r.without e.ptr).map (·.ptr) := List.mem_map_of_mem hx
  obtain ⟨hxr, hne⟩ := mem_ptrs_without.mp hxptr
  obtain ⟨p, hp, hseen⟩ := h.seen x (List.mem_of_mem_filter hx)
  have hsub := ptrs_without_sublist (r := r) e.ptr
  by_cases hown : r.slots (hashPath e.path) = some e.ptr ∧ hashPath x.path = hashPath e.path
  · obtain ⟨hslot, hhash⟩ := hown
    rw [hhash, hslot] at hp
    obtain rfl := Option.some.inj hp
    obtain ⟨l₁, l₂, hes⟩ := List.append_of_mem he
    have hptrs : r.ptrs = l₁.map (·.ptr) ++ e.ptr :: l₂.map (·.ptr) := by
      rw [ptrs, hes, List.map_append, List.map_cons]
    have hbehind : x.ptr ∈ l₂.map (·.ptr) := by
      have hbefore := (hseen (ptr_mem he)).resolve_left (Ne.symm hne)
      have hn := hr.nodup
      rw [hptrs] at hbefore hn hxr
      rcases List.mem_append.mp hxr with hmem | hmem
      · refine absurd hbefore (Precedes.asymm hn ?_)
        exact precedes_append.mpr (Or.inr (Or.inl ⟨hmem, List.mem_cons_self⟩))
      · exact (List.mem_cons.mp hmem).resolve_left hne
    have hsucc := successor_eq hr hes
    have hwithout := without_eq hr hes
    cases hl : l₂ with
    | nil => simp [hl] at hbehind
    | cons y l₂ =>
        rw [hl, List.map_cons, List.head?_cons] at hsucc
        refine ⟨y.ptr, by simp [hslot, hhash, hsucc], fun _ => ?_⟩
        rw [hl, List.map_cons, List.mem_cons] at hbehind
        refine hbehind.imp Eq.symm fun hmem => ?_
        change Precedes ((r.without e.ptr).map (·.ptr)) y.ptr x.ptr
        rw [hwithout, hl, List.map_append, List.map_cons]
        exact ((List.singleton_sublist.mpr hmem).cons_cons _).trans
          (List.sublist_append_right _ _)
  · refine ⟨p, ?_, fun hmem => ?_⟩
    · rw [slots_removeEntry]
      split_ifs with hslot
      · rw [Function.update_of_ne fun hhash => hown ⟨hslot, hhash⟩, hp]
      · exact hp
    · change p ∈ (r.without e.ptr).map (·.ptr) at hmem
      exact (hseen (hsub.subset hmem)).imp_right fun hbefore =>
        hbefore.of_sublist hr.nodup hsub hmem hxptr

/-! ### What the log keeps -/

/-- A search for the path is defined, and an entry of it that the operation would move to the front
is the one that its slot refers to. -/
def HitsAtSlot (r : RecencyList) (op : LruOp) : Prop :=
  (∃ o, r.lookup op.path = some o) ∧ ((∀ path, op ≠ .remove path) →
    ∀ e ∈ r.entries, e.path = op.path → r.slots (hashPath op.path) = some e.ptr)

/-- The entries are ordered by when their paths were used, and a path leaves the list only when it
is removed or as many others were put or hit as there is room for. -/
structure Complete (log : List CacheEvent) (r : RecencyList) : Prop where
  allSeen : AllSeen r
  recent : RecentFirst (log.filterMap CacheEvent.usedPath) r.paths
  kept : ∀ a path b, log = a ++ .used path :: b → .removed path ∉ b →
    (otherPaths b path).card < lruCacheSize → path ∈ r.paths

theorem complete_init : Complete [] .init where
  allSeen := ⟨List.nodup_nil, by simp [init]⟩
  recent := recentFirst_nil
  kept a path b h := by simp at h

/-- One more event keeps what it neither removes nor makes too old. -/
theorem Complete.kept_concat (h : Complete log r) {ev : CacheEvent}
    (hev : ∀ path, ev = .used path → path ∈ r'.paths)
    (hold : ∀ a path b, log = a ++ .used path :: b → ev ≠ .removed path →
      (otherPaths (b ++ [ev]) path).card < lruCacheSize → path ∈ r.paths → path ∈ r'.paths) :
    ∀ a path b, log ++ [ev] = a ++ .used path :: b → .removed path ∉ b →
      (otherPaths b path).card < lruCacheSize → path ∈ r'.paths := by
  intro a path b hlog hremoved hfew
  rcases List.eq_nil_or_concat' b with rfl | ⟨b, ev', rfl⟩
  · exact hev path (List.singleton_inj.mp (List.append_inj' hlog rfl).2)
  · have hsplit : log ++ [ev] = (a ++ .used path :: b) ++ [ev'] := by
      rw [hlog, List.append_assoc, List.cons_append]
    obtain ⟨hinit, hev'⟩ := List.append_inj' hsplit rfl
    obtain rfl := List.singleton_inj.mp hev'
    simp only [List.mem_append, List.mem_singleton, not_or] at hremoved
    have hless := Finset.card_le_card (otherPaths_subset_append b [ev] path)
    have hmem := h.kept a path b hinit hremoved.1 (hless.trans_lt hfew)
    exact hold a path b hinit (Ne.symm hremoved.2) hfew hmem

theorem paths_without_sublist (p : Ptr) : ((r.without p).map (·.path)).Sublist r.paths :=
  List.filter_sublist.map _

theorem AllSeen.notMem_paths_without (h : AllSeen r) (he : e ∈ r.entries) :
    e.path ∉ (r.without e.ptr).map (·.path) := by
  intro hmem
  obtain ⟨x, hx, hpath⟩ := List.mem_map.mp hmem
  obtain ⟨hx, hne⟩ := List.mem_filter.mp hx
  rw [h.inj he hx hpath] at hne
  simp at hne

theorem mem_paths_without (he : e ∈ r.entries) (hr : r.WellFormed) (hmem : path ∈ r.paths)
    (hne : path ≠ e.path) : path ∈ (r.without e.ptr).map (·.path) := by
  obtain ⟨x, hx, rfl⟩ := List.mem_map.mp hmem
  refine List.mem_map_of_mem (List.mem_filter.mpr ⟨hx, ?_⟩)
  have hptr : x.ptr ≠ e.ptr := fun hptr => hne (congrArg CacheEntry.path (hr.inj he hx hptr))
  simpa using hptr

/-- A hit at the slot is a use of its path. -/
theorem Complete.hit (hr : r.WellFormed) (h : Complete log r) (he : e ∈ r.entries)
    (hslot : r.slots (hashPath e.path) = some e.ptr) (ssInfo : StorageServerInfo) :
    Complete (log ++ [.used e.path]) (r.moveToFront { e with ssInfo := ssInfo }) := by
  have hpaths : (r.moveToFront { e with ssInfo := ssInfo }).paths =
      e.path :: (r.without e.ptr).map (·.path) := rfl
  refine ⟨h.allSeen.moveToFront hr he hslot, ?_, ?_⟩
  · rw [List.filterMap_append, hpaths]
    exact (h.recent.sublist (paths_without_sublist _)).touch
      (h.allSeen.notMem_paths_without he)
  · refine h.kept_concat (fun path hev => ?_) fun a path b _ _ _ hmem => ?_
    · obtain rfl := CacheEvent.used.inj hev
      rw [hpaths]
      exact List.mem_cons_self
    · rw [hpaths, List.mem_cons]
      by_cases hne : path = e.path
      · exact Or.inl hne
      · exact Or.inr (mem_paths_without he hr hmem hne)

/-- A path that makes room for a new one was used before as many others as the list has room for:
those ahead of it, and the new one. -/
theorem Complete.kept_makeRoom (h : Complete log r) {q : Path} {ev : CacheEvent}
    {a b : List CacheEvent} (hq : q ∉ r.paths) (hev : ev.putPath = some q)
    (hlog : log = a ++ .used path :: b)
    (hfew : (otherPaths (b ++ [ev]) path).card < lruCacheSize) (hmem : path ∈ r.paths) :
    path ∈ r.makeRoom.paths := by
  rw [makeRoom]
  split_ifs with hfull
  swap
  · exact hmem
  obtain ⟨l, x, hl⟩ := (List.eq_nil_or_concat' r.entries).resolve_left
    (by rintro h0; simp [h0] at hfull)
  have hpaths : r.paths = l.map (·.path) ++ [x.path] := by rw [paths, hl, List.map_append]; rfl
  have hevict : r.evict.paths = l.map (·.path) := by simp [paths, evict, hl]
  rw [hevict]
  rw [hpaths, List.mem_append, List.mem_singleton] at hmem
  refine hmem.resolve_right ?_
  rintro rfl
  have hn := h.allSeen.nodup
  have hrecent := h.recent
  rw [hpaths] at hn hq hrecent
  have hused : (CacheEvent.used x.path :: b).filterMap CacheEvent.usedPath =
      x.path :: b.filterMap CacheEvent.usedPath := rfl
  rw [hlog, List.filterMap_append, hused] at hrecent
  have hahead : ∀ y ∈ l.map (·.path), y ∈ b.filterMap CacheEvent.usedPath := hrecent.ahead
  have hothers : (q :: l.map (·.path)).toFinset ⊆ otherPaths (b ++ [ev]) x.path := by
    intro y hy
    rw [mem_otherPaths]
    rcases List.mem_cons.mp (List.mem_toFinset.mp hy) with rfl | hy
    · refine ⟨?_, ev, by simp, hev⟩
      rintro rfl
      exact hq (by simp)
    · obtain ⟨e, he, hused⟩ := List.mem_filterMap.mp (hahead y hy)
      refine ⟨?_, e, List.mem_append_left _ he, ?_⟩
      · rintro rfl
        exact List.disjoint_of_nodup_append hn hy (by simp)
      · cases e with
        | used path => exact hused
        | unstored path => cases hused
        | removed path => cases hused
  have hdistinct : (q :: l.map (·.path)).Nodup := by
    refine List.nodup_cons.mpr ⟨fun hmem => hq (List.mem_append_left _ hmem), ?_⟩
    exact (List.nodup_append.mp hn).1
  have hcard := Finset.card_le_card hothers
  rw [List.toFinset_card_of_nodup hdistinct, List.length_cons, List.length_map] at hcard
  rw [hl, List.length_append, List.length_singleton] at hfull
  omega

theorem mem_of_mem_paths_makeRoom (hmem : path ∈ r.makeRoom.paths) : path ∈ r.paths :=
  ((makeRoom_sublist r).map _).subset hmem

/-- A put of a path that the list does not hold. -/
theorem Complete.miss (hr : r.WellFormed) (h : Complete log r) (hpath : path ∉ r.paths)
    (ssInfo : StorageServerInfo) (malloc : Bool) :
    Complete (log ++ [if malloc then .used path else .unstored path])
      (if malloc then r.makeRoom.insert path ssInfo else r.makeRoom) := by
  have hroom := h.allSeen.makeRoom hr
  have hrecent := h.recent.sublist ((makeRoom_sublist r).map (·.path))
  have hnotin : path ∉ r.makeRoom.paths := fun hmem => hpath (mem_of_mem_paths_makeRoom hmem)
  cases malloc with
  | true =>
      refine ⟨hroom.insert hnotin, ?_, ?_⟩
      · rw [List.filterMap_append]
        exact hrecent.touch hnotin
      · refine h.kept_concat (fun q hev => ?_) fun a q b hlog _ hfew hmem => ?_
        · obtain rfl := CacheEvent.used.inj hev
          exact List.mem_cons_self
        · exact List.mem_cons_of_mem _ (h.kept_makeRoom hpath rfl hlog hfew hmem)
  | false =>
      refine ⟨hroom, ?_, ?_⟩
      · rw [List.filterMap_append]
        exact (List.append_nil _).symm ▸ hrecent
      · refine h.kept_concat (fun q hev => by cases hev) fun a q b hlog _ hfew hmem => ?_
        exact h.kept_makeRoom hpath rfl hlog hfew hmem

theorem Complete.remove (hr : r.WellFormed) (h : Complete log r) (he : e ∈ r.entries) :
    Complete (log ++ [.removed e.path]) (r.removeEntry e.path e) := by
  refine ⟨h.allSeen.remove hr he, ?_, ?_⟩
  · rw [List.filterMap_append]
    exact (List.append_nil _).symm ▸ h.recent.sublist (paths_without_sublist e.ptr)
  · refine h.kept_concat (fun path hev => by cases hev) fun a path b _ hne _ hmem => ?_
    exact mem_paths_without he hr hmem fun hpath => hne (congrArg CacheEvent.removed hpath.symm)

/-- A removal that finds nothing. -/
theorem Complete.removed (h : Complete log r) (path : Path) :
    Complete (log ++ [.removed path]) r := by
  refine ⟨h.allSeen, ?_, ?_⟩
  · rw [List.filterMap_append]
    exact (List.append_nil _).symm ▸ h.recent
  · exact h.kept_concat (fun _ hev => by cases hev) fun _ _ _ _ _ _ hmem => hmem

/-- One operation; the log grows by what the search for its path finds. -/
theorem Complete.apply (hr : r.WellFormed) (h : Complete log r) (hop : r.HitsAtSlot op)
    {o : Option CacheEntry} (ho : r.lookup op.path = some o) :
    ∃ r', r.apply op = some r' ∧ Complete (log ++ op.events o.isSome) r' := by
  obtain ⟨-, hslot⟩ := hop
  cases op with
  | get path =>
      replace ho : r.lookup path = some o := ho
      cases o with
      | none =>
          refine ⟨r, by simp [RecencyList.apply, lruGet, ho], ?_⟩
          simpa [LruOp.events] using h
      | some e =>
          obtain ⟨he, rfl⟩ := lookup_found_mem ho
          refine ⟨r.moveToFront e, by simp [RecencyList.apply, lruGet, ho], ?_⟩
          exact h.hit hr he (hslot (fun _ => LruOp.noConfusion) e he rfl) e.ssInfo
  | put path ssInfo malloc =>
      replace ho : r.lookup path = some o := ho
      cases o with
      | none =>
          refine ⟨_, by rw [RecencyList.apply, lruPut, ho]; rfl, ?_⟩
          exact h.miss hr (h.allSeen.notMem_of_missed hr ho) ssInfo malloc
      | some e =>
          obtain ⟨he, rfl⟩ := lookup_found_mem ho
          refine ⟨_, by rw [RecencyList.apply, lruPut, ho]; rfl, ?_⟩
          exact h.hit hr he (hslot (fun _ => LruOp.noConfusion) e he rfl) ssInfo
  | remove path =>
      replace ho : r.lookup path = some o := ho
      cases o with
      | none =>
          refine ⟨r, by simp [RecencyList.apply, lruRemove, ho], ?_⟩
          exact h.removed path
      | some e =>
          obtain ⟨he, rfl⟩ := lookup_found_mem ho
          refine ⟨r.removeEntry e.path e, lruRemove_found ho, ?_⟩
          exact h.remove hr he

end RecencyList

namespace LruCache

open RecencyList (Complete)

/-- What the operation logs. -/
def logged (c : LruCache) (op : LruOp) (_ : LruCache) : List CacheEvent :=
  op.events ((c.scan op.path).any fun found => found.2.isSome)

def log (ops : List LruOp) : List CacheEvent := Machine.outputs apply logged lruInit ops

/-- The slot refers to no freed node, and a node of the path that a lookup or an update would move
to the front is the one that the slot refers to. -/
def HitsAtSlot (c : LruCache) (op : LruOp) : Prop :=
  c.SlotLive op.path ∧ ((∀ path, op ≠ .remove path) →
    ∀ p n, c.heap p = some n → n.path = op.path → c.map (hashPath op.path) = some p)

variable {c : LruCache} {r : RecencyList} {op : LruOp} {path : Path}

theorem Represents.scan_eq (h : Represents c r) {o : Option CacheEntry}
    (ho : r.lookup path = some o) : ∃ q, c.scan path = some (q, o.map (·.ptr)) := by
  cases o with
  | none => exact scan_missed h ho
  | some e =>
      obtain ⟨pre, l₁, l₂, hes, hslot, hl₁, he⟩ := RecencyList.lookup_found ho
      exact ⟨_, scan_found h hes hslot hl₁ he⟩

theorem Represents.logged_eq (h : Represents c r) {o : Option CacheEntry}
    (ho : r.lookup op.path = some o) (c' : LruCache) : logged c op c' = op.events o.isSome := by
  obtain ⟨q, hq⟩ := h.scan_eq ho
  simp [logged, hq]

theorem Represents.entry_of_node (h : Represents c r) {p : Ptr} {n : LruCacheNode}
    (hn : c.heap p = some n) : ∃ e ∈ r.entries, e.ptr = p ∧ e.path = n.path := by
  obtain ⟨e, he, rfl⟩ := List.mem_map.mp (h.isSome_iff.mp (by rw [hn]; rfl))
  exact ⟨e, he, rfl, (h.path_eq he hn).1.symm⟩

theorem Represents.hitsAtSlot_iff (h : Represents c r) :
    c.HitsAtSlot op ↔ r.HitsAtSlot op := by
  constructor
  · rintro ⟨hslot, hhit⟩
    refine ⟨h.lookup_defined hslot, fun hne e he hpath => ?_⟩
    obtain ⟨n, hn⟩ := Option.isSome_iff_exists.mp (h.isSome_iff.mpr (RecencyList.ptr_mem he))
    rw [← h.map]
    exact hhit hne e.ptr n hn ((h.path_eq he hn).1.trans hpath)
  · rintro ⟨⟨o, ho⟩, hhit⟩
    refine ⟨fun p hp => ?_, fun hne p n hn hpath => ?_⟩
    · by_contra hdead
      have hundefined := RecencyList.lookup_eq_none_iff.mpr
        ⟨p, h.map ▸ hp, fun hmem => hdead (h.isSome_iff.mpr hmem)⟩
      cases hundefined.symm.trans ho
    · obtain ⟨e, he, rfl, hepath⟩ := h.entry_of_node hn
      rw [h.map]
      exact hhit hne e he (hepath.trans hpath)

/-- Two paths share a slot, and the one that was stored last is looked up. -/
def putPutGetOps : List LruOp :=
  [.put [47, 97] someServer true, .put [48, 66] someServer true, .get [48, 66]]

/-- The condition is evaluated on the recency list. -/
theorem eachStep_hitsAtSlot {ops : List LruOp}
    (h : Machine.EachStep RecencyList.apply RecencyList.HitsAtSlot .init ops) :
    Machine.EachStep apply HitsAtSlot lruInit ops := by
  intro pre op post c hsplit hrun
  obtain ⟨r, hr, hrep⟩ := Machine.exists_of_some_rel (hrun ▸ run_refines pre)
  exact hrep.hitsAtSlot_iff.mpr (h pre op post r hsplit hr)

instance (op : LruOp) : Decidable (∀ path, op ≠ .remove path) :=
  match op with
  | .put _ _ _ => isTrue fun _ => LruOp.noConfusion
  | .get _ => isTrue fun _ => LruOp.noConfusion
  | .remove path => isFalse fun h => h path rfl

instance (r : RecencyList) (op : LruOp) : Decidable (r.HitsAtSlot op) :=
  have : Decidable (∃ o, r.lookup op.path = some o) := decidable_of_iff _ Option.isSome_iff_exists
  inferInstanceAs (Decidable ((∃ o, r.lookup op.path = some o) ∧ ((∀ path, op ≠ .remove path) →
    ∀ e ∈ r.entries, e.path = op.path → r.slots (hashPath op.path) = some e.ptr)))

end LruCache
end NetworkFileSystem
