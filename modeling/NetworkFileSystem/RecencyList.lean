import NetworkFileSystem.LruCache

/-!
# The cache as a recency list

The purpose of the cache in its own terms: a list of entries, the most recently used first, and for
each hash slot the entry from which a lookup searches on. The operations of `lru_cache.c` are
restated on this list.
-/

namespace NetworkFileSystem

structure CacheEntry where
  ptr : Ptr
  path : Path
  ssInfo : StorageServerInfo
  deriving DecidableEq

structure RecencyList where
  entries : List CacheEntry
  slots : Fin lruCacheSize → Option Ptr
  fresh : Ptr

namespace RecencyList

def init : RecencyList := ⟨[], fun _ => none, 0⟩

def ptrs (r : RecencyList) : List Ptr := r.entries.map (·.ptr)

/-- The entries that a search from the slot of the path visits; undefined if the slot refers to
an entry that is gone. -/
def visible (r : RecencyList) (path : Path) : Option (List CacheEntry) :=
  match r.slots (hashPath path) with
  | none => some []
  | some p => if p ∈ r.ptrs then some (r.entries.dropWhile (·.ptr ≠ p)) else none

def lookup (r : RecencyList) (path : Path) : Option (Option CacheEntry) :=
  (r.visible path).map fun es => es.find? (·.path = path)

def without (r : RecencyList) (p : Ptr) : List CacheEntry := r.entries.filter (·.ptr ≠ p)

def moveToFront (r : RecencyList) (e : CacheEntry) : RecencyList :=
  { r with entries := e :: r.without e.ptr }

def lruGet (r : RecencyList) (path : Path) :
    Option (RecencyList × Option StorageServerInfo) :=
  (r.lookup path).map fun
    | none => (r, none)
    | some e => (r.moveToFront e, some e.ssInfo)

/-- Forget the least recently used entry, and its slot if that refers to it. -/
def evict (r : RecencyList) : RecencyList :=
  match r.entries.getLast? with
  | none => r
  | some e =>
    { r with
      entries := r.entries.dropLast
      slots := if r.slots (hashPath e.path) = some e.ptr then
        Function.update r.slots (hashPath e.path) none else r.slots }

def insert (r : RecencyList) (path : Path) (ssInfo : StorageServerInfo) : RecencyList where
  entries := ⟨r.fresh, path, ssInfo⟩ :: r.entries
  slots := Function.update r.slots (hashPath path) (some r.fresh)
  fresh := r.fresh + 1

/-- Make room for a new entry in a full list. -/
def makeRoom (r : RecencyList) : RecencyList :=
  if r.entries.length = lruCacheSize then r.evict else r

def lruPut (r : RecencyList) (path : Path) (ssInfo : StorageServerInfo) (malloc : Bool) :
    Option RecencyList :=
  (r.lookup path).map fun
    | some e => r.moveToFront { e with ssInfo := ssInfo }
    | none => if malloc then r.makeRoom.insert path ssInfo else r.makeRoom

/-- The entry after the one at `p`. -/
def successor (r : RecencyList) (p : Ptr) : Option Ptr :=
  ((r.entries.dropWhile (·.ptr ≠ p)).tail.head?).map (·.ptr)

/-- The entry is gone; the slot of the path goes on to the next one if it referred to it. -/
def removeEntry (r : RecencyList) (path : Path) (e : CacheEntry) : RecencyList :=
  { r with
    entries := r.without e.ptr
    slots := if r.slots (hashPath path) = some e.ptr then
      Function.update r.slots (hashPath path) (r.successor e.ptr) else r.slots }

@[simp] theorem entries_removeEntry (r : RecencyList) (path : Path) (e : CacheEntry) :
    (r.removeEntry path e).entries = r.without e.ptr := rfl

@[simp] theorem slots_removeEntry (r : RecencyList) (path : Path) (e : CacheEntry) :
    (r.removeEntry path e).slots = if r.slots (hashPath path) = some e.ptr then
      Function.update r.slots (hashPath path) (r.successor e.ptr) else r.slots := rfl

def lruRemove (r : RecencyList) (path : Path) : Option RecencyList :=
  (r.lookup path).map fun
    | none => r
    | some e => r.removeEntry path e

theorem lruRemove_found {r : RecencyList} {path : Path} {e : CacheEntry}
    (h : r.lookup path = some (some e)) : r.lruRemove path = some (r.removeEntry path e) := by
  rw [lruRemove, h]
  rfl

def apply (r : RecencyList) : LruOp → Option RecencyList
  | .put path ssInfo malloc => r.lruPut path ssInfo malloc
  | .get path => (r.lruGet path).map Prod.fst
  | .remove path => r.lruRemove path

/-- Pointers identify entries, and all of them were handed out. -/
structure WellFormed (r : RecencyList) : Prop where
  nodup : r.ptrs.Nodup
  below : ∀ p ∈ r.ptrs, p < r.fresh
  bounded : r.entries.length ≤ lruCacheSize

variable {r : RecencyList} {path : Path} {e : CacheEntry} {l₁ l₂ : List CacheEntry}

theorem ptr_mem (he : e ∈ r.entries) : e.ptr ∈ r.ptrs := List.mem_map_of_mem he

theorem notMem_of_nodup (hn : ((l₁ ++ e :: l₂).map (·.ptr)).Nodup) :
    ∀ x ∈ l₁ ++ l₂, x.ptr ≠ e.ptr := by
  intro x hx he
  rw [List.map_append, List.map_cons, List.nodup_middle, List.nodup_cons] at hn
  apply hn.1
  rw [← List.map_append, ← he]
  exact List.mem_map_of_mem hx

theorem without_eq (hr : r.WellFormed) (hes : r.entries = l₁ ++ e :: l₂) :
    r.without e.ptr = l₁ ++ l₂ := by
  have hne := notMem_of_nodup (by simpa only [ptrs, hes] using hr.nodup)
  rw [without, hes, List.filter_append, List.filter_cons_of_neg (by simp), ← List.filter_append,
    List.filter_eq_self]
  intro x hx
  simpa using hne x hx

theorem dropWhile_eq (hr : r.WellFormed) (hes : r.entries = l₁ ++ e :: l₂) :
    r.entries.dropWhile (·.ptr ≠ e.ptr) = e :: l₂ := by
  have hne := notMem_of_nodup (by simpa only [ptrs, hes] using hr.nodup)
  rw [hes, List.dropWhile_append_of_pos, List.dropWhile_cons_of_neg (by simp)]
  intro x hx
  simpa using hne x (List.mem_append_left _ hx)

theorem successor_eq (hr : r.WellFormed) (hes : r.entries = l₁ ++ e :: l₂) :
    r.successor e.ptr = (l₂.map (·.ptr)).head? := by
  rw [successor, dropWhile_eq hr hes, List.tail_cons, List.head?_map]

theorem WellFormed.of_subperm {r' : RecencyList} (hr : r.WellFormed)
    (hsub : r'.entries.Subperm r.entries) (hfresh : r'.fresh = r.fresh) : r'.WellFormed := by
  obtain ⟨es, hperm, hes⟩ := hsub
  have hmap : (es.map (·.ptr)).Perm r'.ptrs := hperm.map _
  have hsubl : (es.map (·.ptr)).Sublist r.ptrs := hes.map _
  refine ⟨hmap.nodup_iff.mp (hr.nodup.sublist hsubl), fun p hp => ?_, ?_⟩
  · exact hfresh ▸ hr.below p (hsubl.subset (hmap.mem_iff.mpr hp))
  · exact hperm.length_eq ▸ hes.length_le.trans hr.bounded

theorem moveToFront_perm (hr : r.WellFormed) (hes : r.entries = l₁ ++ e :: l₂) :
    (r.moveToFront e).entries.Perm r.entries := by
  change (e :: r.without e.ptr).Perm r.entries
  rw [without_eq hr hes, hes]
  exact List.perm_middle.symm

theorem lookup_eq_none_iff :
    r.lookup path = none ↔ ∃ p, r.slots (hashPath path) = some p ∧ p ∉ r.ptrs := by
  rw [lookup, Option.map_eq_none_iff, visible]
  cases hs : r.slots (hashPath path) with
  | none => simp
  | some p => by_cases hp : p ∈ r.ptrs <;> simp [hp]

/-- A search visits the end of the recency list that starts at the slot. -/
theorem visible_eq_some {es : List CacheEntry} (h : r.visible path = some es) :
    ∃ pre, r.entries = pre ++ es ∧ r.slots (hashPath path) = (es.map (·.ptr)).head? := by
  rw [visible] at h
  cases hs : r.slots (hashPath path) with
  | none =>
      obtain rfl : [] = es := by simpa [hs] using h
      exact ⟨r.entries, by simp, rfl⟩
  | some p =>
      rw [hs] at h
      by_cases hp : p ∈ r.ptrs
      · obtain rfl : r.entries.dropWhile (·.ptr ≠ p) = es := by simpa [hp] using h
        refine ⟨_, (List.takeWhile_append_dropWhile ..).symm, ?_⟩
        obtain ⟨e, he, rfl⟩ := List.mem_map.mp hp
        have hne : r.entries.dropWhile (·.ptr ≠ e.ptr) ≠ [] := fun hnil => by
          simpa using List.dropWhile_eq_nil_iff.mp hnil e he
        obtain ⟨x, xs, hx⟩ := List.exists_cons_of_ne_nil hne
        have hhead :=
          List.head?_dropWhile_not (fun y : CacheEntry => decide (y.ptr ≠ e.ptr)) r.entries
        rw [hx] at hhead ⊢
        have hxe : x.ptr = e.ptr := by simpa using hhead
        simp [hxe]
      · simp [hp] at h

theorem lookup_missed (h : r.lookup path = some none) :
    ∃ pre es, r.entries = pre ++ es ∧ r.slots (hashPath path) = (es.map (·.ptr)).head? ∧
      ∀ x ∈ es, x.path ≠ path := by
  obtain ⟨es, hes, hfind⟩ := Option.map_eq_some_iff.mp h
  obtain ⟨pre, hpre, hslot⟩ := visible_eq_some hes
  refine ⟨pre, es, hpre, hslot, fun x hx => ?_⟩
  simpa using List.find?_eq_none.mp hfind x hx

theorem lookup_found (h : r.lookup path = some (some e)) :
    ∃ pre l₁ l₂, r.entries = pre ++ (l₁ ++ e :: l₂) ∧
      r.slots (hashPath path) = ((l₁ ++ e :: l₂).map (·.ptr)).head? ∧
      (∀ x ∈ l₁, x.path ≠ path) ∧ e.path = path := by
  obtain ⟨es, hes, hfind⟩ := Option.map_eq_some_iff.mp h
  obtain ⟨pre, hpre, hslot⟩ := visible_eq_some hes
  obtain ⟨hpath, l₁, l₂, rfl, hl₁⟩ := List.find?_eq_some_iff_append.mp hfind
  exact ⟨pre, l₁, l₂, hpre, hslot, fun x hx => by simpa using hl₁ x hx, by simpa using hpath⟩

end RecencyList
end NetworkFileSystem
