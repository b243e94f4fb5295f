import NetworkFileSystem.LruCacheSafety

/-!
# What a lookup returns

A lookup starts at the slot of the hash of the path and only sees the nodes from there on in the
recency list. As long as the search of every `lru_put` and `lru_remove` sees the nodes of its path,
the list holds at most one node for each path, with the server that was put last.
-/

namespace NetworkFileSystem

/-- The last put of the path stored this server, and no removal of the path followed. -/
def LastPut (ops : List LruOp) (path : Path) (ssInfo : StorageServerInfo) : Prop :=
  ∃ pre malloc post, ops = pre ++ .put path ssInfo malloc :: post ∧
    (∀ ssInfo' malloc', .put path ssInfo' malloc' ∉ post) ∧ .remove path ∉ post

theorem lastPut_concat_put (ops : List LruOp) (path : Path) (ssInfo : StorageServerInfo)
    (malloc : Bool) : LastPut (ops ++ [.put path ssInfo malloc]) path ssInfo :=
  ⟨ops, malloc, [], rfl, by simp, by simp⟩

theorem LastPut.concat {ops : List LruOp} {path : Path} {ssInfo : StorageServerInfo}
    (h : LastPut ops path ssInfo) {op : LruOp}
    (hop : op.path ≠ path ∨ op = .get op.path) : LastPut (ops ++ [op]) path ssInfo := by
  obtain ⟨pre, malloc, post, rfl, hput, hremove⟩ := h
  refine ⟨pre, malloc, post ++ [op], by simp, fun ssInfo' malloc' hmem => ?_, fun hmem => ?_⟩
  · rcases List.mem_append.mp hmem with hmem | hmem
    · exact hput ssInfo' malloc' hmem
    · obtain rfl := List.mem_singleton.mp hmem
      rcases hop with hop | hop
      · exact hop rfl
      · cases hop
  · rcases List.mem_append.mp hmem with hmem | hmem
    · exact hremove hmem
    · obtain rfl := List.mem_singleton.mp hmem
      rcases hop with hop | hop
      · exact hop rfl
      · cases hop

theorem not_lastPut_concat_remove (ops : List LruOp) (path : Path)
    (ssInfo : StorageServerInfo) : ¬ LastPut (ops ++ [.remove path]) path ssInfo := by
  rintro ⟨pre, malloc, post, heq, -, hremove⟩
  rcases List.eq_nil_or_concat' post with rfl | ⟨post, op, rfl⟩
  · have hop := (List.append_inj' heq rfl).2
    cases hop
  · rw [← List.cons_append, ← List.append_assoc] at heq
    have hop := (List.append_inj' heq rfl).2
    obtain rfl : LruOp.remove path = op := by simpa using hop
    exact hremove (by simp)

namespace RecencyList

variable {r r' : RecencyList} {path : Path} {e x : CacheEntry} {op : LruOp} {ops : List LruOp}

theorem mem_of_moveToFront (he : e ∈ r.entries) (hx : x ∈ (r.moveToFront e).entries) :
    x ∈ r.entries := by
  rcases List.mem_cons.mp hx with rfl | hx
  · exact he
  · exact List.mem_of_mem_filter hx

theorem makeRoom_sublist (r : RecencyList) : r.makeRoom.entries.Sublist r.entries := by
  rw [makeRoom, evict]
  split_ifs
  · split
    · exact List.Sublist.refl _
    · exact List.dropLast_sublist _
  · exact List.Sublist.refl _

theorem mem_of_makeRoom (hx : x ∈ r.makeRoom.entries) : x ∈ r.entries :=
  (makeRoom_sublist r).subset hx

/-- The search of the operation is defined, and that of a put or a removal finds an entry of the
path if there is one. -/
def Finds (r : RecencyList) (op : LruOp) : Prop :=
  (∃ o, r.lookup op.path = some o) ∧
    ((∀ path, op ≠ .get path) → ∀ e ∈ r.entries, e.path = op.path →
      r.lookup op.path ≠ some none)

/-- The entries of distinct paths hold the servers that were put last. -/
structure Sound (ops : List LruOp) (r : RecencyList) : Prop where
  nodup : (r.entries.map (·.path)).Nodup
  last : ∀ e ∈ r.entries, LastPut ops e.path e.ssInfo

theorem Sound.path_ne (h : Sound ops r) (he : e ∈ r.entries) (hx : x ∈ r.entries)
    (hne : x.ptr ≠ e.ptr) : x.path ≠ e.path := fun hp =>
  hne (congrArg (·.ptr) (List.inj_on_of_nodup_map h.nodup hx he hp))

theorem Sound.get (hr : r.WellFormed) (h : Sound ops r) (hop : r.Finds (.get path)) :
    ∃ r', r.apply (.get path) = some r' ∧ Sound (ops ++ [.get path]) r' := by
  obtain ⟨⟨o, ho⟩, -⟩ := hop
  replace ho : r.lookup path = some o := ho
  have hlast : ∀ x ∈ r.entries, LastPut (ops ++ [.get path]) x.path x.ssInfo := fun x hx =>
    (h.last x hx).concat (Or.inr rfl)
  cases o with
  | none => exact ⟨r, by rw [apply, lruGet, ho]; rfl, h.nodup, hlast⟩
  | some e =>
      obtain ⟨l₁, l₂, hes⟩ := List.append_of_mem (lookup_found_mem ho).1
      refine ⟨r.moveToFront e, by rw [apply, lruGet, ho]; rfl, ?_, fun x hx => ?_⟩
      · exact ((moveToFront_perm hr hes).map _).nodup_iff.mpr h.nodup
      · exact hlast x (mem_of_moveToFront (by simp [hes]) hx)

theorem Sound.put (hr : r.WellFormed) (h : Sound ops r) {ssInfo : StorageServerInfo}
    {malloc : Bool} (hop : r.Finds (.put path ssInfo malloc)) :
    ∃ r', r.apply (.put path ssInfo malloc) = some r' ∧
      Sound (ops ++ [.put path ssInfo malloc]) r' := by
  obtain ⟨⟨o, ho⟩, hfind⟩ := hop
  replace ho : r.lookup path = some o := ho
  have hkept : ∀ x ∈ r.entries, path ≠ x.path →
      LastPut (ops ++ [.put path ssInfo malloc]) x.path x.ssInfo := fun x hx hne =>
    (h.last x hx).concat (Or.inl hne)
  cases o with
  | some e =>
      obtain ⟨he, rfl⟩ := lookup_found_mem ho
      obtain ⟨l₁, l₂, hes⟩ := List.append_of_mem he
      refine ⟨r.moveToFront { e with ssInfo := ssInfo }, by rw [apply, lruPut, ho]; rfl, ?_,
        fun x hx => ?_⟩
      · exact ((moveToFront_perm hr hes).map _).nodup_iff.mpr h.nodup
      · rcases List.mem_cons.mp hx with rfl | hx
        · exact lastPut_concat_put ops _ ssInfo malloc
        · obtain ⟨hx, hne⟩ := List.mem_filter.mp hx
          exact hkept x hx (h.path_ne he hx (by simpa using hne)).symm
  | none =>
      have hnew : ∀ x ∈ r.entries, x.path ≠ path := fun x hx hp =>
        hfind (fun _ hget => by cases hget) x hx hp ho
      have hroom : Sound (ops ++ [.put path ssInfo malloc]) r.makeRoom :=
        ⟨h.nodup.sublist ((makeRoom_sublist r).map _), fun x hx =>
          hkept x (mem_of_makeRoom hx) (hnew x (mem_of_makeRoom hx)).symm⟩
      refine ⟨_, by rw [apply, lruPut, ho]; rfl, ?_⟩
      cases malloc with
      | false => exact hroom
      | true =>
          refine ⟨List.nodup_cons.mpr ⟨?_, hroom.nodup⟩, fun x hx => ?_⟩
          · rintro hmem
            obtain ⟨x, hx, hp⟩ := List.mem_map.mp hmem
            exact hnew x (mem_of_makeRoom hx) hp
          · rcases List.mem_cons.mp hx with rfl | hx
            · exact lastPut_concat_put ops path ssInfo true
            · exact hroom.last x hx

theorem Sound.remove (h : Sound ops r) (hop : r.Finds (.remove path)) :
    ∃ r', r.apply (.remove path) = some r' ∧ Sound (ops ++ [.remove path]) r' := by
  obtain ⟨⟨o, ho⟩, hfind⟩ := hop
  replace ho : r.lookup path = some o := ho
  have hkept : ∀ x ∈ r.entries, path ≠ x.path →
      LastPut (ops ++ [.remove path]) x.path x.ssInfo := fun x hx hne =>
    (h.last x hx).concat (Or.inl hne)
  cases o with
  | none =>
      have hnew : ∀ x ∈ r.entries, x.path ≠ path := fun x hx hp =>
        hfind (fun _ hget => by cases hget) x hx hp ho
      exact ⟨r, by rw [apply, lruRemove, ho]; rfl, h.nodup, fun x hx =>
        hkept x hx (hnew x hx).symm⟩
  | some e =>
      obtain ⟨he, rfl⟩ := lookup_found_mem ho
      refine ⟨_, lruRemove_found ho, ?_, fun x hx => ?_⟩
      · exact h.nodup.sublist (List.filter_sublist.map _)
      · obtain ⟨hx, hne⟩ := List.mem_filter.mp hx
        exact hkept x hx (h.path_ne he hx (by simpa using hne)).symm

theorem Sound.apply (hr : r.WellFormed) (h : Sound ops r) (hop : r.Finds op) :
    ∃ r', r.apply op = some r' ∧ Sound (ops ++ [op]) r' := by
  cases op with
  | get path => exact h.get hr hop
  | put path ssInfo malloc => exact h.put hr hop
  | remove path => exact h.remove hop

end RecencyList

namespace LruCache

variable {c : LruCache} {r : RecencyList} {path : Path} {op : LruOp}

/-- The slot of the path refers to no freed node. -/
def SlotLive (c : LruCache) (path : Path) : Prop :=
  ∀ p, c.map (hashPath path) = some p → (c.heap p).isSome

/-- The slot of the path refers to no freed node, and the search of a put or a removal from there
visits every linked node that stores the path. -/
def SeesItsPath (c : LruCache) (op : LruOp) : Prop :=
  c.SlotLive op.path ∧
    ((∀ path, op ≠ .get path) → ∀ p n, c.Linked p → c.heap p = some n → n.path = op.path →
      c.Follows (c.map (hashPath op.path)) p)

theorem Represents.lookup_defined (h : Represents c r) (hslot : c.SlotLive path) :
    ∃ o, r.lookup path = some o := by
  rw [← Option.ne_none_iff_exists', ne_eq, RecencyList.lookup_eq_none_iff]
  rintro ⟨p, hp, hnot⟩
  exact hnot (h.isSome_iff.mp (hslot p (h.map ▸ hp)))

theorem Represents.finds (h : Represents c r) (hop : c.SeesItsPath op) : r.Finds op := by
  refine ⟨h.lookup_defined hop.1, fun hget e he hpath hl => ?_⟩
  obtain ⟨n, hn⟩ := Option.isSome_iff_exists.mp (h.isSome_iff.mpr (RecencyList.ptr_mem he))
  have hvisits := hop.2 hget e.ptr n (h.linked_iff.mpr (RecencyList.ptr_mem he)) hn
    ((h.path_eq he hn).1.trans hpath)
  obtain ⟨pre, es, hes, hslot, hne⟩ := RecencyList.lookup_missed hl
  have hseg := h.seg
  rw [RecencyList.ptrs, hes, List.map_append, DoublyLinked.seg_append] at hseg
  rw [h.map, hslot, follows_iff hseg.2] at hvisits
  obtain ⟨x, hx, hxe⟩ := List.mem_map.mp hvisits
  have hxe : x = e := List.inj_on_of_nodup_map h.wellFormed.nodup (hes ▸ by simp [hx]) he hxe
  exact hne x hx (hxe ▸ hpath)

end LruCache
end NetworkFileSystem
