import NetworkFileSystem.RegistryAgreement

/-!
# Counts off the wire

`num_accessible_paths` and `data_size` as they arrive: any 32-bit integers. The path arrays are
used only in sections under `ss_list_mutex`, each of which counts up to a number that some
registration stored. A section that uses an index out of range has no result.
-/

namespace NetworkFileSystem

open Machine

namespace Wire

/-- The path array of a storage server, with the count as stored. -/
structure ServerInfo where
  accessiblePaths : List.Vector Path maxAccessiblePaths
  numAccessiblePaths : Int32

structure Registry where
  registeredSs : Slot → ServerInfo
  numRegisteredSs : Fin (maxSs + 1)

def Registry.init : Registry := ⟨fun _ => ⟨.replicate _ [], 0⟩, 0⟩

def Registry.updateSs (reg : Registry) (slot : Slot) (f : ServerInfo → ServerInfo) : Registry :=
  { reg with registeredSs := Function.update reg.registeredSs slot (f (reg.registeredSs slot)) }

/-- How often a loop `for (i = 0; i < count; i++)` runs. -/
def iterations (count : Int32) : ℕ := count.toInt.toNat

/-! ### The sections -/

/-- The loop of REGISTER_SS, over the array of the message and that of the new server. -/
def registerIndices (msg : Message) : List ℤ :=
  (List.range (iterations msg.numAccessiblePaths)).map (↑)

def storePaths (info : ServerInfo) (msg : Message) : ServerInfo where
  accessiblePaths := ((List.finRange _).take (iterations msg.numAccessiblePaths)).foldl
    (fun v i => v.set i (msg.accessiblePaths.get i).str) info.accessiblePaths
  numAccessiblePaths := msg.numAccessiblePaths

/-- The test `num_accessible_paths < MAX_ACCESSIBLE_PATHS` before a path is appended. -/
def HasRoom (info : ServerInfo) : Prop := info.numAccessiblePaths.toInt < maxAccessiblePaths

instance (info : ServerInfo) : Decidable (HasRoom info) := inferInstanceAs (Decidable (_ < _))

def appendIndices (info : ServerInfo) : List ℤ :=
  if HasRoom info then [info.numAccessiblePaths.toInt] else []

def appendPath (info : ServerInfo) (path : Path) : ServerInfo :=
  if h : HasRoom info then
    { accessiblePaths := info.accessiblePaths.set
        ⟨info.numAccessiblePaths.toInt.toNat, (Int.toNat_lt' (by decide)).mpr h⟩ path
      numAccessiblePaths := info.numAccessiblePaths + 1 }
  else info

/-- The first occurrence of the path that the loop of `remove_path_from_ss_info` meets. -/
def firstOccurrence (info : ServerInfo) (path : Path) : Option (Fin maxAccessiblePaths) :=
  (List.finRange maxAccessiblePaths).find? fun i =>
    i.val < iterations info.numAccessiblePaths ∧ info.accessiblePaths.get i = path

/-- The loop up to the first occurrence, and there the loop that moves the later paths up. -/
def removeIndices (info : ServerInfo) (path : Path) : List ℤ :=
  match firstOccurrence info path with
  | none => (List.range (iterations info.numAccessiblePaths)).map (↑)
  | some i =>
    (List.range (i + 1)).map (↑) ++
      (List.range' i (iterations info.numAccessiblePaths - 1 - i)).flatMap fun j => [↑j, ↑(j + 1)]

def removePath (info : ServerInfo) (path : Path) : ServerInfo :=
  match firstOccurrence info path with
  | none => info
  | some i =>
    { accessiblePaths := .ofFn fun j =>
        if h : i ≤ j ∧ j.val + 1 < iterations info.numAccessiblePaths ∧
            j.val + 1 < maxAccessiblePaths then
          info.accessiblePaths.get ⟨j + 1, h.2.2⟩
        else info.accessiblePaths.get j
      numAccessiblePaths := info.numAccessiblePaths - 1 }

/-- What the servers do with a number off the wire: the sections of the naming server, in any
order and on any servers, and `ss_write` of a storage server. -/
inductive Use
  | register (msg : Message)
  /-- The update after a CREATE_FILE, or a COPY_FILE to a new path. -/
  | append (path : Path) (slot : Slot)
  /-- The update after a DELETE_FILE. -/
  | remove (path : Path) (slot : Slot)
  | write (msg : Message) (opened : Bool)

namespace Use

/-- The indices into the path arrays. -/
def indices (reg : Registry) : Use → List ℤ
  | register msg => if reg.numRegisteredSs.val < maxSs then registerIndices msg else []
  | append _ slot => appendIndices (reg.registeredSs slot)
  | remove path slot => removeIndices (reg.registeredSs slot) path
  | write _ _ => []

/-- The number of bytes that `fwrite` is to take from the data of the message: `data_size`,
converted to `size_t`. -/
def bytesTaken : Use → ℕ
  | write msg true => (msg.dataSize.toInt % 2 ^ 64).toNat
  | _ => 0

def InRange (i : ℤ) : Prop := 0 ≤ i ∧ i < maxAccessiblePaths

instance (i : ℤ) : Decidable (InRange i) := inferInstanceAs (Decidable (_ ∧ _))

def apply (reg : Registry) : Use → Registry
  | register msg =>
    if h : reg.numRegisteredSs.val < maxSs then
      { reg.updateSs ⟨_, h⟩ (storePaths · msg) with
        numRegisteredSs := ⟨reg.numRegisteredSs + 1, Nat.succ_lt_succ h⟩ }
    else reg
  | append path slot => reg.updateSs slot (appendPath · path)
  | remove path slot => reg.updateSs slot (removePath · path)
  | write _ _ => reg

end Use

def step (reg : Registry) (use : Use) : Option Registry :=
  if ∀ i ∈ use.indices reg, Use.InRange i then some (use.apply reg) else none

/-- Every index is in range, and so is the number of bytes. -/
def Harmless (reg : Registry) (use : Use) : Prop :=
  (∀ i ∈ use.indices reg, Use.InRange i) ∧ use.bytesTaken ≤ maxDataSize

instance (reg : Registry) (use : Use) : Decidable (Harmless reg use) :=
  inferInstanceAs (Decidable (_ ∧ _))

/-- An accepted registration has at most ten paths; a path is appended only to a count that is not
negative; and the data size of a write that opens its file is within the array. -/
def Bounded (reg : Registry) : Use → Prop
  | .register msg => reg.numRegisteredSs.val < maxSs →
      msg.numAccessiblePaths.toInt ≤ maxAccessiblePaths
  | .append _ slot => 0 ≤ (reg.registeredSs slot).numAccessiblePaths.toInt
  | .remove _ _ => True
  | .write msg opened => opened = true →
      0 ≤ msg.dataSize.toInt ∧ msg.dataSize.toInt ≤ maxDataSize

/-! ### When the indices are in range -/

variable {reg reg' : Registry} {use : Use} {info : ServerInfo} {path : Path}

/-- The counts that are stored in the course of harmless steps. -/
def Counted (reg : Registry) : Prop :=
  ∀ slot, (reg.registeredSs slot).numAccessiblePaths.toInt ≤ maxAccessiblePaths

theorem iterations_le_iff (count : Int32) {n : ℕ} : iterations count ≤ n ↔ count.toInt ≤ n :=
  Int.toNat_le

theorem firstOccurrence_eq_some {i : Fin maxAccessiblePaths}
    (h : firstOccurrence info path = some i) :
    i.val < iterations info.numAccessiblePaths ∧ info.accessiblePaths.get i = path := by
  simpa using List.find?_some h

theorem inRange_range_iff (n : ℕ) :
    (∀ i ∈ (List.range n).map ((↑) : ℕ → ℤ), Use.InRange i) ↔ n ≤ maxAccessiblePaths := by
  simp only [List.mem_map, List.mem_range, forall_exists_index, and_imp,
    forall_apply_eq_imp_iff₂, Use.InRange]
  constructor
  · intro h
    by_contra hlt
    have := h maxAccessiblePaths (not_le.mp hlt)
    omega
  · intro h k hk
    omega

theorem inRange_appendIndices_iff :
    (∀ i ∈ appendIndices info, Use.InRange i) ↔ 0 ≤ info.numAccessiblePaths.toInt := by
  rw [appendIndices]
  by_cases hroom : HasRoom info
  · rw [if_pos hroom, List.forall_mem_singleton]
    exact and_iff_left hroom
  · rw [if_neg hroom]
    refine iff_of_true (fun i hi => absurd hi List.not_mem_nil) ?_
    exact (Int.natCast_nonneg _).trans (not_lt.mp hroom)

theorem inRange_removeIndices (h : info.numAccessiblePaths.toInt ≤ maxAccessiblePaths) :
    ∀ i ∈ removeIndices info path, Use.InRange i := by
  have hn : iterations info.numAccessiblePaths ≤ maxAccessiblePaths := (iterations_le_iff _).mpr h
  rw [removeIndices]
  cases hfirst : firstOccurrence info path with
  | none => exact (inRange_range_iff _).mpr hn
  | some k =>
      have hk := (firstOccurrence_eq_some hfirst).1
      intro i hi
      rcases List.mem_append.mp hi with hi | hi
      · exact (inRange_range_iff (k + 1)).mpr k.isLt i hi
      · obtain ⟨j, hj, hi⟩ := List.mem_flatMap.mp hi
        have hjn := List.mem_range'_1.mp hj
        simp only [List.mem_cons, List.not_mem_nil, or_false] at hi
        rw [Use.InRange]
        omega

theorem bytesTaken_le_iff (msg : Message) :
    (Use.write msg true).bytesTaken ≤ maxDataSize ↔
      0 ≤ msg.dataSize.toInt ∧ msg.dataSize.toInt ≤ maxDataSize := by
  have hlow := msg.dataSize.le_toInt
  have hhigh := msg.dataSize.toInt_lt
  have hmax : maxDataSize = 8192 := rfl
  simp only [Use.bytesTaken, Int.toNat_le]
  omega

/-- A step from counts within the arrays is harmless exactly when it is bounded. -/
theorem harmless_iff_bounded (h : Counted reg) (use : Use) :
    Harmless reg use ↔ Bounded reg use := by
  cases use with
  | register msg =>
      rw [Harmless, Bounded, Use.indices]
      by_cases hfree : reg.numRegisteredSs.val < maxSs
      · rw [if_pos hfree, registerIndices, inRange_range_iff, iterations_le_iff]
        exact ⟨fun h _ => h.1, fun h => ⟨h hfree, Nat.zero_le _⟩⟩
      · rw [if_neg hfree]
        exact iff_of_true ⟨fun _ hi => absurd hi List.not_mem_nil, Nat.zero_le _⟩
          fun h => absurd h hfree
  | append path slot =>
      rw [Harmless, Use.indices, inRange_appendIndices_iff]
      exact and_iff_left (Nat.zero_le _)
  | remove path slot =>
      exact iff_of_true ⟨inRange_removeIndices (h slot), Nat.zero_le _⟩ trivial
  | write msg opened =>
      have hindices : ∀ i ∈ (Use.write msg opened).indices reg, Use.InRange i :=
        fun _ hi => absurd hi List.not_mem_nil
      cases opened with
      | false => exact iff_of_true ⟨hindices, Nat.zero_le _⟩ fun h => by cases h
      | true =>
          rw [Harmless, and_iff_right hindices, bytesTaken_le_iff]
          exact ⟨fun h _ => h, fun h => h rfl⟩

theorem toInt_add_one {a : Int32} (h : a.toInt < maxAccessiblePaths) :
    (a + 1).toInt = a.toInt + 1 := by
  have hlow := a.le_toInt
  have hmax : maxAccessiblePaths = 10 := rfl
  have hone : (1 : Int32).toInt = 1 := rfl
  rw [Int32.toInt_add, hone, Int.bmod_eq_of_le (by omega) (by omega)]

theorem toInt_sub_one {a : Int32} (h : 0 < a.toInt) : (a - 1).toInt = a.toInt - 1 := by
  have hhigh := a.toInt_lt
  have hone : (1 : Int32).toInt = 1 := rfl
  rw [Int32.toInt_sub, hone, Int.bmod_eq_of_le (by omega) (by omega)]

theorem count_appendPath (h : info.numAccessiblePaths.toInt ≤ maxAccessiblePaths) :
    (appendPath info path).numAccessiblePaths.toInt ≤ maxAccessiblePaths := by
  rw [appendPath]
  split_ifs with hroom
  · change (info.numAccessiblePaths + 1).toInt ≤ _
    rw [toInt_add_one hroom]
    exact hroom
  · exact h

theorem count_removePath (h : info.numAccessiblePaths.toInt ≤ maxAccessiblePaths) :
    (removePath info path).numAccessiblePaths.toInt ≤ maxAccessiblePaths := by
  rw [removePath]
  cases hfirst : firstOccurrence info path with
  | none => exact h
  | some i =>
      have hi := (firstOccurrence_eq_some hfirst).1
      rw [iterations] at hi
      change (info.numAccessiblePaths - 1).toInt ≤ _
      rw [toInt_sub_one (by omega)]
      omega

theorem Counted.updateSs (h : Counted reg) {slot : Slot} {f : ServerInfo → ServerInfo}
    (hf : (f (reg.registeredSs slot)).numAccessiblePaths.toInt ≤ maxAccessiblePaths) :
    Counted (reg.updateSs slot f) := by
  intro j
  by_cases hj : j = slot
  · subst hj
    simpa [Registry.updateSs] using hf
  · simpa [Registry.updateSs, hj] using h j

theorem Counted.step (h : Counted reg) (hstep : step reg use = some reg') : Counted reg' := by
  rw [Wire.step] at hstep
  split_ifs at hstep with hrange
  obtain rfl := Option.some.inj hstep
  cases use with
  | register msg =>
      rw [Use.indices] at hrange
      rw [Use.apply]
      split_ifs with hfree
      · rw [if_pos hfree, registerIndices, inRange_range_iff, iterations_le_iff] at hrange
        exact fun j => h.updateSs (f := (storePaths · msg)) hrange j
      · exact h
  | append path slot => exact h.updateSs (f := (appendPath · path)) (count_appendPath (h slot))
  | remove path slot => exact h.updateSs (f := (removePath · path)) (count_removePath (h slot))
  | write msg opened => exact h

theorem counted_init : Counted .init := by
  intro slot
  change (0 : Int32).toInt ≤ maxAccessiblePaths
  decide

def ServerInfo.of (info : StorageServerInfo) : ServerInfo where
  accessiblePaths := info.accessiblePaths
  numAccessiblePaths := Int32.ofNat info.numAccessiblePaths

/-- The path arrays of a naming server whose counts are within the arrays. -/
def Registry.of {κ : Type} (ns : NamingServer κ) : Registry where
  registeredSs slot := .of (ns.registeredSs slot)
  numRegisteredSs := ns.numRegisteredSs

/-- The section that the request reaches. -/
def uses {κ : Type} (ns : NamingServer κ) (msg : Message) (exchange : Exchange) : List Use :=
  match msg.operation with
  | .registerSs => [.register msg]
  | .createFile =>
    match ns.search msg.path.str, ns.getAvailableSsForCreation with
    | none, some (slot, _) => if exchange.Succeeded then [.append msg.path.str slot] else []
    | _, _ => []
  | .deleteFile =>
    match ns.search msg.path.str with
    | none => []
    | some slot => if exchange.Succeeded then [.remove msg.path.str slot] else []
  | .copyFile =>
    match ns.search msg.path.str, ns.search msg.path2.str, ns.getAvailableSsForCreation with
    | some _, none, some (slot, _) =>
      if exchange.Succeeded then [.append msg.path2.str slot] else []
    | _, _, _ => []
  | _ => []

section Handler

variable {κ : Type} {ns ns' : NamingServer κ} {slot : Slot} (sinfo : StorageServerInfo)

theorem toInt_count : (ServerInfo.of sinfo).numAccessiblePaths.toInt =
    sinfo.numAccessiblePaths.val := by
  have := sinfo.numAccessiblePaths.isLt
  have hmax : maxAccessiblePaths = 10 := rfl
  exact Int32.toInt_ofNat_of_lt (by omega)

theorem iterations_count : iterations (ServerInfo.of sinfo).numAccessiblePaths =
    sinfo.numAccessiblePaths.val := by
  rw [iterations, toInt_count, Int.toNat_natCast]

theorem of_appendPath :
    ServerInfo.of (sinfo.appendPath path) = appendPath (.of sinfo) path := by
  rw [StorageServerInfo.appendPath, appendPath]
  have hroom : HasRoom (.of sinfo) ↔ sinfo.numAccessiblePaths.val < maxAccessiblePaths := by
    rw [HasRoom, toInt_count]
    exact Int.ofNat_lt
  by_cases h : sinfo.numAccessiblePaths.val < maxAccessiblePaths
  · rw [dif_pos h, dif_pos (hroom.mpr h)]
    refine congrArg₂ ServerInfo.mk ?_ (Int32.ofNat_add _ 1)
    exact congrArg (sinfo.accessiblePaths.set · path) (Fin.ext (iterations_count sinfo).symm)
  · rw [dif_neg h, dif_neg (mt hroom.mp h)]

theorem firstOccurrence_of :
    firstOccurrence (.of sinfo) path = (List.finRange maxAccessiblePaths).find? fun i =>
      i.val < sinfo.numAccessiblePaths.val ∧ sinfo.accessiblePaths.get i = path := by
  rw [firstOccurrence, iterations_count]
  rfl

theorem of_removePath :
    ServerInfo.of (sinfo.removePath path) = removePath (.of sinfo) path := by
  rw [StorageServerInfo.removePath, removePath, ← firstOccurrence_of]
  cases hfirst : firstOccurrence (.of sinfo) path with
  | none => rfl
  | some i =>
      have hi := (firstOccurrence_eq_some hfirst).1
      rw [iterations_count] at hi
      have hlt := sinfo.numAccessiblePaths.isLt
      refine congrArg₂ ServerInfo.mk ?_ ?_
      · refine congrArg List.Vector.ofFn (funext fun j => ?_)
        have hcount := iterations_count sinfo
        by_cases hj : i ≤ j ∧ j.val + 1 < sinfo.numAccessiblePaths.val
        · rw [dif_pos hj, dif_pos ⟨hj.1, hcount ▸ hj.2, by omega⟩]
          rfl
        · rw [dif_neg hj, dif_neg fun h => hj ⟨h.1, hcount ▸ h.2.1⟩]
          rfl
      · exact Int32.ofNat_sub _ 1 (by omega)

end Handler

theorem of_updateSs {κ : Type} {ns : NamingServer κ} {slot : Slot}
    {f : StorageServerInfo → StorageServerInfo} {g : ServerInfo → ServerInfo}
    (h : ∀ sinfo, ServerInfo.of (f sinfo) = g (.of sinfo)) :
    Registry.of (ns.updateSs slot f) = (Registry.of ns).updateSs slot g := by
  refine congrArg₂ Registry.mk (funext fun j => ?_) rfl
  by_cases hj : j = slot
  · subst hj
    simp [NamingServer.updateSs, Registry.of, h]
  · simp [NamingServer.updateSs, Registry.of, hj]

theorem run_use (h : ∀ i ∈ use.indices reg, Use.InRange i) :
    run step reg [use] = some (use.apply reg) := by
  rw [run_cons, step, if_pos h]
  rfl

theorem run_append {κ : Type} (ns : NamingServer κ) (path : Path) (slot : Slot) :
    run step (.of ns) [.append path slot] = some (.of (ns.recordPath path slot)) := by
  have hrange : ∀ i ∈ (Use.append path slot).indices (.of ns), Use.InRange i := by
    refine inRange_appendIndices_iff.mpr ?_
    rw [Registry.of, toInt_count]
    exact Int.natCast_nonneg _
  refine (run_use hrange).trans (congrArg some ?_)
  exact (of_updateSs (f := (·.appendPath path)) (g := (appendPath · path)) (of_appendPath ·)).symm

theorem run_remove (ns : NamingServer LruCache) (path : Path) (slot : Slot) (cache : LruCache) :
    run step (.of ns) [.remove path slot] =
      some (.of ((ns.dropPath path).forgetPath path slot cache)) := by
  have hrange : ∀ i ∈ (Use.remove path slot).indices (.of ns), Use.InRange i := by
    refine inRange_removeIndices ?_
    rw [Registry.of, toInt_count]
    exact Int.ofNat_le.mpr (Nat.lt_succ_iff.mp (Fin.isLt _))
  refine (run_use hrange).trans (congrArg some ?_)
  exact (of_updateSs (f := (·.removePath path)) (g := (removePath · path)) (of_removePath ·)).symm

theorem of_storeSs {κ : Type} {ns ns' : NamingServer κ} {msg : Message} {slot : Slot}
    (hfits : 0 ≤ msg.numAccessiblePaths.toInt) (h : ns.storeSs msg slot = some ns') :
    Registry.registeredSs (.of ((NamingServer.pathIndices msg).foldl
      (·.registerPath msg slot ·) ns')) =
      ((Registry.of ns).updateSs slot (storePaths · msg)).registeredSs := by
  funext j
  change ServerInfo.of (((NamingServer.pathIndices msg).foldl
    (·.registerPath msg slot ·) ns').registeredSs j) =
      Function.update (Registry.of ns).registeredSs slot
        (storePaths (.of (ns.registeredSs slot)) msg) j
  rw [NamingServer.registeredSs_foldl_registerPath]
  by_cases hj : j = slot
  · subst hj
    rw [Function.update_self, Function.update_self]
    have hcount := NamingServer.storeSs_count h
    refine congrArg₂ ServerInfo.mk ?_ ?_
    · have hold : (ns'.registeredSs j).accessiblePaths = (ns.registeredSs j).accessiblePaths := by
        rw [NamingServer.storeSs] at h
        split_ifs at h
        obtain rfl := Option.some.inj h
        simp [NamingServer.updateSs]
      rw [hold]
      rfl
    · change Int32.ofNat (ns'.registeredSs j).numAccessiblePaths.val = msg.numAccessiblePaths
      rw [hcount, ← Int32.toInt_inj, Int32.toInt_ofNat_of_lt]
      · exact Int.toNat_of_nonneg hfits
      · have := msg.numAccessiblePaths.toInt_lt
        omega
  · rw [Function.update_of_ne hj, Function.update_of_ne hj,
      (NamingServer.storeSs_eq_some h).2.2 j hj]
    rfl

theorem run_register {κ : Type} {ns ns' : NamingServer κ} {msg : Message} {reply : Message}
    (h : ns.registerSs msg = some (ns', reply)) :
    run step (.of ns) [.register msg] = some (.of ns') := by
  rw [NamingServer.registerSs] at h
  cases hnext : ns.nextSlot with
  | none =>
      have hfull : ¬(Registry.of ns).numRegisteredSs.val < maxSs := by
        rw [NamingServer.nextSlot] at hnext
        split_ifs at hnext with hfull
        exact hfull
      rw [hnext] at h
      obtain ⟨rfl, -⟩ := Prod.mk.inj (Option.some.inj h)
      have hrange : ∀ i ∈ (Use.register msg).indices (.of ns), Use.InRange i := by
        rw [Use.indices, if_neg hfull]
        exact fun _ hi => absurd hi List.not_mem_nil
      rw [run_use hrange, Use.apply, dif_neg hfull]
  | some slot =>
      have hslot := NamingServer.nextSlot_eq_some hnext
      have hfree : (Registry.of ns).numRegisteredSs.val < maxSs := hslot ▸ slot.isLt
      rw [hnext] at h
      obtain ⟨ns₁, hstore, heq⟩ := Option.map_eq_some_iff.mp h
      obtain ⟨rfl, -⟩ := Prod.mk.inj heq
      have hfits : 0 ≤ msg.numAccessiblePaths.toInt ∧
          msg.numAccessiblePaths.toInt ≤ maxAccessiblePaths := by
        rw [NamingServer.storeSs] at hstore
        split_ifs at hstore with hfits
        exact hfits
      have hrange : ∀ i ∈ (Use.register msg).indices (.of ns), Use.InRange i := by
        rw [Use.indices, if_pos hfree, registerIndices, inRange_range_iff, iterations_le_iff]
        exact hfits.2
      obtain rfl : slot = ⟨ns.numRegisteredSs.val, hfree⟩ := Fin.ext hslot
      rw [run_use hrange, Use.apply, dif_pos hfree]
      exact congrArg some (congrArg₂ Registry.mk (of_storeSs hfits.1 hstore).symm rfl)

theorem run_conclude {κ : Type} {ns ns' : NamingServer κ} {exchange : Exchange} {reply : Message}
    {update : NamingServer κ → Option (NamingServer κ)} {reg : Registry} (hreg : .of ns = reg)
    (hupdate : ∀ ns', update ns = some ns' → run step reg [use] = some (.of ns'))
    (h : ns.conclude exchange update = some (ns', reply)) :
    run step reg (if exchange.Succeeded then [use] else []) = some (.of ns') := by
  rcases NamingServer.conclude_cases h with ⟨hs, rfl⟩ | ⟨hs, hns⟩
  · rw [if_neg hs, run_nil, hreg]
  · rw [if_pos hs]
    exact hupdate ns' hns

theorem of_pick {κ : Type} {ns : NamingServer κ} {found : Slot × NamingServer κ}
    (h : ns.getAvailableSsForCreation = some found) : Registry.of found.2 = .of ns := by
  rw [(NamingServer.getAvailableSsForCreation_eq_some h).2.2.2]
  rfl

/-- The update after a creation on the server that was picked. -/
theorem run_conclude_append {κ : Type} {ns ns' : NamingServer κ} {found : Slot × NamingServer κ}
    {exchange : Exchange} {reply : Message} (hget : ns.getAvailableSsForCreation = some found)
    (h : found.2.conclude exchange (fun ns => some (ns.recordPath path found.1)) =
      some (ns', reply)) :
    run step (.of ns) (if exchange.Succeeded then [.append path found.1] else []) =
      some (.of ns') := by
  refine run_conclude (of_pick hget) (fun ns' hns => ?_) h
  rw [← Option.some.inj hns, ← of_pick hget]
  exact run_append found.2 path found.1

/-- A request of which the counts are within the arrays uses the path arrays as its section
does. -/
theorem run_uses {ns ns' : NamingServer LruCache} {msg : Message} {s : Surroundings}
    {reply : Message} (h : ns.handleConnection msg s = some (ns', reply)) :
    run step (.of ns) (uses ns msg s.exchange) = some (.of ns') := by
  have hkept : ∀ {reply' : Message}, some (ns, reply') = some (ns', reply) →
      run step (.of ns) [] = some (.of ns') := fun h => by
    rw [← (Prod.mk.inj (Option.some.inj h)).1, run_nil]
  rw [NamingServer.handleConnection] at h
  rw [uses]
  cases hop : msg.operation with
  | registerSs =>
      rw [hop] at h
      exact run_register h
  | createFile =>
      simp only [hop, NamingServer.createFile] at h
      cases hp : ns.search msg.path.str with
      | some slot =>
          rw [hp] at h
          exact hkept h
      | none =>
          cases hget : ns.getAvailableSsForCreation with
          | none =>
              rw [hp, hget] at h
              exact hkept h
          | some found =>
              rw [hp, hget] at h
              exact run_conclude_append hget h
  | deleteFile =>
      simp only [hop, NamingServer.deleteFile] at h
      cases hp : ns.search msg.path.str with
      | none =>
          rw [hp] at h
          exact hkept h
      | some slot =>
          rw [hp] at h
          refine run_conclude rfl (fun ns' hns => ?_) h
          obtain ⟨cache, -, rfl⟩ := Option.map_eq_some_iff.mp hns
          exact run_remove ns _ slot cache
  | copyFile =>
      simp only [hop, NamingServer.copyFile] at h
      cases hp : ns.search msg.path.str with
      | none =>
          rw [hp] at h
          exact hkept h
      | some source =>
          cases hq : ns.search msg.path2.str with
          | some target =>
              rw [hp, hq] at h
              rcases NamingServer.conclude_cases h with ⟨-, rfl⟩ | ⟨-, hns⟩
              · rfl
              · rw [← Option.some.inj hns]
                rfl
          | none =>
              cases hget : ns.getAvailableSsForCreation with
              | none =>
                  rw [hp, hq, hget] at h
                  exact hkept h
              | some found =>
                  rw [hp, hq, hget] at h
                  exact run_conclude_append hget h
  | readFile | writeFile | getFileInfo =>
      rw [hop] at h
      obtain ⟨cache, rfl⟩ := NamingServer.lookUp_frame h
      rfl
  | _ =>
      rw [hop] at h
      exact hkept h

/-! ### Counts that do not fit -/

def registerCount (count : Int32) : Message :=
  { Message.zero with operation := .registerSs, numAccessiblePaths := count }

/-- A negative count is stored without harm, and used by the next creation. -/
example : EachStep step Harmless .init [.register (registerCount (-1))] ∧
    ¬EachStep step Harmless .init [.register (registerCount (-1)), .append [47, 97] 0] := by
  decide +kernel

end Wire
end NetworkFileSystem
