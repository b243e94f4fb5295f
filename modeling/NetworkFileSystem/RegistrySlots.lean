import NetworkFileSystem.PositiveAnswer

/-!
# The slots of the registry

Every accepted registration takes the next slot and writes it once. A slot is used through the
trie while its registration is still running, before the server is counted.
-/

namespace NetworkFileSystem

open Interleaving Interleaving.World Machine

/-- The address that a REGISTER_SS message announces. -/
def Message.address (msg : Message) : CString × Int32 × Int32 :=
  (msg.ssIp.str, msg.ssNmPort, msg.ssClientPort)

/-- The registration that a step accepts, with its slot. -/
def accepted (w : World) (a : ℕ × Action) (w' : World) : List (Slot × Message) :=
  match (w.locals a.1).nm, (w'.locals a.1).nm with
  | .received msg, .registering _ slot _ => [(slot, msg)]
  | _, _ => []

/-- The accepted registrations of a run. -/
def registrations (net : Network) (sh : Shared) (as : List (ℕ × Action)) :
    List (Slot × Message) :=
  outputs (step net) accepted (start sh) as

variable {net : Network} {sh : Shared} {w : World} {as : List (ℕ × Action)} {r : ℕ} {a : Action}
  {x : Shared × Threads × List Event}

/-- The accepted registrations fill the slots in order, and their addresses stay. -/
structure Assigned (w : World) (regs : List (Slot × Message)) : Prop where
  slots : regs.map (·.1.val) = List.range regs.length
  inUse : ∀ slot, InUse w slot ↔ slot.val < regs.length
  address : ∀ slot msg, (slot, msg) ∈ regs → w.shared.nm.address slot = msg.address

theorem Assigned.mem_inUse {regs : List (Slot × Message)} (h : Assigned w regs) {slot : Slot}
    {msg : Message} (hmem : (slot, msg) ∈ regs) : InUse w slot := by
  have hval : slot.val ∈ regs.map (·.1.val) := List.mem_map_of_mem hmem
  rw [h.slots, List.mem_range] at hval
  exact (h.inUse slot).mpr hval

theorem assigned_start (disks : Server → Disk) :
    Assigned (start ⟨.init fun _ => none, none, disks⟩) [] where
  slots := rfl
  inUse slot := by
    constructor
    · rintro (h | ⟨_, _, _, h⟩)
      · exact h
      · simp [start, World.start, Threads.start] at h
    · exact fun h => absurd h (Nat.not_lt_zero _)
  address _ _ h := by simp at h

/-- A step accepts a registration exactly when its handler enters the loop over the paths. -/
theorem accepted_cases (hidle : (w.locals r).client = .idle → w.locals r = .start)
    (h : Transition net r w.shared (w.locals r) a x.1 x.2.1 x.2.2) :
    (accepted w (r, a) (w.after r x) = [] ∧ ∀ msg slot, (w.locals r).nm = .received msg →
        x.2.1.nm ≠ .registering msg slot 0) ∨
      ∃ msg slot, accepted w (r, a) (w.after r x) = [(slot, msg)] ∧
        w.shared.ssListMutex = none ∧ slot.val = w.shared.nm.numRegisteredSs.val ∧
        x.1.nm.address slot = msg.address ∧ x.2.1.nm = .registering msg slot 0 := by
  unfold accepted
  rw [locals_after_self]
  rcases h.registry_cases hidle with ⟨-, -, hsame⟩ |
    ⟨msg, slot, hnm, -, hnm', hmutex, hval, haddress, -⟩ | ⟨msg, slot, i, hnm, -⟩
  · have hno : ∀ msg msg' slot i, (w.locals r).nm = .received msg →
        x.2.1.nm ≠ .registering msg' slot i := by
      intro msg msg' slot i hnm hnm'
      obtain ⟨_, _, hold⟩ := (hsame slot).mp ⟨msg', i, hnm'⟩
      rw [hnm] at hold
      cases hold
    refine Or.inl ⟨?_, fun msg slot hnm => hno msg msg slot 0 hnm⟩
    split
    · next hnm hnm' => exact absurd hnm' (hno _ _ _ _ hnm)
    · rfl
  · exact Or.inr ⟨msg, slot, by rw [hnm, hnm'], hmutex, hval, haddress, hnm'⟩
  · exact Or.inl ⟨by rw [hnm], fun msg slot hold => by rw [hnm] at hold; cases hold⟩

theorem Assigned.step {regs : List (Slot × Message)} (hI : Assigned w regs) (hreg : Registry w)
    (hlocked : ∀ q, (w.locals q).nm.Locked → w.shared.ssListMutex = some q)
    (hidle : (w.locals r).client = .idle → w.locals r = .start)
    (h : Transition net r w.shared (w.locals r) a x.1 x.2.1 x.2.2) :
    Assigned (w.after r x) (regs ++ accepted w (r, a) (w.after r x)) := by
  have hkeep : ∀ slot msg, (slot, msg) ∈ regs →
      (w.after r x).shared.nm.address slot = msg.address := fun slot msg hmem =>
    ((hI.mem_inUse hmem).step hreg hlocked hidle h).2.trans (hI.address slot msg hmem)
  rcases accepted_cases hidle h with ⟨hnone, hno⟩ | ⟨msg, slot, hone, hmutex, hval, haddress, hnm⟩
  · rw [hnone, List.append_nil]
    refine ⟨hI.slots, fun slot => ?_, hkeep⟩
    rw [← hI.inUse]
    constructor
    · intro hslot
      refine (hslot.of_step hreg hidle h).resolve_right ?_
      rintro ⟨msg, hnm, hnm', -⟩
      exact hno msg slot hnm hnm'
    · exact fun hslot => (hslot.step hreg hlocked hidle h).1
  · -- no registration is running, so that the slots in use are the counted ones
    have hcount : ∀ slot : Slot, slot.val < w.shared.nm.numRegisteredSs.val ↔
        slot.val < regs.length := by
      intro slot
      rw [← hI.inUse]
      refine ⟨Or.inl, fun hslot => hslot.resolve_right ?_⟩
      rintro ⟨q, msg', i, hq⟩
      have hsome := hlocked q (by rw [hq]; trivial)
      rw [hmutex] at hsome
      cases hsome
    have hle : regs.length ≤ slot.val := by
      have hself := hcount slot
      omega
    have hlen : slot.val = regs.length := by
      have hother := hcount ⟨regs.length, hle.trans_lt slot.isLt⟩
      dsimp only at hother
      omega
    have hnew : InUse (w.after r x) slot := Or.inr ⟨r, msg, 0, by rw [locals_after_self, hnm]⟩
    rw [hone]
    constructor
    case slots =>
      rw [List.map_append, hI.slots, List.map_singleton, List.length_append, List.length_singleton,
        List.range_succ, hlen]
    case inUse =>
      intro slot'
      rw [List.length_append, List.length_singleton]
      constructor
      · intro hslot'
        rcases hslot'.of_step hreg hidle h with hold | ⟨_, _, hnm', -⟩
        · exact ((hI.inUse slot').mp hold).trans (Nat.lt_succ_self _)
        · obtain ⟨-, rfl, -⟩ := NmThread.registering.inj (hnm.symm.trans hnm')
          omega
      · intro hlt
        rcases Nat.lt_succ_iff_lt_or_eq.mp hlt with hlt | heq
        · exact (((hI.inUse slot').mpr hlt).step hreg hlocked hidle h).1
        · obtain rfl : slot' = slot := Fin.ext (heq.trans hlen.symm)
          exact hnew
    case address =>
      intro slot' msg' hmem
      rcases List.mem_append.mp hmem with hmem | hmem
      · exact hkeep slot' msg' hmem
      · obtain ⟨rfl, rfl⟩ : slot' = slot ∧ msg' = msg := by simpa using hmem
        exact haddress

theorem filter_eq_singleton_of_nodup_map {α β : Type*} [DecidableEq β] {f : α → β} {l : List α}
    (h : (l.map f).Nodup) {x : α} (hx : x ∈ l) : l.filter (fun y => f y = f x) = [x] := by
  induction l with
  | nil => cases hx
  | cons y l ih =>
      rw [List.map_cons, List.nodup_cons] at h
      rcases List.mem_cons.mp hx with rfl | hx
      · have hnone : l.filter (fun y => f y = f x) = [] := by
          rw [List.filter_eq_nil_iff]
          intro z hz
          simpa using fun heq : f z = f x => h.1 (heq ▸ List.mem_map_of_mem hz)
        rw [List.filter_cons_of_pos (by simp), hnone]
      · have hne : f y ≠ f x := fun heq => h.1 (heq ▸ List.mem_map_of_mem hx)
        rw [List.filter_cons_of_neg (by simpa using hne), ih h.2 hx]

/-- A slot in use has exactly one accepted registration. -/
theorem Assigned.exists_unique {regs : List (Slot × Message)} (h : Assigned w regs) {slot : Slot}
    (hslot : InUse w slot) : ∃ msg, regs.filter (·.1 = slot) = [(slot, msg)] := by
  have hval : slot.val ∈ regs.map (·.1.val) := by
    rw [h.slots, List.mem_range]
    exact (h.inUse slot).mp hslot
  obtain ⟨⟨slot', msg⟩, hmem, hval⟩ := List.mem_map.mp hval
  obtain rfl : slot' = slot := Fin.ext hval
  have hnodup : (regs.map (·.1)).Nodup := by
    have hrange := h.slots ▸ List.nodup_range (n := regs.length)
    rw [← Function.comp_def Fin.val Prod.fst, ← List.map_map] at hrange
    exact hrange.of_map _
  exact ⟨msg, filter_eq_singleton_of_nodup_map (f := Prod.fst) (x := (slot', msg)) hnodup hmem⟩

theorem assigned_of_run {disks : Server → Disk}
    (hrun : run (step net) (start ⟨.init fun _ => none, none, disks⟩) as = some w) :
    Assigned w (registrations net ⟨.init fun _ => none, none, disks⟩ as) := by
  refine ((eachStep_true _ as).history_invariant
    (I := fun pre u => run (step net) (start ⟨.init fun _ => none, none, disks⟩) pre = some u ∧
      Assigned u (registrations net ⟨.init fun _ => none, none, disks⟩ pre))
    ⟨rfl, assigned_start disks⟩ ?_ hrun).2
  rintro pre u ⟨r, a⟩ v ⟨hpre, hI⟩ - hv
  obtain ⟨x, hx, hafter⟩ := step_eq_some.mp hv
  subst hafter
  refine ⟨run_concat_eq_some.mpr ⟨u, hpre, hv⟩, ?_⟩
  rw [registrations, outputs_append hpre, outputs_singleton hv]
  exact hI.step (registry_of_run (NamingServer.wellFormed_init _) hpre) (locked_of_run hpre)
    (fun hidle => ((linked_of_run hpre r).fresh hidle).1) (.of_request hx)

end NetworkFileSystem
