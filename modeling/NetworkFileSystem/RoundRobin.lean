import NetworkFileSystem.PositiveAnswer
import Mathlib.Data.Int.CardIntervalMod

/-!
# The choice of a server in turn

`get_available_ss_for_creation` moves a cursor around the registered servers. Between two
registrations the picks go round in order, from wherever the cursor stood.
-/

namespace NetworkFileSystem

open Interleaving Interleaving.World Machine

/-- Of `k` consecutive numbers, each remainder is taken by the floor or the ceiling of `k / n`. -/
theorem count_turns {n c j : ℕ} (hc : c < n) (hj : j < n) (k : ℕ) :
    ((List.range k).map fun i => (c + i) % n).count j = k / n ∨
      ((List.range k).map fun i => (c + i) % n).count j = (k + n - 1) / n := by
  have hpos : 0 < n := Nat.zero_lt_of_lt hc
  have hturn : ∀ i, (c + i) % n = j ↔ i ≡ j + n - c [MOD n] := by
    intro i
    have hadd : c + (j + n - c) = j + n := by omega
    rw [← Nat.ModEq.add_iff_left (Nat.ModEq.refl c), hadd, Nat.ModEq, Nat.add_mod_right,
      Nat.mod_eq_of_lt hj]
  have hcount : ((List.range k).map fun i => (c + i) % n).count j =
      Nat.count (· ≡ j + n - c [MOD n]) k := by
    rw [List.count, List.countP_map, Nat.count]
    refine List.countP_congr fun i _ => ?_
    simp [hturn]
  rw [hcount, Nat.count_modEq_card k hpos]
  split_ifs with hlt
  · refine Or.inr ?_
    have hmod : k % n + n * (k / n) = k := Nat.mod_add_div k n
    have hle : k + n - 1 = (k % n - 1) + n * (k / n + 1) := by
      rw [Nat.mul_add]
      omega
    have hsmall : (k % n - 1) / n = 0 :=
      Nat.div_eq_of_lt ((Nat.sub_le _ _).trans_lt (Nat.mod_lt k hpos))
    rw [hle, Nat.add_mul_div_left _ _ hpos, hsmall, Nat.zero_add]
  · exact Or.inl (Nat.add_zero _)

/-- The servers picked for creations and copies. -/
def picks (history : List (ℕ × Event)) : List Slot :=
  history.filterMap fun x =>
    match x.2 with
    | .picked slot => some slot
    | _ => none

theorem picks_append (h h' : List (ℕ × Event)) : picks (h ++ h') = picks h ++ picks h' :=
  List.filterMap_append

theorem picks_eq_nil {r : ℕ} {es : List Event} (h : ∀ slot, .picked slot ∉ es) :
    picks (es.map (r, ·)) = [] := by
  rw [picks, List.filterMap_eq_nil_iff]
  intro x hx
  obtain ⟨e, he, rfl⟩ := List.mem_map.mp hx
  cases e with
  | picked slot => exact absurd he (h slot)
  | _ => rfl

variable {net : Network} {sh sh' : Shared} {t t' : Threads} {a : Action} {r : ℕ}
  {es : List Event} {w w' : World} {as bs : List (ℕ × Action)} {disks : Server → Disk}

/-- A pick takes the server under the cursor and moves the cursor on; nothing else moves it. -/
theorem Transition.picked_cases (h : Transition net r sh t a sh' t' es) :
    ((∀ slot, .picked slot ∉ es) ∧ sh'.nm.currentSsIndex = sh.nm.currentSsIndex) ∨
      es = [.picked sh.nm.currentSsIndex] ∧
        sh'.nm.currentSsIndex.val =
          (sh.nm.currentSsIndex + 1) % sh.nm.numRegisteredSs.val := by
  cases h with
  | pickCreate _ _ hpick | pickTarget _ _ hpick =>
      obtain ⟨-, hslot, hcursor, -⟩ := NamingServer.getAvailableSsForCreation_eq_some hpick
      exact Or.inr ⟨by rw [hslot], hcursor⟩
  | refuse _ _ hes => rcases hes with rfl | ⟨_, _, rfl⟩ <;> exact Or.inl ⟨by simp, rfl⟩
  | serve _ _ hes => rcases hes with rfl | ⟨_, _, _, rfl⟩ <;> exact Or.inl ⟨by simp, rfl⟩
  | registerStart _ _ _ _ hstore =>
      exact Or.inl ⟨by simp, (NamingServer.storeSs_frame hstore).2.2.1⟩
  | _ => exact Or.inl ⟨by simp, rfl⟩

/-- Servers stay registered. -/
theorem Transition.numRegisteredSs_le (hreg : Registry w)
    (hidle : (w.locals r).client = .idle → w.locals r = .start)
    (h : Transition net r w.shared (w.locals r) a sh' t' es) :
    w.shared.nm.numRegisteredSs.val ≤ sh'.nm.numRegisteredSs.val := by
  rcases h.registry_cases hidle with ⟨-, hsame, -⟩ | ⟨_, _, -, -, -, -, -, -, -, hsame⟩ |
    ⟨msg, slot, i, hnm, -, hcount, -⟩
  · exact (congrArg Fin.val hsame).ge
  · exact (congrArg Fin.val hsame).ge
  · rw [hcount, hreg.registering r msg slot i hnm]
    exact Nat.le_succ _

/-- The servers picked since the state `w`. -/
def picksSince (w w' : World) : List Slot := picks (w'.history.drop w.history.length)

/-- Without a registration since `w`, the picks have gone round from the cursor. -/
structure InTurn (w w' : World) : Prop where
  grows : w.history <+: w'.history
  counted : w.shared.nm.numRegisteredSs.val ≤ w'.shared.nm.numRegisteredSs.val
  turns : w'.shared.nm.numRegisteredSs = w.shared.nm.numRegisteredSs →
    (picksSince w w').map Fin.val = (List.range (picksSince w w').length).map fun i =>
      (w.shared.nm.currentSsIndex.val + i) % w.shared.nm.numRegisteredSs.val
  cursor : w'.shared.nm.numRegisteredSs = w.shared.nm.numRegisteredSs →
    w'.shared.nm.currentSsIndex.val =
      (w.shared.nm.currentSsIndex.val + (picksSince w w').length) %
        w.shared.nm.numRegisteredSs.val

theorem inTurn_self
    (hcursor : w.shared.nm.currentSsIndex.val < w.shared.nm.numRegisteredSs.val) :
    InTurn w w where
  grows := List.prefix_refl _
  counted := le_rfl
  turns _ := by simp [picksSince, picks]
  cursor _ := by simp [picksSince, picks, Nat.mod_eq_of_lt hcursor]

theorem InTurn.step {x : Shared × Threads × List Event} (hI : InTurn w w') (hreg : Registry w')
    (hidle : (w'.locals r).client = .idle → w'.locals r = .start)
    (h : Transition net r w'.shared (w'.locals r) a x.1 x.2.1 x.2.2) :
    InTurn w (w'.after r x) := by
  have hle := h.numRegisteredSs_le hreg hidle
  have hsince : picksSince w (w'.after r x) = picksSince w w' ++ picks (x.2.2.map (r, ·)) := by
    rw [picksSince, history_after, List.drop_append_of_le_length hI.grows.length_le, picks_append]
    rfl
  -- if nothing is registered by the end, nothing was before the last step
  have hbefore : x.1.nm.numRegisteredSs = w.shared.nm.numRegisteredSs →
      w'.shared.nm.numRegisteredSs = w.shared.nm.numRegisteredSs := fun heq =>
    Fin.ext (le_antisymm (heq ▸ hle) hI.counted)
  refine ⟨hI.grows.trans (List.prefix_append _ _), hI.counted.trans hle, fun heq => ?_,
    fun heq => ?_⟩
  · rw [hsince]
    rcases h.picked_cases with ⟨hnone, -⟩ | ⟨hes, -⟩
    · rw [picks_eq_nil hnone, List.append_nil]
      exact hI.turns (hbefore heq)
    · have hone : picks (x.2.2.map (r, ·)) = [w'.shared.nm.currentSsIndex] := by
        rw [hes]
        rfl
      rw [hone, List.map_append, hI.turns (hbefore heq), List.length_append, List.map_singleton,
        hI.cursor (hbefore heq), List.length_singleton, List.range_succ, List.map_append,
        List.map_singleton]
  · rw [hsince, shared_after]
    rcases h.picked_cases with ⟨hnone, hcursor⟩ | ⟨hes, hcursor⟩
    · rw [picks_eq_nil hnone, List.append_nil, hcursor]
      exact hI.cursor (hbefore heq)
    · have hone : picks (x.2.2.map (r, ·)) = [w'.shared.nm.currentSsIndex] := by
        rw [hes]
        rfl
      rw [hone, hcursor, hI.cursor (hbefore heq), hbefore heq, List.length_append,
        List.length_singleton, Nat.mod_add_mod, Nat.add_assoc]

theorem inTurn_of_run
    (hrun : run (step net) (start ⟨.init fun _ => none, none, disks⟩) as = some w)
    (hcursor : w.shared.nm.currentSsIndex.val < w.shared.nm.numRegisteredSs.val)
    (hrun' : run (step net) w bs = some w') : InTurn w w' := by
  refine (eachStep_true w bs).invariant_of_run (inTurn_self hcursor) ?_ hrun'
  rintro pre u ⟨r, a⟩ v hpre hI - hv
  obtain ⟨x, hx, rfl⟩ := step_eq_some.mp hv
  have hreached : run (step net) (start ⟨.init fun _ => none, none, disks⟩) (as ++ pre) =
      some u := by
    rw [run_append, hrun, Option.bind_some, hpre]
  exact hI.step (registry_of_run (NamingServer.wellFormed_init _) hreached)
    (fun hidle => ((linked_of_run hreached r).fresh hidle).1) (.of_request hx)

/-- The cursor stands at a registered server. In a stretch of a run without registrations, each
registered server gets its share of the picks, rounded down or up. -/
theorem balanced_round_robin
    (hrun : run (step net) (start ⟨.init fun _ => none, none, disks⟩) as = some w)
    (hrun' : run (step net) w bs = some w') :
    (0 < w.shared.nm.numRegisteredSs.val →
        w.shared.nm.currentSsIndex.val < w.shared.nm.numRegisteredSs.val) ∧
      (w'.shared.nm.numRegisteredSs = w.shared.nm.numRegisteredSs →
        ∀ slot : Slot, slot.val < w.shared.nm.numRegisteredSs.val →
          (picksSince w w').count slot =
              (picksSince w w').length / w.shared.nm.numRegisteredSs.val ∨
            (picksSince w w').count slot =
              ((picksSince w w').length + w.shared.nm.numRegisteredSs.val - 1) /
                w.shared.nm.numRegisteredSs.val) := by
  have hle := (registry_of_run (NamingServer.wellFormed_init _) hrun).cursor
  have hcursor : 0 < w.shared.nm.numRegisteredSs.val →
      w.shared.nm.currentSsIndex.val < w.shared.nm.numRegisteredSs.val := by omega
  refine ⟨hcursor, fun hcounted slot hslot => ?_⟩
  have hvalid := hcursor (Nat.zero_lt_of_lt hslot)
  have hturns := (inTurn_of_run hrun hvalid hrun').turns hcounted
  rw [← List.count_map_of_injective _ _ Fin.val_injective, hturns]
  exact count_turns hvalid hslot _

/-- Two servers register. -/
def registerTwoActions : List (ℕ × Action) :=
  registerFirstActions ++ registerFirstActions.map fun x => (1, x.2)

/-- Three creations of `/a` get as far as their server. -/
def pickThreeActions : List (ℕ × Action) :=
  checkCreateA 2 ++ [(2, .nm)] ++ checkCreateA 3 ++ [(3, .nm)] ++ checkCreateA 4 ++ [(4, .nm)]

theorem balanced_round_robin_createA :
    ∃ w w', run (step portNetwork) (start ⟨.init fun _ => none, none, fun _ _ => none⟩)
        registerTwoActions = some w ∧
      run (step portNetwork) w pickThreeActions = some w' ∧ picksSince w w' = [0, 1, 0] ∧
      w.shared.nm.numRegisteredSs.val = 2 ∧
      ((picksSince w w').count 1 =
          (picksSince w w').length / w.shared.nm.numRegisteredSs.val ∨
        (picksSince w w').count 1 =
          ((picksSince w w').length + w.shared.nm.numRegisteredSs.val - 1) /
            w.shared.nm.numRegisteredSs.val) := by
  have hany : (run (step portNetwork) (start ⟨.init fun _ => none, none, fun _ _ => none⟩)
      registerTwoActions).any fun w =>
        (run (step portNetwork) w pickThreeActions).any fun w' =>
          w.shared.nm.numRegisteredSs.val = 2 ∧ w'.shared.nm.numRegisteredSs = 2 ∧
            w.shared.nm.numRegisteredSs = 2 ∧ picksSince w w' = [0, 1, 0] := by decide +kernel
  obtain ⟨w, hrun, hw⟩ := (Option.any_eq_true _ _).mp hany
  obtain ⟨w', hrun', hw'⟩ := (Option.any_eq_true _ _).mp hw
  obtain ⟨hcount, hafter, hbefore, hpicks⟩ := of_decide_eq_true hw'
  refine ⟨w, w', hrun, hrun', hpicks, hcount, ?_⟩
  have hslot : (1 : Slot).val < w.shared.nm.numRegisteredSs.val := by
    rw [hcount]
    decide
  exact (balanced_round_robin hrun hrun').2 (hafter.trans hbefore.symm) 1 hslot

end NetworkFileSystem
