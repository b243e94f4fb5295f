import NetworkFileSystem.SystemInvariants

/-!
# Exclusive creation

If every CREATE_FILE that reaches its update finds its path absent from the trie, then between any
two successful creations of a path the path was deleted. The handler looks for the path only
before it picks a storage server, and two creations that overlap both succeed.
-/

namespace NetworkFileSystem

open Interleaving Interleaving.World Machine

/-- The naming server answers a CREATE_FILE of the path with ACK/SUCCESS. -/
def Event.Creates (path : Path) : Event → Prop
  | .answered msg reply =>
    msg.operation = .createFile ∧ msg.path.str = path ∧ reply.Succeeded
  | _ => False

instance (path : Path) (e : Event) : Decidable (e.Creates path) :=
  match e with
  | .answered .. => inferInstanceAs (Decidable (_ ∧ _))
  | .handling _ | .searched .. | .picked _ | .executed .. | .inserted .. | .erased _
  | .invalidated _ | .lostReply => instDecidableFalse

def Event.erases : Event → Bool
  | .erased _ => true
  | _ => false

/-- Of two requests that created the path, one inserted it after a DELETE_FILE had removed what
the other inserted. -/
def ExclusiveCreation (path : Path) (h : List (ℕ × Event)) : Prop :=
  ∀ r q e e', r ≠ q → (r, e) ∈ h → e.Creates path → (q, e') ∈ h → e'.Creates path →
    ∃ d, [(r, .inserted .createFile path), (d, .erased path),
          (q, .inserted .createFile path)].Sublist h ∨
        [(q, .inserted .createFile path), (d, .erased path),
          (r, .inserted .createFile path)].Sublist h

/-- The update of a CREATE_FILE of the path finds it absent from the trie. -/
def RecordsAbsent (path : Path) (w : World) (a : ℕ × Action) : Prop :=
  match a.2, (w.locals a.1).nm with
  | .nm, .concluding (.create msg _) => msg.path.str = path → w.shared.nm.search path = none
  | _, _ => True

instance (path : Path) (w : World) (a : ℕ × Action) : Decidable (RecordsAbsent path w a) := by
  unfold RecordsAbsent
  split <;> infer_instance

variable {net : Network} {sh : Shared} {w : World} {as : List (ℕ × Action)} {path : Path}

/-- A request whose creation succeeded has inserted its path. -/
theorem inserted_of_creates (hrun : run (step net) (start sh) as = some w) {r : ℕ} {e : Event}
    (hmem : (r, e) ∈ w.history) (he : e.Creates path) :
    (r, .inserted .createFile path) ∈ w.history := by
  cases e with
  | answered msg reply =>
      obtain ⟨hop, rfl, hack⟩ := he
      exact mem_own.mp ((recorded_of_answered hrun (mem_own.mpr hmem) hack).1 hop)
  | _ => exact he.elim

/-- What a creation inserted is in the trie until a DELETE_FILE removes it, and between two
insertions it was removed. -/
def CreationsSeparated (path : Path) (w : World) : Prop :=
  (∀ r, (r, .inserted .createFile path) ∈ w.history → w.shared.nm.search path ≠ none ∨
    ∃ d, Precedes w.history (r, .inserted .createFile path) (d, .erased path)) ∧
  ∀ r q, Precedes w.history (r, .inserted .createFile path) (q, .inserted .createFile path) →
    ∃ d, [(r, .inserted .createFile path), (d, .erased path),
      (q, .inserted .createFile path)].Sublist w.history

theorem CreationsSeparated.step {r : ℕ} {a : Action} {x : Shared × Threads × List Event}
    (hI : CreationsSeparated path w) (habsent : RecordsAbsent path w (r, a))
    (h : Transition net r w.shared (w.locals r) a x.1 x.2.1 x.2.2) :
    CreationsSeparated path (w.after r x) := by
  obtain ⟨hpresent, hseparated⟩ := hI
  have hgrow : w.history.Sublist (w.after r x).history := List.sublist_append_left _ _
  constructor
  · intro q hq
    rw [shared_after]
    rcases h.trie_cases with ⟨hsearch, hins, -⟩ | ⟨-, ⟨o, path', slot, hes, -, hsearch⟩ |
      ⟨path', hes, hsearch⟩⟩
    · have hold := (mem_history_after.mp hq).resolve_right fun hnew => hins _ _ hnew.2
      rw [hsearch]
      exact (hpresent q hold).imp_right fun ⟨d, hd⟩ => ⟨d, hd.trans hgrow⟩
    · rw [hsearch]
      split_ifs with hpath
      · exact Or.inl (by simp)
      · have hold := (mem_history_after.mp hq).resolve_right fun hnew => by
          rw [hes, List.mem_singleton] at hnew
          exact hpath (Event.inserted.inj hnew.2).2
        exact (hpresent q hold).imp_right fun ⟨d, hd⟩ => ⟨d, hd.trans hgrow⟩
    · have hold := (mem_history_after.mp hq).resolve_right fun hnew => by
        rw [hes, List.mem_singleton] at hnew
        cases hnew.2
      rw [hsearch]
      split_ifs with hpath
      · refine Or.inr ⟨r, precedes_append.mpr (Or.inr (Or.inl ⟨hold, ?_⟩))⟩
        simp [hes, hpath]
      · exact (hpresent q hold).imp_right fun ⟨d, hd⟩ => ⟨d, hd.trans hgrow⟩
  · intro p q hpq
    rcases precedes_after h.length_events hpq with hold | ⟨hp, rfl, hmem⟩
    · exact (hseparated p q hold).imp fun d hd => hd.trans hgrow
    · obtain ⟨rfl, msg, slot, hnm, hpath⟩ := h.of_inserted_createFile hmem
      have hnone : w.shared.nm.search path = none := by
        rw [RecordsAbsent] at habsent
        simp only [hnm] at habsent
        exact habsent hpath
      obtain ⟨d, hd⟩ := (hpresent p hp).resolve_left (not_not.mpr hnone)
      refine ⟨d, hd.append (List.singleton_sublist.mpr ?_)⟩
      exact List.mem_map_of_mem hmem

/-- If every creation that reaches its update finds its path absent, creations are exclusive. -/
theorem exclusiveCreation_of_recordsAbsent
    (hsteps : EachStep (step net) (RecordsAbsent path) (start sh) as)
    (hrun : run (step net) (start sh) as = some w) : ExclusiveCreation path w.history := by
  have hI : CreationsSeparated path w := by
    refine world_invariant (fun _ w r a x _ hI hC h => hI.step hC h) ?_ hsteps hrun
    exact ⟨fun r hr => absurd hr List.not_mem_nil, fun r q h => absurd h.mem_left List.not_mem_nil⟩
  intro r q e e' hne hr he hq he'
  have hins := inserted_of_creates hrun hr he
  have hins' := inserted_of_creates hrun hq he'
  rcases precedes_or_precedes hins hins' (fun heq => hne (Prod.mk.inj heq).1) with h | h
  · obtain ⟨d, hd⟩ := hI.2 r q h
    exact ⟨d, Or.inl hd⟩
  · obtain ⟨d, hd⟩ := hI.2 q r h
    exact ⟨d, Or.inr hd⟩

/-- A CREATE_FILE of `/a` up to its check of the trie. -/
def checkCreateA (r : ℕ) : List (ℕ × Action) := [(r, .submit createA), (r, .nm), (r, .nm)]

/-- From the choice of a storage server to the reply. -/
def finishCreateA (r : ℕ) : List (ℕ × Action) :=
  [(r, .nm), (r, .nm), (r, .ssNm .ok), (r, .nm), (r, .nm), (r, .nm)]

def deleteA : Message := { createA with operation := .deleteFile }

def handleDeleteA (r : ℕ) : List (ℕ × Action) :=
  [(r, .submit deleteA), (r, .nm), (r, .nm), (r, .nm), (r, .ssNm .ok), (r, .nm), (r, .nm),
    (r, .nm), (r, .nm)]

/-- The path is created, deleted and created again. -/
theorem exclusiveCreation_createA :
    ∃ w, run (step portNetwork) (start twoServers) (checkCreateA 0 ++ finishCreateA 0 ++
      handleDeleteA 1 ++ checkCreateA 2 ++ finishCreateA 2) = some w ∧
      (∃ e ∈ w.history, e.1 = 0 ∧ e.2.Creates createA.path.str) ∧
      (∃ e ∈ w.history, e.1 = 2 ∧ e.2.Creates createA.path.str) ∧
      ExclusiveCreation createA.path.str w.history := by
  have hany : (run (step portNetwork) (start twoServers) (checkCreateA 0 ++ finishCreateA 0 ++
      handleDeleteA 1 ++ checkCreateA 2 ++ finishCreateA 2)).any fun w =>
        (∃ e ∈ w.history, e.1 = 0 ∧ e.2.Creates createA.path.str) ∧
        ∃ e ∈ w.history, e.1 = 2 ∧ e.2.Creates createA.path.str := by decide +kernel
  obtain ⟨w, hrun, hw⟩ := (Option.any_eq_true _ _).mp hany
  obtain ⟨hfirst, hsecond⟩ := of_decide_eq_true hw
  exact ⟨w, hrun, hfirst, hsecond, exclusiveCreation_of_recordsAbsent (by decide +kernel) hrun⟩

/-- Two creations that both check the trie before either inserts the path both succeed. -/
theorem overlapping_creations_succeed :
    ∃ w, run (step portNetwork) (start twoServers) (checkCreateA 0 ++ checkCreateA 1 ++
      finishCreateA 0 ++ finishCreateA 1) = some w ∧
      ¬ ExclusiveCreation createA.path.str w.history := by
  have hany : (run (step portNetwork) (start twoServers) (checkCreateA 0 ++ checkCreateA 1 ++
      finishCreateA 0 ++ finishCreateA 1)).any fun w =>
        (∃ e ∈ w.history, e.1 = 0 ∧ e.2.Creates createA.path.str) ∧
        (∃ e ∈ w.history, e.1 = 1 ∧ e.2.Creates createA.path.str) ∧
        ∀ e ∈ w.history, e.2.erases = false := by decide +kernel
  obtain ⟨w, hrun, hw⟩ := (Option.any_eq_true _ _).mp hany
  obtain ⟨⟨⟨_, e⟩, he, rfl, hcreates⟩, ⟨⟨_, e'⟩, he', rfl, hcreates'⟩, hkept⟩ :=
    of_decide_eq_true hw
  refine ⟨w, hrun, fun hexclusive => ?_⟩
  obtain ⟨d, hd⟩ := hexclusive 0 1 e e' (by decide) he hcreates he' hcreates'
  have hmem : (d, .erased createA.path.str) ∈ w.history := by
    rcases hd with hd | hd <;> exact hd.subset (by simp)
  cases hkept _ hmem

end NetworkFileSystem
