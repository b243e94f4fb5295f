import NetworkFileSystem.Directory

/-!
# The path arrays and the trie

That a server has a path is stored twice, in the trie and in the server's array of paths. A
creation leaves the array alone when it is full, and a registration may name a path that is
already known; apart from these the two agree.
-/

namespace NetworkFileSystem

namespace Directory

/-- The request adds this path if it succeeds. -/
def Adds (req : Message × Surroundings) (path : Path) : Prop :=
  req.1.operation = .createFile ∧ path = req.1.path.str ∨
    req.1.operation = .copyFile ∧ path = req.1.path2.str

/-- What one request does to the directory. -/
inductive Step (d : Directory) (req : Message × Surroundings) : Directory → Prop
  | kept : Step d req d
  | picked {slot d'} (hpick : d.pick = some (slot, d')) : Step d req d'
  | registered {slot} (hop : req.1.operation = .registerSs) (hfree : d.free = some slot) :
    Step d req (d.register req.1.listedPaths slot)
  | recorded {path slot d'} (hadds : Adds req path) (hnew : d.map path = none)
    (hpick : d.pick = some (slot, d')) (hs : req.2.exchange.Succeeded) :
    Step d req (d'.record path slot)
  | forgotten {slot} (hfound : d.map req.1.path.str = some slot) :
    Step d req (d.forget req.1.path.str slot)

/-- The request adds the path to a full list, so only to the map. -/
def Skips (d : Directory) (req : Message × Surroundings) (path : Path) (slot : Slot) : Prop :=
  Adds req path ∧ d.map path = none ∧ (∃ d', d.pick = some (slot, d')) ∧
    req.2.exchange.Succeeded ∧ maxAccessiblePaths ≤ (d.lists slot).length

/-- The request is an accepted registration that names the path twice or finds it known. -/
def Repeats (d : Directory) (req : Message × Surroundings) (path : Path) : Prop :=
  req.1.operation = .registerSs ∧ d.free ≠ none ∧ path ∈ req.1.listedPaths ∧
    (d.map path ≠ none ∨ 2 ≤ req.1.listedPaths.count path)

/-- A request added the path to the full list of the server, to which it has belonged since. -/
def Skipped (reqs : List (Message × Surroundings)) (path : Path) (slot : Slot) : Prop :=
  ∃ pre req post, reqs = pre ++ req :: post ∧ (after pre).Skips req path slot ∧
    ∀ mid, mid <+: post → (after (pre ++ req :: mid)).map path = some slot

def Reregistered (reqs : List (Message × Surroundings)) (path : Path) : Prop :=
  ∃ pre req post, reqs = pre ++ req :: post ∧ (after pre).Repeats req path

variable {d d' : Directory} {req : Message × Surroundings} {p path : Path} {s slot : Slot}
  {reqs : List (Message × Surroundings)}

theorem after_concat : after (reqs ++ [req]) = (after reqs).handle req := by
  rw [after, after, List.foldl_append]
  rfl

theorem asked_step {server target : Slot} {failed succeeded : Directory}
    (hf : Step d req failed) (hs : req.2.exchange.Succeeded → Step d req succeeded) :
    Step d req ((Course.asked server target failed succeeded).directory req.2.exchange) := by
  rw [Course.directory]
  split_ifs with h
  · exact hs h
  · exact hf

theorem handle_step (d : Directory) (req : Message × Surroundings) :
    Step d req (d.handle req) := by
  rw [handle, course]
  cases hop : req.1.operation with
  | registerSs =>
      cases hfree : d.free with
      | none => exact .kept
      | some slot => exact .registered hop hfree
  | createFile =>
      cases hp : d.map req.1.path.str with
      | some _ => exact .kept
      | none =>
          cases hpick : d.pick with
          | none => exact .kept
          | some found =>
              exact asked_step (.picked hpick) (.recorded (.inl ⟨hop, rfl⟩) hp hpick)
  | deleteFile =>
      cases hp : d.map req.1.path.str with
      | none => exact .kept
      | some slot => exact asked_step .kept fun _ => .forgotten hp
  | copyFile =>
      cases d.map req.1.path.str with
      | none => exact .kept
      | some source =>
          cases hq : d.map req.1.path2.str with
          | some target => exact asked_step .kept fun _ => .kept
          | none =>
              cases hpick : d.pick with
              | none => exact .kept
              | some found =>
                  exact asked_step (.picked hpick) (.recorded (.inr ⟨hop, rfl⟩) hq hpick)
  | _ => exact .kept

/-! ### The slots in use -/

/-- Only servers in use have paths, and the cursor stays among them. -/
structure WellFormed (d : Directory) : Prop where
  registered : ∀ p s, d.map p = some s → s.val < d.count.val
  cursor : d.cursor.val ≤ d.count.val - 1

theorem pick_eq_some (h : d.pick = some (slot, d')) :
    0 < d.count.val ∧ slot = d.cursor ∧ d' = { d with cursor := d'.cursor } ∧
      d'.cursor.val < d.count.val := by
  rw [pick] at h
  split_ifs at h with hpos
  obtain ⟨rfl, rfl⟩ := Prod.mk.inj (Option.some.inj h)
  exact ⟨hpos, rfl, rfl, Nat.mod_lt _ hpos⟩

theorem free_eq_some (h : d.free = some slot) : slot.val = d.count.val := by
  rw [free] at h
  split_ifs at h
  exact congrArg Fin.val (Option.some.inj h).symm

theorem WellFormed.pick (h : d.WellFormed) (hpick : d.pick = some (slot, d')) :
    slot.val < d.count.val := by
  obtain ⟨hpos, rfl, -, -⟩ := pick_eq_some hpick
  have := h.cursor
  omega

theorem map_register {paths : List Path} :
    (d.register paths slot).map p = if p ∈ paths then some slot else d.map p := by
  change paths.foldl (fun map path => Function.update map path (some slot)) d.map p = _
  generalize d.map = map
  induction paths generalizing map with
  | nil => simp
  | cons q paths ih =>
      rw [List.foldl_cons, ih, Function.update_apply]
      by_cases hp : p ∈ paths
      · simp [hp]
      · simp [hp]

@[simp] theorem lists_register_self {paths : List Path} :
    (d.register paths slot).lists slot = paths := Function.update_self ..

theorem lists_register_of_ne {paths : List Path} (h : s ≠ slot) :
    (d.register paths slot).lists s = d.lists s := Function.update_of_ne h ..

theorem map_record : (d.record path slot).map p = if p = path then some slot else d.map p :=
  Function.update_apply ..

theorem lists_record_of_ne (h : s ≠ slot) : (d.record path slot).lists s = d.lists s :=
  Function.update_of_ne h ..

theorem lists_record_self :
    (d.record path slot).lists slot =
      if (d.lists slot).length < maxAccessiblePaths then d.lists slot ++ [path]
      else d.lists slot := Function.update_self ..

theorem map_forget : (d.forget path slot).map p = if p = path then none else d.map p :=
  Function.update_apply ..

theorem lists_forget_of_ne (h : s ≠ slot) : (d.forget path slot).lists s = d.lists s :=
  Function.update_of_ne h ..

@[simp] theorem lists_forget_self :
    (d.forget path slot).lists slot = (d.lists slot).erase path := Function.update_self ..

theorem WellFormed.step (h : d.WellFormed) (hstep : Step d req d') : d'.WellFormed := by
  cases hstep with
  | kept => exact h
  | picked hpick =>
      obtain ⟨-, -, heq, hlt⟩ := pick_eq_some hpick
      rw [heq]
      exact ⟨h.registered, Nat.le_sub_one_of_lt hlt⟩
  | registered hop hfree =>
      have hslot := free_eq_some hfree
      refine ⟨fun p s hp => ?_, ?_⟩
      · change s.val < _ + 1
        rw [map_register] at hp
        split_ifs at hp
        · obtain rfl := Option.some.inj hp
          omega
        · have := h.registered p s hp
          omega
      · change d.cursor.val ≤ _ + 1 - 1
        have := h.cursor
        omega
  | @recorded path slot d₁ hadds hnew hpick hs =>
      have hslot := h.pick hpick
      obtain ⟨-, -, heq, hlt⟩ := pick_eq_some hpick
      rw [heq]
      refine ⟨fun p s hp => ?_, Nat.le_sub_one_of_lt hlt⟩
      rw [map_record] at hp
      split_ifs at hp
      · exact Option.some.inj hp ▸ hslot
      · exact h.registered p s hp
  | forgotten hfound =>
      refine ⟨fun p s hp => ?_, h.cursor⟩
      rw [map_forget] at hp
      split_ifs at hp
      exact h.registered p s hp

theorem wellFormed_after (reqs : List (Message × Surroundings)) : (after reqs).WellFormed := by
  induction reqs using List.reverseRecOn with
  | nil => exact ⟨fun _ _ h => (by cases h), Nat.le_refl 0⟩
  | append_singleton reqs req ih =>
      rw [after_concat]
      exact ih.step (handle_step _ req)

/-! ### From the lists to the map -/

/-- The registered servers that list the path list it once, and the map has it there. -/
def Agrees (d : Directory) (p : Path) : Prop :=
  ∀ s : Slot, s.val < d.count.val →
    (p ∈ d.lists s → d.map p = some s) ∧ (d.lists s).count p ≤ 1

theorem Agrees.register (h : d.Agrees p) (hfree : d.free = some slot)
    (hrepeats : p ∈ req.1.listedPaths → d.map p = none ∧ req.1.listedPaths.count p < 2) :
    (d.register req.1.listedPaths slot).Agrees p := by
  have hslot := free_eq_some hfree
  intro s hs
  change s.val < slot.val + 1 at hs
  rw [map_register]
  by_cases heq : s = slot
  · subst heq
    rw [lists_register_self]
    refine ⟨fun hp => if_pos hp, ?_⟩
    by_cases hp : p ∈ req.1.listedPaths
    · exact Nat.le_of_lt_succ (hrepeats hp).2
    · rw [List.count_eq_zero_of_not_mem hp]
      exact Nat.zero_le 1
  · have hlt : s.val < d.count.val := by
      have : s.val ≠ slot.val := fun hval => heq (Fin.ext hval)
      omega
    rw [lists_register_of_ne heq]
    refine ⟨fun hp => ?_, (h s hlt).2⟩
    have hmap := (h s hlt).1 hp
    rw [if_neg, hmap]
    intro hnamed
    simp [(hrepeats hnamed).1] at hmap

theorem Agrees.record (h : d.Agrees p) (hslot : slot.val < d.count.val)
    (hnew : d.map path = none) : (d.record path slot).Agrees p := by
  intro s hs
  rw [map_record]
  by_cases hp : p = path
  · subst hp
    have hnone : ∀ j : Slot, j.val < d.count.val → p ∉ d.lists j := fun j hj hmem => by
      simp [(h j hj).1 hmem] at hnew
    rw [if_pos rfl]
    by_cases heq : s = slot
    · subst heq
      rw [lists_record_self]
      refine ⟨fun _ => rfl, ?_⟩
      have hzero := List.count_eq_zero_of_not_mem (hnone s hs)
      split_ifs
      · rw [List.count_append, hzero, List.count_singleton_self]
      · omega
    · rw [lists_record_of_ne heq]
      exact ⟨fun hmem => absurd hmem (hnone s hs), (h s hs).2⟩
  · rw [if_neg hp]
    by_cases heq : s = slot
    · subst heq
      rw [lists_record_self]
      split_ifs
      · have hother : [path].count p = 0 := List.count_eq_zero_of_not_mem (by simpa using hp)
        rw [List.count_append, hother]
        refine ⟨fun hmem => (h s hs).1 ?_, (h s hs).2⟩
        simpa [hp] using hmem
      · exact h s hs
    · rw [lists_record_of_ne heq]
      exact h s hs

theorem Agrees.forget (h : d.Agrees p) (hfound : d.map path = some slot) :
    (d.forget path slot).Agrees p := by
  intro s hs
  obtain ⟨hmap, hcount⟩ := h s hs
  rw [map_forget]
  by_cases heq : s = slot
  · subst heq
    rw [lists_forget_self]
    by_cases hp : p = path
    · subst hp
      rw [List.count_erase_self]
      refine ⟨fun hmem => ?_, (Nat.sub_le _ _).trans hcount⟩
      have := List.count_pos_iff.mpr hmem
      rw [List.count_erase_self] at this
      omega
    · rw [if_neg hp, List.mem_erase_of_ne hp, List.count_erase_of_ne hp]
      exact ⟨hmap, hcount⟩
  · rw [lists_forget_of_ne heq]
    refine ⟨fun hmem => ?_, hcount⟩
    rw [if_neg, hmap hmem]
    rintro rfl
    exact heq (Option.some.inj ((hmap hmem).symm.trans hfound))

theorem Agrees.step (h : d.Agrees p) (hd : d.WellFormed) (hrepeats : ¬d.Repeats req p)
    (hstep : Step d req d') : d'.Agrees p := by
  cases hstep with
  | kept => exact h
  | picked hpick =>
      rw [(pick_eq_some hpick).2.2.1]
      exact h
  | registered hop hfree =>
      refine h.register hfree fun hnamed => ?_
      rw [Repeats, not_and, not_and, not_and, not_or, not_not, not_le] at hrepeats
      exact hrepeats hop (by simp [hfree]) hnamed
  | recorded hadds hnew hpick hs =>
      have hslot := hd.pick hpick
      rw [(pick_eq_some hpick).2.2.1]
      exact Agrees.record h hslot hnew
  | forgotten hfound => exact h.forget hfound

theorem Reregistered.concat (h : Reregistered reqs p) (req : Message × Surroundings) :
    Reregistered (reqs ++ [req]) p := by
  obtain ⟨pre, r, post, rfl, hr⟩ := h
  exact ⟨pre, r, post ++ [req], by simp, hr⟩

theorem agrees_after (h : ¬Reregistered reqs p) : (after reqs).Agrees p := by
  induction reqs using List.reverseRecOn with
  | nil => exact fun s hs => absurd hs (Nat.not_lt_zero _)
  | append_singleton reqs req ih =>
      rw [after_concat]
      refine (ih fun hr => h (hr.concat req)).step (wellFormed_after reqs) (fun hr => h ?_)
        (handle_step _ req)
      exact ⟨reqs, req, [], rfl, hr⟩

/-! ### From the map to the lists -/

/-- Each path of the map is listed by its server, or was skipped there. -/
def Listed (reqs : List (Message × Surroundings)) (d : Directory) : Prop :=
  ∀ p s, d.map p = some s → p ∈ d.lists s ∨ Skipped reqs p s

theorem Skipped.concat (h : Skipped reqs p s) (hmap : (after (reqs ++ [req])).map p = some s) :
    Skipped (reqs ++ [req]) p s := by
  obtain ⟨pre, r, post, rfl, hr, hsince⟩ := h
  refine ⟨pre, r, post ++ [req], by simp, hr, fun mid hmid => ?_⟩
  rcases List.prefix_concat_iff.mp hmid with rfl | hmid
  · simpa using hmap
  · exact hsince mid hmid

theorem Listed.step (h : Listed reqs (after reqs)) (hstep : Step (after reqs) req d')
    (hafter : after (reqs ++ [req]) = d') : Listed (reqs ++ [req]) d' := by
  intro p s hmap
  have hskipped : Skipped reqs p s → Skipped (reqs ++ [req]) p s := fun hs =>
    hs.concat (hafter ▸ hmap)
  cases hstep with
  | kept => exact (h p s hmap).imp_right hskipped
  | picked hpick =>
      rw [(pick_eq_some hpick).2.2.1] at hmap ⊢
      exact (h p s hmap).imp_right hskipped
  | @registered slot hop hfree =>
      rw [map_register] at hmap
      split_ifs at hmap with hnamed
      · obtain rfl := Option.some.inj hmap
        rw [lists_register_self]
        exact .inl hnamed
      · have hne : s ≠ slot := by
          rintro rfl
          have := (wellFormed_after reqs).registered p s hmap
          have := free_eq_some hfree
          omega
        rw [lists_register_of_ne hne]
        exact (h p s hmap).imp_right hskipped
  | @recorded path slot d₁ hadds hnew hpick hs =>
      have heq := (pick_eq_some hpick).2.2.1
      have hlists : d₁.lists = (after reqs).lists := by rw [heq]
      have hmap₁ : d₁.map = (after reqs).map := by rw [heq]
      rw [map_record, hmap₁] at hmap
      split_ifs at hmap with hp
      · subst hp
        obtain rfl := Option.some.inj hmap
        rw [lists_record_self, hlists]
        split_ifs with hroom
        · exact .inl (by simp)
        · refine .inr ⟨reqs, req, [], rfl, ⟨hadds, hnew, ⟨d₁, hpick⟩, hs, not_lt.mp hroom⟩, ?_⟩
          intro mid hmid
          obtain rfl := List.prefix_nil.mp hmid
          rw [hafter, map_record, if_pos rfl]
      · refine (h p s hmap).imp (fun hmem => ?_) hskipped
        by_cases hslot : s = slot
        · subst hslot
          rw [lists_record_self, hlists]
          split_ifs
          · exact List.mem_append_left _ hmem
          · exact hmem
        · rwa [lists_record_of_ne hslot, hlists]
  | @forgotten slot hfound =>
      rw [map_forget] at hmap
      split_ifs at hmap with hp
      refine (h p s hmap).imp (fun hmem => ?_) hskipped
      by_cases hslot : s = slot
      · subst hslot
        rw [lists_forget_self]
        exact (List.mem_erase_of_ne hp).mpr hmem
      · rwa [lists_forget_of_ne hslot]

theorem listed_after (reqs : List (Message × Surroundings)) : Listed reqs (after reqs) := by
  induction reqs using List.reverseRecOn with
  | nil => exact fun p s hmap => by cases hmap
  | append_singleton reqs req ih =>
      rw [after_concat]
      exact ih.step (handle_step _ req) after_concat

end Directory

namespace NamingServer

/-- The registration of a server with ten paths, `0` to `9`. -/
def registerTen : Message × Surroundings :=
  ({ Message.zero with
      operation := .registerSs
      accessiblePaths := .ofFn fun i => .ofBytes _ [48 + UInt8.ofNat i]
      numAccessiblePaths := 10 },
    ⟨.receiveFailed, true, fun _ => 0⟩)

def createdA : Message × Surroundings := (createA, ⟨.replied .ack, true, fun _ => 0⟩)

/-- The registration of a server that names the path `0` twice. -/
def registerTwice : Message × Surroundings :=
  ({ Message.zero with
      operation := .registerSs
      accessiblePaths := .replicate _ (.ofBytes _ [48])
      numAccessiblePaths := 2 },
    ⟨.receiveFailed, true, fun _ => 0⟩)

/-- The second registration finds the path `0` known; `/a` is created on the first server. -/
def registeredAgain : List (Message × Surroundings) := [registerTwice, registerTen, createdA]

theorem not_reregistered_createdA : ¬Directory.Reregistered registeredAgain [47, 97] := by
  rintro ⟨pre, req, post, hreqs, -, -, hmem, -⟩
  have hnone : registeredAgain.all fun req => [47, 97] ∉ req.1.listedPaths := by decide +kernel
  have hreq : req ∈ registeredAgain := hreqs ▸ by simp
  exact of_decide_eq_true (List.all_eq_true.mp hnone req hreq) hmem

end NamingServer
end NetworkFileSystem
