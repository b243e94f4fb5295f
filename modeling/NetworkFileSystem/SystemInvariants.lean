import NetworkFileSystem.SystemEffects

/-!
# Invariants of every run

What holds of each request in every run from a state in which no request was submitted, whatever
fails: how its threads fit together, that its handler is at a place that fits the operation, and
that `ss_list_mutex` has one owner. The registry is consistent in every run from a consistent one.
-/

namespace NetworkFileSystem

open Interleaving Interleaving.World Machine

variable {net : Network} {sh sh' : Shared} {t t' : Threads} {a : Action} {r : ℕ}
  {own es : List Event} {w : World} {as : List (ℕ × Action)}

/-- The state before the first request. -/
abbrev start (sh : Shared) : World := .start sh .start

/-- How the threads of a request and the events it recorded fit together. -/
structure Linked (t : Threads) (own : List Event) : Prop where
  fresh : t.client = .idle → t = .start ∧ own = []
  replied : ∀ msg reply, t.client = .replied msg reply → .answered msg reply ∈ own
  contacted : t.client = .contacted → t.nm = .finished
  answered : ∀ msg reply, .answered msg reply ∈ own →
    t.nm = .finished ∧ ∀ msg' reply', .answered msg' reply' ∈ own → msg' = msg ∧ reply' = reply
  unforwarded : t.nm.Unforwarded → t.ssNm = .idle ∧ t.ssClient = .idle
  forwarded : t.ssNm.Busy → (∃ job, t.nm = .awaiting job) ∨ .lostReply ∈ own
  relayed : t.ssClient.Busy → (∃ s msg bytes, t.ssNm = .copyAwaiting s msg bytes) ∨
    .lostReply ∈ own ∨ ∃ msg reply, .answered msg reply ∈ own ∧ msg.IsLookup

theorem linked_start : Linked .start [] where
  fresh _ := ⟨rfl, rfl⟩
  replied _ _ h := by simp [Threads.start] at h
  contacted h := by simp [Threads.start] at h
  answered _ _ h := by simp at h
  unforwarded _ := ⟨rfl, rfl⟩
  forwarded h := absurd rfl h.1
  relayed h := absurd rfl h.1

theorem Linked.submitted (msg : Message) :
    Linked { Threads.start with client := .asked msg, nm := .incoming msg } [] where
  fresh h := by simp at h
  replied _ _ h := by simp at h
  contacted h := by simp at h
  answered _ _ h := by simp at h
  unforwarded _ := ⟨rfl, rfl⟩
  forwarded h := absurd rfl h.1
  relayed h := absurd rfl h.1

theorem Linked.step (hl : Linked t own) (h : Transition net r sh t a sh' t' es) :
    Linked t' (own ++ es) := by
  by_cases hclient : t.client = .idle
  · obtain ⟨rfl, rfl⟩ := hl.fresh hclient
    obtain ⟨msg, -, -, -, rfl, rfl⟩ := h.of_start
    exact .submitted msg
  have hreplied : ∀ msg reply, t.client = .replied msg reply → t.nm = .finished :=
    fun msg reply hr => (hl.answered msg reply (hl.replied msg reply hr)).1
  have hnew : ∀ msg reply, .answered msg reply ∈ es → ∀ msg' reply',
      .answered msg' reply' ∉ own := by
    intro msg reply hmem msg' reply' hold
    have hnm := (h.of_answered hmem).1
    rw [(hl.answered _ _ hold).1] at hnm
    cases hnm
  constructor
  case fresh =>
    intro hidle
    rcases h.client_cases with hc | hc | ⟨_, hc, -⟩ | ⟨_, _, -, -, hc⟩ | ⟨_, _, hc, -⟩
    · exact absurd (hc.symm.trans hidle) hclient
    · exact absurd (hc.symm.trans hidle) (by simp)
    · exact absurd hc hclient
    · exact absurd (hc.symm.trans hidle) (by simp)
    · exact absurd (hc.symm.trans hidle) (by simp)
  case replied =>
    intro msg reply hr
    rw [List.mem_append]
    rcases h.client_cases with hc | hc | ⟨_, hc, -⟩ | ⟨_, _, -, -, hc⟩ | ⟨_, _, hc, hmem⟩
    · exact Or.inl (hl.replied msg reply (hc ▸ hr))
    · exact absurd (hc.symm.trans hr) (by simp)
    · exact absurd hc hclient
    · exact absurd (hc.symm.trans hr) (by simp)
    · obtain ⟨rfl, rfl⟩ := ClientThread.replied.inj (hc.symm.trans hr)
      exact Or.inr hmem
  case contacted =>
    intro hcont
    rcases h.client_cases with hc | hc | ⟨_, hc, -⟩ | ⟨msg, reply, hc, -⟩ | ⟨_, _, hc, -⟩
    · exact h.nm_finished hclient (hl.contacted (hc ▸ hcont))
    · exact absurd (hc.symm.trans hcont) (by simp)
    · exact absurd hc hclient
    · exact h.nm_finished hclient (hreplied msg reply hc)
    · exact absurd (hc.symm.trans hcont) (by simp)
  case answered =>
    intro msg reply hmem
    rcases List.mem_append.mp hmem with hold | hes
    · refine ⟨h.nm_finished hclient (hl.answered msg reply hold).1, fun msg' reply' hmem' => ?_⟩
      rcases List.mem_append.mp hmem' with hold' | hes'
      · exact (hl.answered msg reply hold).2 msg' reply' hold'
      · exact absurd hold (hnew msg' reply' hes' msg reply)
    · obtain ⟨-, rfl, rfl⟩ := h.of_answered hes
      refine ⟨rfl, fun msg' reply' hmem' => ?_⟩
      rcases List.mem_append.mp hmem' with hold' | hes'
      · exact absurd hold' (hnew msg reply hes msg' reply')
      · simpa using hes'
  case unforwarded =>
    intro hnm
    exact h.unforwarded_ss hnm (hl.unforwarded (h.unforwarded hclient hnm)) hreplied
  case forwarded =>
    intro hss
    rcases h.ssNm_busy hss with hbusy | hjob
    · rcases hl.forwarded hbusy with ⟨job, hjob⟩ | hlost
      · rcases h.awaiting hclient hjob hss with hjob' | hlost
        · exact Or.inl ⟨job, hjob'⟩
        · exact Or.inr (List.mem_append_right _ hlost)
      · exact Or.inr (List.mem_append_left _ hlost)
    · exact Or.inl hjob
  case relayed =>
    intro hss
    rcases h.ssClient_busy hss with hbusy | ⟨msg, reply, hr, hmsg⟩ | hcopy
    · rcases hl.relayed hbusy with ⟨s, msg, bytes, hcopy⟩ | hlost | ⟨msg, reply, hmem, hmsg⟩
      · have hnm : ¬ t.nm.Unforwarded := fun hnm => hbusy.1 (hl.unforwarded hnm).2
        rcases h.copyAwaiting hnm hcopy hss with hcopy' | hlost
        · exact Or.inl ⟨s, msg, bytes, hcopy'⟩
        · exact Or.inr (Or.inl (List.mem_append_right _ hlost))
      · exact Or.inr (Or.inl (List.mem_append_left _ hlost))
      · exact Or.inr (Or.inr ⟨msg, reply, List.mem_append_left _ hmem, hmsg⟩)
    · exact Or.inr (Or.inr ⟨msg, reply, List.mem_append_left _ (hl.replied msg reply hr), hmsg⟩)
    · exact Or.inl hcopy

/-- A property of the whole system is kept if each step from a reachable state keeps it. -/
theorem world_invariant {C : World → ℕ × Action → Prop} {I : World → Prop}
    (hstep : ∀ pre w r a x, run (step net) (start sh) pre = some w → I w → C w (r, a) →
      Transition net r w.shared (w.locals r) a x.1 x.2.1 x.2.2 → I (w.after r x))
    (hstart : I (start sh)) (hsteps : EachStep (step net) C (start sh) as)
    (hrun : run (step net) (start sh) as = some w) : I w := by
  refine hsteps.invariant_of_run hstart ?_ hrun
  rintro pre u ⟨r, a⟩ v hpre hI hC hv
  obtain ⟨x, hx, rfl⟩ := step_eq_some.mp hv
  exact hstep pre u r a x hpre hI hC (.of_request hx)

/-- A property of the threads and the events of one request is kept if its steps keep it. -/
theorem request_invariant {Φ : Threads → List Event → Prop}
    (hstep : ∀ r sh t a sh' t' own es, Linked t own → Φ t own →
      Transition net r sh t a sh' t' es → Φ t' (own ++ es))
    (hstart : Φ .start []) (hrun : run (step net) (start sh) as = some w) (r : ℕ) :
    Linked (w.locals r) (w.own r) ∧ Φ (w.locals r) (w.own r) :=
  own_invariant (Φ := fun t own => Linked t own ∧ Φ t own) (C := fun _ _ => True)
    (fun w r a x _ hΦ hx => ⟨hΦ.1.step (.of_request hx),
      hstep r w.shared _ a x.1 _ _ _ hΦ.1 hΦ.2 (.of_request hx)⟩)
    (fun _ => ⟨linked_start, hstart⟩) (eachStep_true _ _) hrun r

/-- A property of each reply is kept if it holds when the handler settles on the reply and every
step keeps it. -/
theorem reply_invariant {Q : World → ℕ → Message → Message → Prop}
    (hnew : ∀ pre w r a x msg reply, run (step net) (start sh) pre = some w →
      Transition net r w.shared (w.locals r) a x.1 x.2.1 x.2.2 →
      (w.locals r).nm ≠ .answering msg reply → x.2.1.nm = .answering msg reply →
      Q (w.after r x) r msg reply)
    (hkeep : ∀ pre w r a x q msg reply, run (step net) (start sh) pre = some w →
      Transition net r w.shared (w.locals r) a x.1 x.2.1 x.2.2 →
      ((w.locals q).nm = .answering msg reply ∨ .answered msg reply ∈ w.own q) →
      Q w q msg reply → Q (w.after r x) q msg reply)
    (hrun : run (step net) (start sh) as = some w) {r : ℕ} {msg reply : Message}
    (hmem : .answered msg reply ∈ w.own r) : Q w r msg reply := by
  refine world_invariant (C := fun _ _ => True)
    (I := fun w => ∀ q msg reply,
      (w.locals q).nm = .answering msg reply ∨ .answered msg reply ∈ w.own q → Q w q msg reply)
    ?_ ?_ (eachStep_true _ _) hrun r msg reply (Or.inr hmem)
  · intro pre w r a x hpre hI _ h q msg reply hreply
    by_cases hold : (w.locals q).nm = .answering msg reply ∨ .answered msg reply ∈ w.own q
    · exact hkeep pre w r a x q msg reply hpre h hold (hI q msg reply hold)
    · rw [not_or] at hold
      by_cases hq : q = r
      · subst hq
        rw [locals_after_self, own_after_self, List.mem_append] at hreply
        rcases hreply with hnm | hmem | hmem
        · exact hnew pre w q a x msg reply hpre h hold.1 hnm
        · exact absurd hmem hold.2
        · exact absurd (h.of_answered hmem).1 hold.1
      · rw [locals_after_ne hq, own_after_ne hq] at hreply
        exact absurd hreply (not_or.mpr hold)
  · intro q msg reply hreply
    simp [start, World.start, Threads.start, World.own] at hreply

theorem linked_of_run (hrun : run (step net) (start sh) as = some w) (r : ℕ) :
    Linked (w.locals r) (w.own r) :=
  (request_invariant (Φ := fun _ _ => True) (fun _ _ _ _ _ _ _ _ _ _ _ => trivial) trivial
    hrun r).1

theorem fits_of_run (hrun : run (step net) (start sh) as = some w) (r : ℕ) :
    (w.locals r).nm.Fits :=
  (request_invariant (Φ := fun t _ => t.nm.Fits)
    (fun _ _ _ _ _ _ _ _ _ hfits h => h.fits hfits) trivial hrun r).2

/-- Behind a positive reply to a CREATE_FILE or DELETE_FILE stands the update of the trie. -/
theorem recorded_of_answered (hrun : run (step net) (start sh) as = some w) {msg reply : Message}
    (hmem : .answered msg reply ∈ w.own r) (hack : reply.Succeeded) :
    (msg.operation = .createFile → .inserted .createFile msg.path.str ∈ w.own r) ∧
      (msg.operation = .deleteFile → .invalidated msg.path.str ∈ w.own r) := by
  refine reply_invariant (Q := fun w r msg reply => reply.Succeeded →
    (msg.operation = .createFile → .inserted .createFile msg.path.str ∈ w.own r) ∧
      (msg.operation = .deleteFile → .invalidated msg.path.str ∈ w.own r)) ?_ ?_ hrun hmem hack
  · intro pre w r a x msg reply hpre h hnm hnm' hack
    have hfits := fits_of_run hpre r
    rw [own_after_self]
    constructor <;> intro hop
    · rcases h.positive_cases hfits (Or.inl hop) hnm' hack with hold | ⟨slot, -, hes⟩ |
        ⟨slot, hdrop, -⟩ | ⟨source, dest, isNew, hcopy⟩
      · exact absurd hold hnm
      · simp [hes]
      · rw [hdrop] at hfits
        exact absurd (hop.symm.trans hfits) (by decide)
      · rw [hcopy] at hfits
        exact absurd (hop.symm.trans hfits) (by decide)
    · rcases h.positive_cases hfits (Or.inr (Or.inl hop)) hnm' hack with hold | ⟨slot, hnm, -⟩ |
        ⟨slot, -, hes⟩ | ⟨source, dest, isNew, hcopy⟩
      · exact absurd hold hnm
      · rw [hnm] at hfits
        exact absurd (hop.symm.trans hfits) (by decide)
      · simp [hes]
      · rw [hcopy] at hfits
        exact absurd (hop.symm.trans hfits) (by decide)
  · intro pre w r a x q msg reply _ _ _ hQ hack
    exact ⟨fun hop => own_prefix_after.subset ((hQ hack).1 hop),
      fun hop => own_prefix_after.subset ((hQ hack).2 hop)⟩

theorem sendable_of_run (hrun : run (step net) (start sh) as = some w) (r : ℕ) (msg : Message)
    (hmsg : (w.locals r).nm.request = some msg) : msg.Sendable := by
  refine (request_invariant
    (Φ := fun t _ => ∀ msg, t.nm.request = some msg → msg.Sendable) ?_ ?_ hrun r).2 msg hmsg
  · intro r sh t a sh' t' own es _ hsend h msg hmsg
    rcases h.request_cases with heq | hnone | ⟨msg', heq, hmsg'⟩
    · exact hsend msg (heq ▸ hmsg)
    · rw [hnone] at hmsg
      cases hmsg
    · rw [heq] at hmsg
      exact Option.some.inj hmsg ▸ hmsg'
  · intro msg hmsg
    cases hmsg

/-! ### The mutex -/

theorem locked_of_run (hrun : run (step net) (start sh) as = some w) :
    ∀ r, (w.locals r).nm.Locked → w.shared.ssListMutex = some r := by
  refine local_invariant (Φ := fun q sh t _ => t.nm.Locked → sh.ssListMutex = some q)
    (C := fun _ _ => True) ?_ ?_ ?_ (eachStep_true _ _) hrun
  · intro w r a x hΦ _ hx hlocked
    rcases (Transition.of_request hx).mutex_cases with ⟨hm, hold⟩ | ⟨-, hm⟩ | ⟨-, -, hfree⟩
    · exact hm.trans (hΦ r (hold hlocked))
    · exact hm
    · exact absurd hlocked hfree
  · intro w r a x q hΦ _ hx hq hlocked
    rcases (Transition.of_request hx).mutex_cases with ⟨hm, -⟩ | ⟨hm, -⟩ | ⟨hown, -, -⟩
    · exact hm.trans (hΦ q hlocked)
    · rw [hΦ q hlocked] at hm
      cases hm
    · exact absurd (Option.some.inj ((hΦ q hlocked).symm.trans (hΦ r hown))) hq
  · intro q hlocked
    exact absurd hlocked (by simp [start, World.start, Threads.start, NmThread.Locked])

/-- While a handler holds the mutex, only its own steps change the trie. -/
theorem search_of_locked {q : ℕ} (hlocked : (w.locals q).nm.Locked)
    (hmutex : ∀ r, (w.locals r).nm.Locked → w.shared.ssListMutex = some r) (hq : q ≠ r)
    (h : Transition net r w.shared (w.locals r) a sh' t' es) (path : Path) :
    sh'.nm.search path = w.shared.nm.search path := by
  rcases h.trie_cases with ⟨hsearch, -⟩ | ⟨hnone | hown, -⟩
  · exact hsearch path
  · rw [hmutex q hlocked] at hnone
    cases hnone
  · exact absurd (Option.some.inj ((hmutex q hlocked).symm.trans (hmutex r hown))) hq

/-! ### The registry -/

/-- The registry between registrations. -/
structure NamingServer.WellFormed {κ : Type} (ns : NamingServer κ) : Prop where
  trie : ∀ path slot, ns.search path = some slot → slot.val < ns.numRegisteredSs.val
  cursor : ns.currentSsIndex.val ≤ ns.numRegisteredSs.val - 1
  ip : ∀ slot : Slot, slot.val < ns.numRegisteredSs.val →
    0 ∉ (ns.registeredSs slot).ip ∧ (ns.registeredSs slot).ip.length < inetAddrStrLen

theorem NamingServer.wellFormed_init {κ : Type} (cache : κ) : (init cache).WellFormed where
  trie path slot h := by simp at h
  cursor := Nat.le_refl 0
  ip slot h := absurd h (Nat.not_lt_zero _)

/-- The element of the array is a storage server: it is counted, or being registered. -/
def InUse (w : World) (slot : Slot) : Prop :=
  slot.val < w.shared.nm.numRegisteredSs.val ∨
    ∃ r msg i, (w.locals r).nm = .registering msg slot i

structure Registry (w : World) : Prop where
  registering : ∀ r msg slot i, (w.locals r).nm = .registering msg slot i →
    slot.val = w.shared.nm.numRegisteredSs.val
  trie : ∀ path slot, w.shared.nm.search path = some slot → InUse w slot
  cursor : w.shared.nm.currentSsIndex.val ≤ w.shared.nm.numRegisteredSs.val - 1
  slots : ∀ r, ∀ slot ∈ (w.locals r).nm.slots, InUse w slot
  ip : ∀ slot, InUse w slot →
    0 ∉ (w.shared.nm.address slot).1 ∧ (w.shared.nm.address slot).1.length < inetAddrStrLen

theorem registry_start (hns : sh.nm.WellFormed) : Registry (start sh) where
  registering _ _ _ _ h := by simp [start, World.start, Threads.start] at h
  trie path slot h := Or.inl (hns.trie path slot h)
  cursor := hns.cursor
  slots _ slot h := by simp [start, World.start, Threads.start, NmThread.slots] at h
  ip slot h := by
    rcases h with hlt | ⟨_, _, _, h⟩
    · exact hns.ip slot hlt
    · simp [start, World.start, Threads.start] at h

section Step

variable {x : Shared × Threads × List Event} {slot : Slot}

/-- One step keeps the servers that are in use, and their addresses. -/
theorem InUse.step (hreg : Registry w)
    (hlocked : ∀ q, (w.locals q).nm.Locked → w.shared.ssListMutex = some q)
    (hidle : (w.locals r).client = .idle → w.locals r = .start)
    (h : Transition net r w.shared (w.locals r) a x.1 x.2.1 x.2.2) (hslot : InUse w slot) :
    InUse (w.after r x) slot ∧
      (w.after r x).shared.nm.address slot = w.shared.nm.address slot := by
  rcases h.registry_cases hidle with ⟨haddress, hnum, hsame⟩ |
    ⟨msg, slot', -, -, -, hmutex, hval, -, haddress, hnum⟩ | ⟨msg, slot', i, hnm, haddress, hnum, -⟩
  · refine ⟨?_, haddress slot⟩
    rcases hslot with hlt | ⟨q, msg, i, hq⟩
    · exact Or.inl (hnum ▸ hlt)
    · by_cases hqr : q = r
      · subst hqr
        obtain ⟨msg', i', hreg'⟩ := (hsame slot).mpr ⟨msg, i, hq⟩
        exact Or.inr ⟨q, msg', i', by rw [locals_after_self, hreg']⟩
      · exact Or.inr ⟨q, msg, i, by rw [locals_after_ne hqr, hq]⟩
  · rcases hslot with hlt | ⟨q, msg, i, hq⟩
    · exact ⟨Or.inl (hnum ▸ hlt), haddress slot (fun heq => by rw [heq] at hlt; omega)⟩
    · have hsome := hlocked q (by rw [hq]; trivial)
      rw [hmutex] at hsome
      cases hsome
  · refine ⟨Or.inl ?_, haddress slot⟩
    have hval := hreg.registering r msg slot' i hnm
    have hle : slot.val ≤ w.shared.nm.numRegisteredSs.val := by
      rcases hslot with hlt | ⟨q, msg, i, hq⟩
      · exact hlt.le
      · exact (hreg.registering q msg slot i hq).le
    change slot.val < x.1.nm.numRegisteredSs.val
    omega

/-- The pointers that a handler gets are to servers in use, but for the one it registers. -/
theorem Registry.slots_step (hreg : Registry w)
    (h : Transition net r w.shared (w.locals r) a x.1 x.2.1 x.2.2) (hslot : slot ∈ x.2.1.nm.slots) :
    InUse w slot ∨ ∃ msg i, x.2.1.nm = .registering msg slot i := by
  rcases h.slots_cases hslot with hold | ⟨path, hsearch⟩ | ⟨hcursor, hpos⟩ | hnm
  · exact Or.inl (hreg.slots r slot hold)
  · exact Or.inl (hreg.trie path slot hsearch)
  · have hle := hreg.cursor
    exact Or.inl (Or.inl (by rw [hcursor]; omega))
  · exact Or.inr hnm

theorem InUse.of_step (hreg : Registry w)
    (hidle : (w.locals r).client = .idle → w.locals r = .start)
    (h : Transition net r w.shared (w.locals r) a x.1 x.2.1 x.2.2)
    (hslot : InUse (w.after r x) slot) :
    InUse w slot ∨ ∃ msg, (w.locals r).nm = .received msg ∧ x.2.1.nm = .registering msg slot 0 ∧
      (w.after r x).shared.nm.address slot = (msg.ssIp.str, msg.ssNmPort, msg.ssClientPort) := by
  have hother : ∀ q msg i, q ≠ r → ((w.after r x).locals q).nm = .registering msg slot i →
      InUse w slot := fun q msg i hqr hq => Or.inr ⟨q, msg, i, by rwa [locals_after_ne hqr] at hq⟩
  rcases h.registry_cases hidle with ⟨-, hnum, hsame⟩ |
    ⟨msg, slot', hnm, -, hstart, -, -, haddress, -, hnum⟩ | ⟨msg, slot', i, hnm, -, hnum, hno⟩
  · rcases hslot with hlt | ⟨q, msg, i, hq⟩
    · exact Or.inl (Or.inl (by rwa [shared_after, hnum] at hlt))
    · by_cases hqr : q = r
      · subst hqr
        rw [locals_after_self] at hq
        obtain ⟨msg', i', hold⟩ := (hsame slot).mp ⟨msg, i, hq⟩
        exact Or.inl (Or.inr ⟨q, msg', i', hold⟩)
      · exact Or.inl (hother q msg i hqr hq)
  · rcases hslot with hlt | ⟨q, msg', i, hq⟩
    · exact Or.inl (Or.inl (by rwa [shared_after, hnum] at hlt))
    · by_cases hqr : q = r
      · subst hqr
        rw [locals_after_self] at hq
        obtain ⟨-, rfl, -⟩ := NmThread.registering.inj (hstart.symm.trans hq)
        exact Or.inr ⟨msg, hnm, hstart, haddress⟩
      · exact Or.inl (hother q msg' i hqr hq)
  · have hval := hreg.registering r msg slot' i hnm
    rcases hslot with hlt | ⟨q, msg', i', hq⟩
    · rw [shared_after, hnum] at hlt
      rcases Nat.lt_succ_iff_lt_or_eq.mp hlt with hlt | heq
      · exact Or.inl (Or.inl (hval ▸ hlt))
      · exact Or.inl (Or.inr ⟨r, msg, i, by rw [hnm, Fin.ext heq]⟩)
    · by_cases hqr : q = r
      · subst hqr
        rw [locals_after_self] at hq
        exact absurd hq (hno msg' slot i')
      · exact Or.inl (hother q msg' i' hqr hq)

theorem Registry.step (hreg : Registry w)
    (hlocked : ∀ q, (w.locals q).nm.Locked → w.shared.ssListMutex = some q)
    (hidle : (w.locals r).client = .idle → w.locals r = .start)
    (hsend : ∀ msg, (w.locals r).nm.request = some msg → msg.Sendable)
    (h : Transition net r w.shared (w.locals r) a x.1 x.2.1 x.2.2) :
    Registry (w.after r x) := by
  have hkeep : ∀ slot, InUse w slot → InUse (w.after r x) slot := fun slot hslot =>
    (hslot.step hreg hlocked hidle h).1
  have hnew : ∀ slot msg i, x.2.1.nm = .registering msg slot i → InUse (w.after r x) slot :=
    fun slot msg i hnm => Or.inr ⟨r, msg, i, by rw [locals_after_self, hnm]⟩
  constructor
  case registering =>
    intro q msg slot i hq
    by_cases hqr : q = r
    · subst hqr
      rw [locals_after_self] at hq
      rcases h.registry_cases hidle with ⟨-, hnum, hsame⟩ |
        ⟨msg', slot', -, -, hstart, -, hval, -, -, hnum⟩ | ⟨_, _, _, _, -, -, hno⟩
      · obtain ⟨msg', i', hold⟩ := (hsame slot).mp ⟨msg, i, hq⟩
        exact (hreg.registering q msg' slot i' hold).trans (congrArg Fin.val hnum).symm
      · obtain ⟨-, rfl, -⟩ := NmThread.registering.inj (hstart.symm.trans hq)
        exact hval.trans (congrArg Fin.val hnum).symm
      · exact absurd hq (hno msg slot i)
    · rw [locals_after_ne hqr] at hq
      have hsome := hlocked q (by rw [hq]; trivial)
      rcases h.registry_cases hidle with ⟨-, hnum, -⟩ | ⟨_, _, -, -, -, hmutex, -⟩ |
        ⟨_, _, _, hnm, -⟩
      · exact (hreg.registering q msg slot i hq).trans (congrArg Fin.val hnum).symm
      · rw [hmutex] at hsome
        cases hsome
      · exact absurd (Option.some.inj (hsome.symm.trans (hlocked r (by rw [hnm]; trivial)))) hqr
  case trie =>
    intro path slot hsearch
    rcases h.trie_cases with ⟨hsame, -⟩ | ⟨-, ⟨_, q, slot', -, hslot', hins⟩ | ⟨q, -, hdel⟩⟩
    · exact hkeep slot (hreg.trie path slot ((hsame path).symm.trans hsearch))
    · have hval := (hins path).symm.trans hsearch
      split_ifs at hval with hpath
      · exact hkeep slot (hreg.slots r slot (Option.some.inj hval ▸ hslot'))
      · exact hkeep slot (hreg.trie path slot hval)
    · have hval := (hdel path).symm.trans hsearch
      split_ifs at hval with hpath
      exact hkeep slot (hreg.trie path slot hval)
  case cursor =>
    have hle := hreg.cursor
    change x.1.nm.currentSsIndex.val ≤ x.1.nm.numRegisteredSs.val - 1
    have hcursor : x.1.nm.currentSsIndex.val ≤ w.shared.nm.numRegisteredSs.val - 1 := by
      rcases h.cursor_cases with heq | hlt
      · exact (congrArg Fin.val heq).le.trans hle
      · omega
    rcases h.registry_cases hidle with ⟨-, hnum, -⟩ | ⟨_, _, -, -, -, -, -, -, -, hnum⟩ |
      ⟨msg, slot, i, hnm, -, hnum, -⟩
    · rwa [hnum]
    · rwa [hnum]
    · have hval := hreg.registering r msg slot i hnm
      omega
  case slots =>
    intro q slot hslot
    by_cases hqr : q = r
    · subst hqr
      rw [locals_after_self] at hslot
      rcases hreg.slots_step h hslot with hold | ⟨msg, i, hnm⟩
      · exact hkeep slot hold
      · exact hnew slot msg i hnm
    · rw [locals_after_ne hqr] at hslot
      exact hkeep slot (hreg.slots q slot hslot)
  case ip =>
    intro slot hslot
    rcases hslot.of_step hreg hidle h with hold | ⟨msg, hnm, -, haddress⟩
    · rw [(hold.step hreg hlocked hidle h).2]
      exact hreg.ip slot hold
    · obtain ⟨-, -, hip, -⟩ := hsend msg (by rw [hnm]; rfl)
      rw [haddress]
      exact ⟨msg.ssIp.zero_notMem_str, hip⟩

end Step

theorem registry_of_run (hns : sh.nm.WellFormed) (hrun : run (step net) (start sh) as = some w) :
    Registry w :=
  world_invariant (C := fun _ _ => True)
    (fun _ _ r _ _ hpre hreg _ h => hreg.step (locked_of_run hpre)
      (fun hidle => ((linked_of_run hpre r).fresh hidle).1) (sendable_of_run hpre r) h)
    (registry_start hns) (eachStep_true _ _) hrun

end NetworkFileSystem
