import NetworkFileSystem.CopyFidelity

/-!
# The trie and the disks agree at rest

Between the file operation of a storage server and the update of the trie by the naming server, the
two disagree on the path of the request. Where the operations on a path keep out of each other's
way, a disagreement always has such a request behind it.
-/

namespace NetworkFileSystem

open Interleaving Interleaving.World Machine

/-! ### Requests between the disk and the trie -/

/-- The path that the job adds to the trie, and the server that it maps it to. -/
def Job.places : Job → Option (Path × Slot)
  | create msg target => some (msg.path.str, target)
  | copy msg _ dest true => some (msg.path2.str, dest)
  | _ => none

def Job.removes : Job → Option Path
  | delete msg _ => some msg.path.str
  | _ => none

namespace Threads

/-- A storage server has performed the job with success, and the trie is not updated yet. -/
def performed (t : Threads) : Option Job :=
  match t.nm with
  | .awaiting job =>
    match t.ssNm, t.ssClient with
    | .answering _ response, _ | .copyAwaiting _ _ _, .answering _ response =>
      if response.Succeeded then some job else none
    | _, _ => none
  | .concluding job => some job
  | _ => none

def placing (t : Threads) : Option (Path × Slot) := t.performed.bind Job.places

def removing (t : Threads) : Option Path := t.performed.bind Job.removes

end Threads

/-- No other server has the path, and no deletion of it has still to reach the trie. -/
def FreeFor (w : World) (s : Server) (path : Path) : Prop :=
  (∀ s', s' ≠ s → w.shared.disks s' path = none) ∧ ∀ q, (w.locals q).removing ≠ some path

def NmThread.CopiesToNew : NmThread → Prop
  | awaiting (.copy _ _ _ true) => True
  | _ => False

/-- The operations on a path keep out of each other's way: what is added to the trie afterwards is
created on one server only and not during a deletion, what is deleted is not just being added, and
any other write finds the file. -/
def Separated (w : World) : ℕ × Action → Prop
  | (r, .ssNm os) =>
    match (w.locals r).ssNm with
    | .incoming s m =>
      (m.operation = .createFile → ((w.shared.disks s).createFile os m).1 = .success →
        FreeFor w s m.path.str) ∧
      (m.operation = .deleteFile → ((w.shared.disks s).deleteFile os m).1 = .success →
        ∀ q slot, (w.locals q).placing ≠ some (m.path.str, slot))
    | _ => True
  | (r, .ssClient os) =>
    match (w.locals r).ssClient with
    | .incoming s m => m.operation = .writeFile → ∀ code,
      ((w.shared.disks s).writeFile os m).1 = code →
      ((w.locals r).nm.CopiesToNew ∧ code = .success → FreeFor w s m.path.str) ∧
      (¬((w.locals r).nm.CopiesToNew ∧ code = .success) →
        code = .success ∨ code = .asyncWriteFailed → (w.shared.disks s m.path.str).isSome)
    | _ => True
  | _ => True

/-- Nothing fails on the way, and no storage server registers. -/
def Action.Lossless : Action → Prop
  | .submit msg => msg.operation ≠ .registerSs
  | .client | .nm | .ssNm _ | .ssClient _ => True
  | _ => False

section Consistency

variable (server : Slot → Server)

/-- The path exists on a server exactly when the trie maps it to this server. -/
def AgreeAt (sh : Shared) (path : Path) : Prop :=
  ∀ s, (sh.disks s path).isSome ↔ ∃ slot, sh.nm.search path = some slot ∧ server slot = s

/-- Every disagreement has a request behind it. -/
structure Consistent (w : World) (path : Path) : Prop where
  exclusive : (∃ r, (w.locals r).removing = some path) →
    ∀ r slot, (w.locals r).placing ≠ some (path, slot)
  removing : (∃ r, (w.locals r).removing = some path) → ∀ s, w.shared.disks s path = none
  placing : ∀ r slot, (w.locals r).placing = some (path, slot) →
    (∀ s, (w.shared.disks s path).isSome ↔ s = server slot) ∧
      ∀ slot', w.shared.nm.search path = some slot' → server slot' = server slot
  settled : (∀ r, (w.locals r).removing ≠ some path) →
    (∀ r slot, (w.locals r).placing ≠ some (path, slot)) → AgreeAt server w.shared path

/-- What a step of the request `r` means to the agreement. -/
inductive Shifts (w : World) (r : ℕ) (x : Shared × Threads × List Event) : Prop
  | quiet (hdisks : ∀ s path, (x.1.disks s path).isSome = (w.shared.disks s path).isSome)
    (hsearch : ∀ path, x.1.nm.search path = w.shared.nm.search path)
    (hplacing : x.2.1.placing = (w.locals r).placing)
    (hremoving : x.2.1.removing = (w.locals r).removing)
  | placed (path : Path) (slot : Slot) (hfree : FreeFor w (server slot) path)
    (hplacing : (w.locals r).placing = none ∧ x.2.1.placing = some (path, slot))
    (hremoving : x.2.1.removing = (w.locals r).removing)
    (hdisks : ∀ s q, s ≠ server slot ∨ q ≠ path →
      (x.1.disks s q).isSome = (w.shared.disks s q).isSome)
    (hexists : (x.1.disks (server slot) path).isSome)
    (hsearch : ∀ path, x.1.nm.search path = w.shared.nm.search path)
  | removed (path : Path) (s : Server)
    (hnone : ∀ q slot, (w.locals q).placing ≠ some (path, slot))
    (hplacing : x.2.1.placing = (w.locals r).placing)
    (hremoving : (w.locals r).removing = none ∧ x.2.1.removing = some path)
    (hdisks : ∀ s' q, s' ≠ s ∨ q ≠ path →
      (x.1.disks s' q).isSome = (w.shared.disks s' q).isSome)
    (hexisted : (w.shared.disks s path).isSome) (hgone : x.1.disks s path = none)
    (hsearch : ∀ path, x.1.nm.search path = w.shared.nm.search path)
  | recorded (path : Path) (slot : Slot)
    (hplacing : (w.locals r).placing = some (path, slot) ∧ x.2.1.placing = none)
    (hremoving : x.2.1.removing = (w.locals r).removing) (hdisks : x.1.disks = w.shared.disks)
    (hsearch : ∀ q, x.1.nm.search q = if q = path then some slot else w.shared.nm.search q)
  | dropped (path : Path) (hplacing : x.2.1.placing = (w.locals r).placing)
    (hremoving : (w.locals r).removing = some path ∧ x.2.1.removing = none)
    (hdisks : x.1.disks = w.shared.disks)
    (hsearch : ∀ q, x.1.nm.search q = if q = path then none else w.shared.nm.search q)

end Consistency

section Steps

variable {server : Slot → Server} {w : World} {r : ℕ} {x : Shared × Threads × List Event}
  {path : Path}

theorem AgreeAt.congr {sh sh' : Shared} (h : AgreeAt server sh path)
    (hdisks : ∀ s, (sh'.disks s path).isSome = (sh.disks s path).isSome)
    (hsearch : sh'.nm.search path = sh.nm.search path) : AgreeAt server sh' path := by
  intro s
  rw [hdisks, hsearch]
  exact h s

/-- A step that does not concern the path. -/
theorem Consistent.congr (h : Consistent server w path)
    (hdisks : ∀ s, (x.1.disks s path).isSome = (w.shared.disks s path).isSome)
    (hsearch : x.1.nm.search path = w.shared.nm.search path)
    (hplacing : ∀ slot, x.2.1.placing = some (path, slot) ↔
      (w.locals r).placing = some (path, slot))
    (hremoving : x.2.1.removing = some path ↔ (w.locals r).removing = some path) :
    Consistent server (w.after r x) path := by
  have hplacing' : ∀ q slot, ((w.after r x).locals q).placing = some (path, slot) ↔
      (w.locals q).placing = some (path, slot) := by
    intro q slot
    by_cases hq : q = r
    · subst hq
      rw [locals_after_self, hplacing]
    · rw [locals_after_ne hq]
  have hremoving' : ∀ q, ((w.after r x).locals q).removing = some path ↔
      (w.locals q).removing = some path := by
    intro q
    by_cases hq : q = r
    · subst hq
      rw [locals_after_self, hremoving]
    · rw [locals_after_ne hq]
  constructor
  case exclusive =>
    simp only [ne_eq, hplacing', hremoving']
    exact h.exclusive
  case removing =>
    simp only [hremoving', shared_after]
    intro hr s
    have hnone := h.removing hr s
    rw [← Option.isNone_iff_eq_none, ← Option.not_isSome, Bool.not_eq_true'] at hnone ⊢
    exact (hdisks s).trans hnone
  case placing =>
    simp only [hplacing', shared_after, hdisks, hsearch]
    exact h.placing
  case settled =>
    simp only [ne_eq, hplacing', hremoving', shared_after]
    exact fun hr hp => (h.settled hr hp).congr hdisks hsearch

theorem placing_after_of_ne {q : ℕ} (hq : q ≠ r) :
    ((w.after r x).locals q).placing = (w.locals q).placing := by rw [locals_after_ne hq]

theorem removing_after_of_ne {q : ℕ} (hq : q ≠ r) :
    ((w.after r x).locals q).removing = (w.locals q).removing := by rw [locals_after_ne hq]

/-- The step leaves the removals as they are. -/
theorem removing_after (hremoving : x.2.1.removing = (w.locals r).removing) (q : ℕ) :
    ((w.after r x).locals q).removing = (w.locals q).removing := by
  by_cases hq : q = r
  · subst hq
    rw [locals_after_self, hremoving]
  · exact removing_after_of_ne hq

theorem placing_after (hplacing : x.2.1.placing = (w.locals r).placing) (q : ℕ) :
    ((w.after r x).locals q).placing = (w.locals q).placing := by
  by_cases hq : q = r
  · subst hq
    rw [locals_after_self, hplacing]
  · exact placing_after_of_ne hq

/-- Where the path is on no other server, so is what the trie maps it to and what is being added. -/
theorem Consistent.free {slot : Slot} (h : Consistent server w path)
    (hfree : FreeFor w (server slot) path) :
    (∀ q slot', (w.locals q).placing = some (path, slot') → server slot' = server slot) ∧
      ∀ slot', w.shared.nm.search path = some slot' → server slot' = server slot := by
  have honly : ∀ s, (w.shared.disks s path).isSome → s = server slot := by
    intro s hs
    by_contra hne
    rw [hfree.1 s hne] at hs
    cases hs
  refine ⟨fun q slot' hq => honly _ (((h.placing q slot' hq).1 _).mpr rfl), fun slot' hslot' => ?_⟩
  by_cases hplacing : ∃ q slot'', (w.locals q).placing = some (path, slot'')
  · obtain ⟨q, slot'', hq⟩ := hplacing
    rw [(h.placing q slot'' hq).2 slot' hslot']
    exact honly _ (((h.placing q slot'' hq).1 _).mpr rfl)
  · have hagree := h.settled hfree.2 fun q slot'' hq => hplacing ⟨q, slot'', hq⟩
    exact honly _ ((hagree _).mpr ⟨slot', hslot', rfl⟩)

theorem Consistent.placed {slot : Slot} (h : Consistent server w path)
    (hfree : FreeFor w (server slot) path) (hplacing : x.2.1.placing = some (path, slot))
    (hremoving : x.2.1.removing = (w.locals r).removing)
    (hdisks : ∀ s, s ≠ server slot →
      (x.1.disks s path).isSome = (w.shared.disks s path).isSome)
    (hexists : (x.1.disks (server slot) path).isSome)
    (hsearch : x.1.nm.search path = w.shared.nm.search path) :
    Consistent server (w.after r x) path := by
  have hnone : ¬∃ q, ((w.after r x).locals q).removing = some path := fun ⟨q, hq⟩ =>
    hfree.2 q (removing_after hremoving q ▸ hq)
  obtain ⟨hothers, htrie⟩ := h.free hfree
  have hmine : ((w.after r x).locals r).placing = some (path, slot) := by
    rw [locals_after_self, hplacing]
  refine ⟨fun hr => absurd hr hnone, fun hr => absurd hr hnone, fun q slot' hq => ?_,
    fun _ hp => absurd hmine (hp r slot)⟩
  have hslot' : server slot' = server slot := by
    by_cases hqr : q = r
    · subst hqr
      rw [(Prod.mk.inj (Option.some.inj (hmine.symm.trans hq))).2]
    · exact hothers q slot' (placing_after_of_ne hqr ▸ hq)
  rw [hslot', shared_after]
  refine ⟨fun s => ?_, fun slot'' hslot'' => htrie slot'' (hsearch ▸ hslot'')⟩
  by_cases hs : s = server slot
  · exact iff_of_true (hs ▸ hexists) hs
  · refine iff_of_false ?_ hs
    rw [hdisks s hs, hfree.1 s hs]
    simp

theorem Consistent.removed {s : Server} (h : Consistent server w path)
    (hnone : ∀ q slot, (w.locals q).placing ≠ some (path, slot))
    (hplacing : x.2.1.placing = (w.locals r).placing) (hremoving : x.2.1.removing = some path)
    (hdisks : ∀ s', s' ≠ s → (x.1.disks s' path).isSome = (w.shared.disks s' path).isSome)
    (hexisted : (w.shared.disks s path).isSome) (hgone : x.1.disks s path = none) :
    Consistent server (w.after r x) path := by
  have hnone' : ∀ q slot, ((w.after r x).locals q).placing ≠ some (path, slot) := fun q slot =>
    placing_after hplacing q ▸ hnone q slot
  have hsettled : ∀ q, (w.locals q).removing ≠ some path := by
    intro q hq
    rw [h.removing ⟨q, hq⟩ s] at hexisted
    cases hexisted
  have hagree := h.settled hsettled hnone
  obtain ⟨slot, hslot, rfl⟩ := (hagree s).mp hexisted
  refine ⟨fun _ => hnone', fun _ s' => ?_, fun q slot hq => absurd hq (hnone' q slot),
    fun hr => absurd (by rw [locals_after_self, hremoving]) (hr r)⟩
  rw [shared_after]
  by_cases hs : s' = server slot
  · rw [hs, hgone]
  · rw [← Option.not_isSome_iff_eq_none, hdisks s' hs, hagree]
    rintro ⟨slot', hslot', rfl⟩
    obtain rfl := Option.some.inj (hslot.symm.trans hslot')
    exact hs rfl

theorem Consistent.recorded {slot : Slot} (h : Consistent server w path)
    (hplacing : (w.locals r).placing = some (path, slot) ∧ x.2.1.placing = none)
    (hremoving : x.2.1.removing = (w.locals r).removing) (hdisks : x.1.disks = w.shared.disks)
    (hsearch : x.1.nm.search path = some slot) : Consistent server (w.after r x) path := by
  have hnone : ¬∃ q, ((w.after r x).locals q).removing = some path := fun ⟨q, hq⟩ =>
    h.exclusive ⟨q, removing_after hremoving q ▸ hq⟩ r slot hplacing.1
  obtain ⟨hexists, -⟩ := h.placing r slot hplacing.1
  refine ⟨fun hr => absurd hr hnone, fun hr => absurd hr hnone, fun q slot' hq => ?_,
    fun _ _ s => ?_⟩
  · have hqr : q ≠ r := by
      rintro rfl
      rw [locals_after_self, hplacing.2] at hq
      cases hq
    obtain ⟨hexists', -⟩ := h.placing q slot' (placing_after_of_ne hqr ▸ hq)
    rw [shared_after, hdisks]
    refine ⟨hexists', fun slot'' hslot'' => ?_⟩
    obtain rfl := Option.some.inj (hsearch.symm.trans hslot'')
    exact (hexists' _).mp ((hexists _).mpr rfl)
  · rw [shared_after, hdisks, hexists s, hsearch]
    constructor
    · rintro rfl
      exact ⟨slot, rfl, rfl⟩
    · rintro ⟨slot', hslot', rfl⟩
      rw [Option.some.inj hslot']

theorem Consistent.dropped (h : Consistent server w path)
    (hplacing : x.2.1.placing = (w.locals r).placing)
    (hremoving : (w.locals r).removing = some path) (hdisks : x.1.disks = w.shared.disks)
    (hsearch : x.1.nm.search path = none) : Consistent server (w.after r x) path := by
  have hnone : ∀ q slot, ((w.after r x).locals q).placing ≠ some (path, slot) := fun q slot =>
    placing_after hplacing q ▸ h.exclusive ⟨r, hremoving⟩ q slot
  have hgone := h.removing ⟨r, hremoving⟩
  refine ⟨fun _ => hnone, fun _ s => ?_, fun q slot hq => absurd hq (hnone q slot),
    fun _ _ s => ?_⟩
  · rw [shared_after, hdisks]
    exact hgone s
  · rw [shared_after, hdisks, hgone s, hsearch]
    simp

/-- Every disagreement still has a request behind it after the step. -/
theorem Shifts.consistent (h : ∀ path, Consistent server w path) (hx : Shifts server w r x)
    (path : Path) : Consistent server (w.after r x) path := by
  cases hx with
  | quiet hdisks hsearch hplacing hremoving =>
      exact (h path).congr (fun s => hdisks s path) (hsearch path) (fun _ => by rw [hplacing])
        (by rw [hremoving])
  | placed p slot hfree hplacing hremoving hdisks hexists hsearch =>
      by_cases hp : path = p
      · subst hp
        exact (h path).placed hfree hplacing.2 hremoving (fun s hs => hdisks s path (Or.inl hs))
          hexists (hsearch path)
      · refine (h path).congr (fun s => hdisks s path (Or.inr hp)) (hsearch path) (fun slot' => ?_)
          (by rw [hremoving])
        rw [hplacing.1, hplacing.2]
        simp [Ne.symm hp]
  | removed p s hnone hplacing hremoving hdisks hexisted hgone hsearch =>
      by_cases hp : path = p
      · subst hp
        exact (h path).removed hnone hplacing hremoving.2 (fun s' hs => hdisks s' path (Or.inl hs))
          hexisted hgone
      · refine (h path).congr (fun s' => hdisks s' path (Or.inr hp)) (hsearch path)
          (fun _ => by rw [hplacing]) ?_
        rw [hremoving.1, hremoving.2]
        simp [Ne.symm hp]
  | recorded p slot hplacing hremoving hdisks hsearch =>
      by_cases hp : path = p
      · subst hp
        exact (h path).recorded hplacing hremoving hdisks ((hsearch path).trans (if_pos rfl))
      · refine (h path).congr (fun s => by rw [hdisks]) ((hsearch path).trans (if_neg hp))
          (fun slot' => ?_) (by rw [hremoving])
        rw [hplacing.1, hplacing.2]
        simp [Ne.symm hp]
  | dropped p hplacing hremoving hdisks hsearch =>
      by_cases hp : path = p
      · subst hp
        exact (h path).dropped hplacing hremoving.1 hdisks ((hsearch path).trans (if_pos rfl))
      · refine (h path).congr (fun s => by rw [hdisks]) ((hsearch path).trans (if_neg hp))
          (fun _ => by rw [hplacing]) ?_
        rw [hremoving.1, hremoving.2]
        simp [Ne.symm hp]

end Steps

/-! ### What the steps mean to the agreement -/

section Transitions

variable {net : Network} {server : Slot → Server} {w : World} {r : ℕ} {a : Action}
  {x : Shared × Threads × List Event} {t : Threads}

theorem Shifts.of_performed (hdisks : ∀ s path, (x.1.disks s path).isSome =
      (w.shared.disks s path).isSome)
    (hsearch : ∀ path, x.1.nm.search path = w.shared.nm.search path)
    (hperformed : x.2.1.performed = (w.locals r).performed) : Shifts server w r x :=
  .quiet hdisks hsearch (congrArg (·.bind Job.places) hperformed)
    (congrArg (·.bind Job.removes) hperformed)

theorem Threads.performed_of_refusable {msg : Message} (h : t.nm.refusable = some msg) :
    t.performed = none := by
  cases hnm : t.nm <;> simp_all [Threads.performed, NmThread.refusable]

/-- While the NM handler of the storage server does not wait, the client handler is of no
concern. -/
theorem Threads.performed_of_ne_copyAwaiting {client : ClientThread} {nm : NmThread}
    {ssNm : SsNmThread} (hne : ∀ s m bytes, ssNm ≠ .copyAwaiting s m bytes)
    (ssClient ssClient' : SsClientThread) :
    performed ⟨client, nm, ssNm, ssClient'⟩ = performed ⟨client, nm, ssNm, ssClient⟩ := by
  cases ssNm with
  | copyAwaiting s m bytes => exact absurd rfl (hne s m bytes)
  | _ => rfl

/-- What the handler of a request knows about it. -/
structure Informed (net : Network) (server : Slot → Server) (w : World) (r : ℕ) : Prop where
  linked : Linked (w.locals r) (w.own r)
  fits : (w.locals r).nm.Fits
  evidence : (w.locals r).Evidence net w.shared.nm.address (w.own r)
  lossless : .lostReply ∉ w.own r
  unregistered : ∀ msg, (w.locals r).nm.request = some msg → msg.operation ≠ .registerSs
  servers : ∀ slot ∈ (w.locals r).nm.slots,
    net.nmServer (w.shared.nm.address slot) = some (server slot) ∧
      net.clientServer (w.shared.nm.address slot) = some (server slot)

/-- A storage server at work serves a job of its own. -/
theorem Informed.awaiting (h : Informed net server w r) (hbusy : (w.locals r).ssNm.Busy) :
    ∃ job, (w.locals r).nm = .awaiting job :=
  (h.linked.forwarded hbusy).resolve_right h.lossless

/-- A client handler at work for no copy serves the client, which has its answer. -/
theorem Informed.finished (h : Informed net server w r) (hbusy : (w.locals r).ssClient.Busy)
    (hne : ∀ s m bytes, (w.locals r).ssNm ≠ .copyAwaiting s m bytes) :
    (w.locals r).nm = .finished := by
  rcases h.linked.relayed hbusy with ⟨s, m, bytes, hcopy⟩ | hlost | ⟨msg, reply, hmem, -⟩
  · exact absurd hcopy (hne s m bytes)
  · exact absurd hlost h.lossless
  · exact (h.linked.answered msg reply hmem).1

theorem Informed.serving (h : Informed net server w r) {job : Job}
    (hnm : (w.locals r).nm = .awaiting job) :
    job.Fits ∧ job.Serving net w.shared.nm.address (w.own r) (w.locals r).ssNm
      (w.locals r).ssClient ∧
      ∀ slot ∈ job.slots, net.nmServer (w.shared.nm.address slot) = some (server slot) ∧
        net.clientServer (w.shared.nm.address slot) = some (server slot) := by
  have hfits := h.fits
  have hevidence := h.evidence
  have hservers := h.servers
  unfold Threads.Evidence at hevidence
  rw [hnm] at hfits hevidence hservers
  exact ⟨hfits, hevidence, hservers⟩

/-- The disk of one server changes at one path only. -/
theorem isSome_update_disk {disks : Server → Disk} {disk : Disk} {s : Server}
    (hother : ∀ q, q ≠ path → disk q = disks s q) (s' : Server) (q : Path)
    (hne : s' ≠ s ∨ q ≠ path) :
    (Function.update disks s disk s' q).isSome = (disks s' q).isSome := by
  by_cases hs : s' = s
  · subst hs
    rw [Function.update_self, hother q (hne.resolve_left fun h => h rfl)]
  · rw [Function.update_of_ne hs]

/-- A storage server performs a job that adds a path. -/
theorem Shifts.of_placed {job : Job} {slot : Slot} {disk : Disk} {t' : Threads} {es : List Event}
    (hbefore : (w.locals r).performed = none) (hafter : t'.performed = some job)
    (hplaces : job.places = some (path, slot)) (hremoves : job.removes = none)
    (hfree : FreeFor w (server slot) path) (hexists : (disk path).isSome)
    (hother : ∀ q, q ≠ path → disk q = w.shared.disks (server slot) q) :
    Shifts server w r
      ({ w.shared with disks := Function.update w.shared.disks (server slot) disk }, t', es) := by
  refine .placed path slot hfree ⟨?_, ?_⟩ ?_ (isSome_update_disk hother) ?_ fun _ => rfl
  · rw [Threads.placing, hbefore, Option.bind_none]
  · rw [Threads.placing, hafter, Option.bind_some, hplaces]
  · rw [Threads.removing, Threads.removing, hafter, hbefore, Option.bind_some, hremoves]
    rfl
  · dsimp only
    rw [Function.update_self]
    exact hexists

/-- A storage server performs a CREATE_FILE. -/
theorem Informed.ssCreate (hi : Informed net server w r) {os : Os} {s : Server} {m : Message}
    {code : ErrorCode} {disk : Disk} {es : List Event} (hss : (w.locals r).ssNm = .incoming s m)
    (hop : m.operation = .createFile) (hdisk : (w.shared.disks s).createFile os m = (code, disk))
    (hcond : Separated w (r, .ssNm os)) :
    Shifts server w r ({ w.shared with disks := Function.update w.shared.disks s disk },
      { w.locals r with ssNm := .answering s (.result code) }, es) := by
  obtain ⟨job, hnm⟩ := hi.awaiting (by simp [SsNmThread.Busy, hss])
  obtain ⟨hfits, hserving, hservers⟩ := hi.serving hnm
  have hbefore : (w.locals r).performed = none := by simp [Threads.performed, hnm, hss]
  rw [hss] at hserving
  rcases Disk.createFile_cases (w.shared.disks s) os m with ⟨code', hcode, heq⟩ |
    ⟨disk', heq, hexists, hother⟩ <;> obtain ⟨rfl, rfl⟩ := Prod.mk.inj (hdisk.symm.trans heq)
  · refine .of_performed (fun s' path => ?_) (fun _ => rfl) ?_
    · rw [Function.update_eq_self]
    · simp [Threads.performed, hnm, hss, Message.result_succeeded_iff, hcode]
  · cases job with
    | delete msg target =>
        obtain rfl : m = msg := hserving.2.1
        cases hop.symm.trans hfits
    | copy msg source dest isNew => cases hop.symm.trans hserving.2.1.1
    | create msg target =>
        obtain rfl : m = msg := hserving.2.1
        obtain rfl : s = server target := Option.some.inj
          (hserving.1.symm.trans (hservers target (by simp [Job.slots])).1)
        simp only [Separated, hss, hdisk] at hcond
        have hafter : Threads.performed { w.locals r with
            ssNm := .answering (server target) (.result .success) } =
            some (.create m target) := by
          simp [Threads.performed, hnm, Message.result_succeeded_iff]
        exact .of_placed hbefore hafter rfl rfl (hcond.1 hop trivial) hexists hother

/-- A storage server performs a DELETE_FILE. -/
theorem Informed.ssDelete (hi : Informed net server w r) {os : Os} {s : Server} {m : Message}
    {code : ErrorCode} {disk : Disk} {es : List Event} (hss : (w.locals r).ssNm = .incoming s m)
    (hop : m.operation = .deleteFile) (hdisk : (w.shared.disks s).deleteFile os m = (code, disk))
    (hcond : Separated w (r, .ssNm os)) :
    Shifts server w r ({ w.shared with disks := Function.update w.shared.disks s disk },
      { w.locals r with ssNm := .answering s (.result code) }, es) := by
  obtain ⟨job, hnm⟩ := hi.awaiting (by simp [SsNmThread.Busy, hss])
  obtain ⟨hfits, hserving, -⟩ := hi.serving hnm
  have hbefore : (w.locals r).performed = none := by simp [Threads.performed, hnm, hss]
  rw [hss] at hserving
  rcases Disk.deleteFile_cases (w.shared.disks s) os m with ⟨code', hcode, heq⟩ |
    ⟨hexisted, heq⟩ <;> obtain ⟨rfl, rfl⟩ := Prod.mk.inj (hdisk.symm.trans heq)
  · refine .of_performed (fun s' path => ?_) (fun _ => rfl) ?_
    · rw [Function.update_eq_self]
    · simp [Threads.performed, hnm, hss, Message.result_succeeded_iff, hcode]
  · cases job with
    | create msg target =>
        obtain rfl : m = msg := hserving.2.1
        cases hop.symm.trans hfits
    | copy msg source dest isNew => cases hop.symm.trans hserving.2.1.1
    | delete msg target =>
        obtain rfl : m = msg := hserving.2.1
        simp only [Separated, hss, hdisk] at hcond
        have hafter : Threads.performed { w.locals r with
            ssNm := .answering s (.result .success) } = some (.delete m target) := by
          simp [Threads.performed, hnm, Message.result_succeeded_iff]
        refine .removed m.path.str s (hcond.2 hop trivial) ?_ ⟨?_, ?_⟩
          (isSome_update_disk fun q hq => Function.update_of_ne hq _ _) hexisted ?_ fun _ => rfl
        · rw [Threads.placing, Threads.placing, hafter, hbefore]
          rfl
        · rw [Threads.removing, hbefore, Option.bind_none]
        · rw [Threads.removing, hafter]
          rfl
        · dsimp only
          rw [Function.update_self, Function.update_self]

/-- A write that finds the file, or that does not open it. -/
theorem isSome_update_of_writeFile {disks : Server → Disk} {os : Os} {s : Server} {m : Message}
    {code : ErrorCode} {disk : Disk} (hdisk : (disks s).writeFile os m = (code, disk))
    (hcond : code = .success ∨ code = .asyncWriteFailed → (disks s m.path.str).isSome)
    (s' : Server) (q : Path) :
    (Function.update disks s disk s' q).isSome = (disks s' q).isSome := by
  by_cases hs : s' = s
  · subst hs
    rw [Function.update_self]
    rcases Disk.writeFile_cases (disks s') os m with ⟨code', -, -, heq⟩ |
      ⟨code', disk', heq, hcode, hexists, hother⟩ <;>
      obtain ⟨rfl, rfl⟩ := Prod.mk.inj (hdisk.symm.trans heq)
    · rfl
    · by_cases hq : q = m.path.str
      · subst hq
        rw [hexists, hcond hcode]
      · rw [hother q hq]
  · rw [Function.update_of_ne hs]

/-- The write of a COPY_FILE to a new path. -/
theorem Informed.ssWrite_new (hi : Informed net server w r) {s s' : Server} {m m' : Message}
    {bytes : List UInt8} {disk : Disk} {es : List Event} {os : Os}
    (hcopy : (w.locals r).ssNm = .copyAwaiting s' m' bytes)
    (hss : (w.locals r).ssClient = .incoming s m) {msg : Message} {source dest : Slot}
    (hnm : (w.locals r).nm = .awaiting (.copy msg source dest true))
    (hdisk : (w.shared.disks s).writeFile os m = (.success, disk))
    (hfree : FreeFor w s m.path.str) :
    Shifts server w r ({ w.shared with disks := Function.update w.shared.disks s disk },
      { w.locals r with ssClient := .answering s (.result .success) }, es) := by
  obtain ⟨-, hserving, hservers⟩ := hi.serving hnm
  rw [hcopy, hss] at hserving
  obtain ⟨⟨msg', source', dest', isNew, os', hjob, -, hrequests, -⟩, hdest, rfl⟩ := hserving
  obtain ⟨rfl, rfl, rfl, rfl⟩ := Job.copy.inj hjob
  obtain ⟨-, -, hpath2, hlt, haddress⟩ := hrequests
  obtain rfl : s = server dest := Option.some.inj
    ((hdest.symm.trans haddress).trans (hservers dest (by simp [Job.slots])).2)
  have hpath : (Message.writeRequest m' bytes).path.str = msg.path2.str :=
    (Message.path_writeRequest m' bytes hlt).trans hpath2
  have hbefore : (w.locals r).performed = none := by simp [Threads.performed, hnm, hcopy, hss]
  have hafter : Threads.performed { w.locals r with
      ssClient := .answering (server dest) (.result .success) } =
      some (.copy msg source dest true) := by
    simp [Threads.performed, hnm, hcopy, Message.result_succeeded_iff]
  rcases Disk.writeFile_cases (w.shared.disks (server dest)) os (.writeRequest m' bytes) with
    ⟨code, hcode, -, heq⟩ | ⟨code, disk', heq, -, hexists, hother⟩ <;>
    obtain ⟨rfl, rfl⟩ := Prod.mk.inj (hdisk.symm.trans heq)
  · exact absurd rfl hcode
  · rw [hpath] at hfree hexists hother
    exact .of_placed hbefore hafter rfl rfl hfree hexists hother

/-- The write of a COPY_FILE to a path that the trie knew, or one that fails. -/
theorem Informed.ssWrite_known (hi : Informed net server w r) {s s' : Server} {m m' : Message}
    {bytes : List UInt8} {code : ErrorCode} {disk : Disk} {es : List Event} {os : Os} {job : Job}
    (hcopy : (w.locals r).ssNm = .copyAwaiting s' m' bytes)
    (hss : (w.locals r).ssClient = .incoming s m) (hnm : (w.locals r).nm = .awaiting job)
    (hdisk : (w.shared.disks s).writeFile os m = (code, disk))
    (hfound : code = .success ∨ code = .asyncWriteFailed →
      (w.shared.disks s m.path.str).isSome)
    (hknown : ¬((w.locals r).nm.CopiesToNew ∧ code = .success)) :
    Shifts server w r ({ w.shared with disks := Function.update w.shared.disks s disk },
      { w.locals r with ssClient := .answering s (.result code) }, es) := by
  have hbefore : (w.locals r).performed = none := by simp [Threads.performed, hnm, hcopy, hss]
  have hafter : Threads.performed { w.locals r with ssClient := .answering s (.result code) } =
      if code = .success then some job else none := by
    simp [Threads.performed, hnm, hcopy, Message.result_succeeded_iff]
  obtain ⟨-, hserving, -⟩ := hi.serving hnm
  rw [hcopy, hss] at hserving
  obtain ⟨⟨msg, source, dest, isNew, os', rfl, -⟩, -⟩ := hserving
  have hjob : code = .success → (Job.copy msg source dest isNew).places = none := by
    intro hcode
    cases isNew with
    | false => rfl
    | true => exact absurd ⟨by rw [hnm]; trivial, hcode⟩ hknown
  refine .quiet (isSome_update_of_writeFile hdisk hfound) (fun _ => rfl) ?_ ?_
  · rw [Threads.placing, Threads.placing, hafter, hbefore]
    split_ifs with hcode
    · exact hjob hcode
    · rfl
  · rw [Threads.removing, Threads.removing, hafter, hbefore]
    split_ifs <;> rfl

/-- A storage server performs a write. -/
theorem Informed.ssWrite (hi : Informed net server w r) {os : Os} {s : Server} {m : Message}
    {code : ErrorCode} {disk : Disk} {es : List Event}
    (hss : (w.locals r).ssClient = .incoming s m) (hop : m.operation = .writeFile)
    (hdisk : (w.shared.disks s).writeFile os m = (code, disk))
    (hcond : Separated w (r, .ssClient os)) :
    Shifts server w r ({ w.shared with disks := Function.update w.shared.disks s disk },
      { w.locals r with ssClient := .answering s (.result code) }, es) := by
  simp only [Separated, hss] at hcond
  obtain ⟨hfree, hfound⟩ := hcond hop code (by rw [hdisk])
  by_cases hcopy : ∃ s m bytes, (w.locals r).ssNm = .copyAwaiting s m bytes
  · obtain ⟨s', m', bytes, hcopy⟩ := hcopy
    obtain ⟨job, hnm⟩ := hi.awaiting (by simp [SsNmThread.Busy, hcopy])
    by_cases hnew : (w.locals r).nm.CopiesToNew ∧ code = .success
    · obtain ⟨hcopies, rfl⟩ := hnew
      have hfree' := hfree ⟨hcopies, rfl⟩
      rw [hnm] at hcopies
      rcases job with ⟨msg, slot⟩ | ⟨msg, slot⟩ | ⟨msg, source, dest, _ | _⟩
      · exact hcopies.elim
      · exact hcopies.elim
      · exact hcopies.elim
      · exact hi.ssWrite_new hcopy hss hnm hdisk hfree'
    · exact hi.ssWrite_known hcopy hss hnm hdisk (hfound hnew) hnew
  · have hfinished := hi.finished (by simp [SsClientThread.Busy, hss])
      fun s m bytes h => hcopy ⟨s, m, bytes, h⟩
    refine .of_performed (fun s' q => ?_) (fun _ => rfl) ?_
    · refine isSome_update_of_writeFile hdisk (hfound ?_) s' q
      simp [hfinished, NmThread.CopiesToNew]
    · exact Threads.performed_of_ne_copyAwaiting (fun s m bytes h => hcopy ⟨s, m, bytes, h⟩) _ _

/-- The client handler of a copy is given a write only. -/
theorem Informed.ssServe (hi : Informed net server w r) {s : Server} {m response : Message}
    {es : List Event} (hss : (w.locals r).ssClient = .incoming s m)
    (hop : m.operation ≠ .writeFile) :
    Shifts server w r (w.shared, { w.locals r with ssClient := .answering s response }, es) := by
  refine .of_performed (fun _ _ => rfl) (fun _ => rfl)
    (Threads.performed_of_ne_copyAwaiting (fun s' m' bytes hcopy => hop ?_) _ _)
  obtain ⟨job, hnm⟩ := hi.awaiting (by simp [SsNmThread.Busy, hcopy])
  obtain ⟨-, hserving, -⟩ := hi.serving hnm
  rw [hcopy, hss] at hserving
  obtain ⟨-, -, rfl⟩ := hserving
  rfl

/-- What each step means to the agreement. -/
theorem Informed.shifts (hi : Informed net server w r) (hlossless : a.Lossless)
    (hcond : Separated w (r, a))
    (h : Transition net r w.shared (w.locals r) a x.1 x.2.1 x.2.2) : Shifts server w r x := by
  obtain ⟨sh', t', es⟩ := x
  have hfinished : ∀ msg reply, (w.locals r).client = .replied msg reply →
      (w.locals r).nm = .finished := fun msg reply hclient =>
    (hi.linked.answered msg reply (hi.linked.replied msg reply hclient)).1
  have hfits := hi.fits
  have hunregistered := hi.unregistered
  cases h with
  | submit hclient =>
      refine .of_performed (fun _ _ => rfl) (fun _ => rfl) ?_
      simp [(hi.linked.fresh hclient).1, Threads.performed, Threads.start]
  | quit => exact .of_performed (fun _ _ => rfl) (fun _ => rfl) rfl
  | contact hclient =>
      refine .of_performed (fun _ _ => rfl) (fun _ => rfl) ?_
      simp [Threads.performed, hfinished _ _ hclient]
  | served hclient =>
      refine .of_performed (fun _ _ => rfl) (fun _ => rfl) ?_
      simp [Threads.performed, hi.linked.contacted hclient]
  | refuse hnm =>
      refine .of_performed (fun _ _ => rfl) (fun _ => rfl) ?_
      rw [Threads.performed_of_refusable hnm]
      rfl
  | registerStart hnm hop => exact absurd hop (hunregistered _ (by simp [hnm, NmThread.request]))
  | registerPath hnm | registerEnd hnm =>
      rw [hnm] at hfits
      exact absurd hfits (hunregistered _ (by simp [hnm, NmThread.request]))
  | pickCreate hnm _ hpick | pickTarget hnm _ hpick =>
      refine .of_performed (fun _ _ => rfl)
        (NamingServer.getAvailableSsForCreation_frame hpick).1 ?_
      simp [Threads.performed, hnm]
  | failed hnm hss hresponse | succeeded hnm hss hresponse =>
      refine .of_performed (fun _ _ => rfl) (fun _ => rfl) ?_
      simp [Threads.performed, hnm, hss, hresponse]
  | @recordCreate msg slot hnm =>
      have hperformed : (w.locals r).performed = some (.create msg slot) := by
        simp [Threads.performed, hnm]
      refine .recorded msg.path.str slot ⟨by rw [Threads.placing, hperformed]; rfl, rfl⟩ ?_ rfl
        fun q => NamingServer.search_recordPath _ _ q _
      rw [Threads.removing, Threads.removing, hperformed]
      rfl
  | @recordCopy msg source dest hnm =>
      have hperformed : (w.locals r).performed = some (.copy msg source dest true) := by
        simp [Threads.performed, hnm]
      refine .recorded msg.path2.str dest ⟨by rw [Threads.placing, hperformed]; rfl, rfl⟩ ?_ rfl
        fun q => NamingServer.search_recordPath _ _ q _
      rw [Threads.removing, Threads.removing, hperformed]
      rfl
  | @keepCopy msg source dest hnm =>
      have hperformed : (w.locals r).performed = some (.copy msg source dest false) := by
        simp [Threads.performed, hnm]
      refine .quiet (fun _ _ => rfl) (fun _ => rfl) ?_ ?_
      · rw [Threads.placing, Threads.placing, hperformed]
        rfl
      · rw [Threads.removing, Threads.removing, hperformed]
        rfl
  | @drop msg slot hnm =>
      have hperformed : (w.locals r).performed = some (.delete msg slot) := by
        simp [Threads.performed, hnm]
      refine .dropped msg.path.str ?_ ⟨by rw [Threads.removing, hperformed]; rfl, rfl⟩ rfl
        fun q => NamingServer.search_dropPath _ _ q
      rw [Threads.placing, Threads.placing, hperformed]
      rfl
  | ssCreate hss hop hdisk => exact hi.ssCreate hss hop hdisk hcond
  | ssDelete hss hop hdisk => exact hi.ssDelete hss hop hdisk hcond
  | ssRead hss =>
      refine .of_performed (fun _ _ => rfl) (fun _ => rfl) ?_
      simp [Threads.performed, hss]
  | ssReadFailed hss =>
      refine .of_performed (fun _ _ => rfl) (fun _ => rfl) ?_
      simp [Threads.performed, hss, Message.nack_not_succeeded]
  | ssRefuse hss =>
      refine .of_performed (fun _ _ => rfl) (fun _ => rfl) ?_
      rcases hss with ⟨hss, -⟩ | ⟨_, hss⟩ <;>
        simp [Threads.performed, hss, Message.nack_not_succeeded]
  | relay hss =>
      refine .of_performed (fun _ _ => rfl) (fun _ => rfl) ?_
      simp [Threads.performed, hss]
  | @relayed os s m bytes dest response hss hdest =>
      refine .of_performed (fun _ _ => rfl) (fun _ => rfl) ?_
      by_cases hresponse : response.Succeeded
      · simp [Threads.performed, hss, hdest, hresponse, Message.ack_succeeded]
      · simp [Threads.performed, hss, hdest, hresponse, Message.nack_not_succeeded]
  | serve hss hop => exact hi.ssServe hss hop
  | ssWrite hss hop hdisk => exact hi.ssWrite hss hop hdisk hcond
  | lostRequest | lostResponse | ssLost | ssLostResponse | ssClientLost => exact hlossless.elim
  | _ hnm =>
      refine .of_performed (fun _ _ => rfl) (fun _ => rfl) ?_
      simp_all [Threads.performed]

/-- Without failures no reply gets lost. -/
theorem Transition.lostReply_notMem {sh sh' : Shared} {t' : Threads} {es : List Event}
    (h : Transition net r sh t a sh' t' es) (hlossless : a.Lossless) : .lostReply ∉ es := by
  intro hlost
  cases h with
  | lostResponse | ssLostResponse => exact hlossless.elim
  | refuse _ _ hes => rcases hes with rfl | ⟨_, _, rfl⟩ <;> simp at hlost
  | serve _ _ hes => rcases hes with rfl | ⟨_, _, _, rfl⟩ <;> simp at hlost
  | _ => simp at hlost

/-- No storage server registers. -/
def Unregistered (t : Threads) : Prop :=
  ∀ msg, t.nm.request = some msg → msg.operation ≠ .registerSs

theorem Unregistered.step {sh sh' : Shared} {t' : Threads} {es own : List Event}
    (hu : Unregistered t) (hl : Linked t own) (h : Transition net r sh t a sh' t' es)
    (hlossless : a.Lossless) : Unregistered t' := by
  by_cases hclient : t.client = .idle
  · obtain ⟨rfl, -⟩ := hl.fresh hclient
    obtain ⟨msg, rfl, -, -, -, rfl⟩ := h.of_start
    intro msg' hmsg'
    exact Option.some.inj hmsg' ▸ hlossless
  · rcases h.request_kept hclient with hsame | hfinished
    · exact fun msg hmsg => hu msg (hsame ▸ hmsg)
    · intro msg hmsg
      rw [hfinished] at hmsg
      cases hmsg

end Transitions

/-! ### Runs -/

section Runs

variable {net : Network} {server : Slot → Server} {sh : Shared} {w : World}
  {as : List (ℕ × Action)}

def ClientThread.atRest : ClientThread → Bool
  | idle | finished => true
  | _ => false

def NmThread.atRest : NmThread → Bool
  | idle | finished => true
  | _ => false

def SsNmThread.atRest : SsNmThread → Bool
  | idle | finished => true
  | _ => false

def SsClientThread.atRest : SsClientThread → Bool
  | idle | finished => true
  | _ => false

/-- The request has ended, and the client holds no answer that it could still use. -/
def Threads.atRest (t : Threads) : Bool :=
  t.client.atRest && t.nm.atRest && t.ssNm.atRest && t.ssClient.atRest

/-- The servers listen at the addresses that the naming server knows. -/
def Listening (net : Network) (server : Slot → Server) (sh : Shared) : Prop :=
  ∀ slot : Slot, slot.val < sh.nm.numRegisteredSs.val →
    net.nmServer (sh.nm.address slot) = some (server slot) ∧
      net.clientServer (sh.nm.address slot) = some (server slot)

/-- What holds throughout a run in which the operations on a path keep out of each other's way. -/
structure Accounted (net : Network) (server : Slot → Server) (w : World) : Prop where
  listening : Listening net server w.shared
  unregistered : ∀ r, Unregistered (w.locals r)
  lossless : ∀ r, .lostReply ∉ w.own r
  consistent : ∀ path, Consistent server w path

theorem accounted_start (hlisten : Listening net server sh)
    (hagree : ∀ path, AgreeAt server sh path) : Accounted net server (start sh) where
  listening := hlisten
  unregistered _ _ hmsg := by cases hmsg
  lossless _ h := by cases h
  consistent path := by
    refine ⟨fun ⟨_, hr⟩ => ?_, fun ⟨_, hr⟩ => ?_, fun _ _ hr => ?_, fun _ _ => hagree path⟩
    all_goals cases hr

/-- Of the servers that listen, one that is in use is registered. -/
theorem Accounted.informed (hw : Accounted net server w) (hns : sh.nm.WellFormed)
    (hrun : run (step net) (start sh) as = some w) (r : ℕ) :
    Informed net server w r where
  linked := linked_of_run hrun r
  fits := fits_of_run hrun r
  evidence := evidence_of_run hns hrun r
  lossless := hw.lossless r
  unregistered := hw.unregistered r
  servers slot hslot := by
    rcases (registry_of_run hns hrun).slots r slot hslot with hlt | ⟨q, msg, i, hq⟩
    · exact hw.listening slot hlt
    · have hfits := fits_of_run hrun q
      rw [hq] at hfits
      exact absurd hfits (hw.unregistered q msg (by simp [hq, NmThread.request]))

theorem Accounted.step {r : ℕ} {a : Action} {x : Shared × Threads × List Event}
    (hw : Accounted net server w) (hi : Informed net server w r) (hlossless : a.Lossless)
    (hcond : Separated w (r, a))
    (h : Transition net r w.shared (w.locals r) a x.1 x.2.1 x.2.2) :
    Accounted net server (w.after r x) where
  listening := by
    have hidle : (w.locals r).client = .idle → w.locals r = .start := fun hidle =>
      (hi.linked.fresh hidle).1
    rcases h.registry_cases hidle with ⟨haddress, hnum, -⟩ | ⟨msg, slot, hnm, hop, -⟩ |
      ⟨msg, slot, i, hnm, -⟩
    · intro slot hslot
      rw [shared_after, hnum] at hslot
      rw [shared_after, haddress]
      exact hw.listening slot hslot
    · exact absurd hop (hw.unregistered r msg (by simp [hnm, NmThread.request]))
    · have hfits := hi.fits
      rw [hnm] at hfits
      exact absurd hfits (hw.unregistered r msg (by simp [hnm, NmThread.request]))
  unregistered q := by
    by_cases hq : q = r
    · subst hq
      rw [locals_after_self]
      exact (hw.unregistered q).step hi.linked h hlossless
    · rw [locals_after_ne hq]
      exact hw.unregistered q
  lossless q := by
    by_cases hq : q = r
    · subst hq
      rw [own_after_self, List.mem_append]
      exact not_or.mpr ⟨hw.lossless q, h.lostReply_notMem hlossless⟩
    · rw [own_after_ne hq]
      exact hw.lossless q
  consistent := (hi.shifts hlossless hcond h).consistent hw.consistent

theorem Threads.performed_of_atRest {t : Threads} (h : t.atRest) : t.performed = none := by
  simp only [Threads.atRest, Bool.and_eq_true] at h
  obtain ⟨⟨⟨-, hnm⟩, -⟩, -⟩ := h
  cases hold : t.nm <;> simp_all [NmThread.atRest, Threads.performed]

/-- If the files on the disks are those that the trie maps to the servers, and the operations on a
path keep out of each other's way, then this is so again whenever every request has ended. -/
theorem agreement_at_rest (hns : sh.nm.WellFormed) (hlisten : Listening net server sh)
    (hagree : ∀ path, AgreeAt server sh path) (hlossless : ∀ a ∈ as, a.2.Lossless)
    (hcond : EachStep (step net) Separated (start sh) as)
    (hrun : run (step net) (start sh) as = some w)
    (hrest : ∀ r, (w.locals r).atRest) (path : Path) : AgreeAt server w.shared path := by
  have hw : Accounted net server w := by
    refine world_invariant (C := fun w a => a.2.Lossless ∧ Separated w a)
      (I := Accounted net server) ?_ (accounted_start hlisten hagree) ?_ hrun
    · intro pre w r a x hpre hw hC h
      exact hw.step (hw.informed hns hpre r) hC.1 hC.2 h
    · exact (hcond.and_forall hlossless).mono fun _ _ h => ⟨h.2, h.1⟩
  refine (hw.consistent path).settled (fun r => ?_) fun r slot => ?_
  · simp [Threads.removing, Threads.performed_of_atRest (hrest r)]
  · simp [Threads.placing, Threads.performed_of_atRest (hrest r)]

end Runs

theorem agreeAt_serverWithA (object : FileObject) (path : Path) :
    AgreeAt Fin.val (serverWithA object) path := by
  intro s
  rw [search_serverWithA]
  by_cases hpath : path = createA.path.str
  · subst hpath
    by_cases hs : s = 0
    · subst hs
      simp [serverWithA]
    · simp [serverWithA, twoServers, Function.update_of_ne hs, Ne.symm hs]
  · by_cases hs : s = 0
    · subst hs
      simp [serverWithA, twoServers, hpath]
    · simp [serverWithA, twoServers, Function.update_of_ne hs, hpath]

theorem listening_serverWithA (object : FileObject) :
    Listening portNetwork Fin.val (serverWithA object) := by
  have hlisten : ∀ slot : Slot, portNetwork.nmServer (twoServers.nm.address slot) = some slot.val ∧
      portNetwork.clientServer (twoServers.nm.address slot) = some slot.val := by decide +kernel
  intro slot _
  rw [address_serverWithA]
  exact hlisten slot

/-- A WRITE_FILE of `/a`, up to the reply of the naming server. -/
def locateA (r : ℕ) : List (ℕ × Action) :=
  [(r, .submit { createA with operation := .writeFile }), (r, .nm), (r, .nm), (r, .nm), (r, .nm),
    (r, .nm)]

/-- The client writes to the storage server that it was told. -/
def writeA (r : ℕ) : List (ℕ × Action) := [(r, .client), (r, .ssClient .ok), (r, .client)]

/-- No storage server serves the naming server, and a client's request finds its file. -/
def FindsFile (w : World) : ℕ × Action → Bool
  | (_, .ssNm _) => false
  | (r, .ssClient _) =>
    match (w.locals r).nm, (w.locals r).ssClient with
    | .finished, .incoming s m => (w.shared.disks s m.path.str).isSome
    | _, _ => false
  | _ => true

theorem FindsFile.separated {w : World} {a : ℕ × Action} (h : FindsFile w a) : Separated w a := by
  obtain ⟨r, a⟩ := a
  cases a with
  | ssNm => cases h
  | ssClient os =>
      rw [FindsFile] at h
      split at h
      · next s m hnm hss => simp [Separated, hnm, hss, NmThread.CopiesToNew, h]
      · cases h
  | _ => trivial

theorem agreement_at_rest_writeA :
    ∃ w, run (step portNetwork) (start (serverWithA (.file [104]))) (locateA 0 ++ writeA 0) =
      some w ∧ AgreeAt Fin.val w.shared createA.path.str := by
  have hany : (run (step portNetwork) (start (serverWithA (.file [104])))
      (locateA 0 ++ writeA 0)).any fun w => (w.locals 0).atRest := by decide +kernel
  obtain ⟨w, hrun, hw⟩ := (Option.any_eq_true _ _).mp hany
  have hfound : EachStep (step portNetwork) (fun w a => FindsFile w a)
      (start (serverWithA (.file [104]))) (locateA 0 ++ writeA 0) := by decide +kernel
  refine ⟨w, hrun, agreement_at_rest (wellFormed_serverWithA _) (listening_serverWithA _)
    (agreeAt_serverWithA _) ?_ (hfound.mono fun _ _ => FindsFile.separated) hrun (fun r => ?_) _⟩
  · simp [locateA, writeA, Action.Lossless, createA]
  · by_cases hr : r = 0
    · subst hr
      exact hw
    · rw [locals_eq_of_notMem hrun (by simp [locateA, writeA, hr])]
      rfl

/-- A file is deleted between the lookup of a WRITE_FILE and the write, which brings it back. -/
theorem stale_write_disagrees :
    ∃ w, run (step portNetwork) (start (serverWithA (.file [104])))
        (locateA 0 ++ handleDeleteA 1 ++ [(1, .client)] ++ writeA 0) = some w ∧
      (∀ path, AgreeAt Fin.val (serverWithA (.file [104])) path) ∧
      (∀ a ∈ locateA 0 ++ handleDeleteA 1 ++ [(1, .client)] ++ writeA 0, a.2.Lossless) ∧
      (∀ r, (w.locals r).atRest) ∧ ¬AgreeAt Fin.val w.shared createA.path.str := by
  have hany : (run (step portNetwork) (start (serverWithA (.file [104])))
      (locateA 0 ++ handleDeleteA 1 ++ [(1, .client)] ++ writeA 0)).any fun w =>
        (w.locals 0).atRest && (w.locals 1).atRest &&
          decide ((w.shared.disks 0 createA.path.str).isSome ∧
            w.shared.nm.search createA.path.str = none) := by decide +kernel
  obtain ⟨w, hrun, hw⟩ := (Option.any_eq_true _ _).mp hany
  simp only [Bool.and_eq_true, decide_eq_true_eq] at hw
  obtain ⟨⟨hfirst, hsecond⟩, hexists, hgone⟩ := hw
  refine ⟨w, hrun, agreeAt_serverWithA _, ?_, fun r => ?_, fun hagree => ?_⟩
  · simp [locateA, handleDeleteA, writeA, Action.Lossless, createA, deleteA]
  · by_cases hr : r = 0 ∨ r = 1
    · rcases hr with rfl | rfl
      · exact hfirst
      · exact hsecond
    · rw [not_or] at hr
      rw [locals_eq_of_notMem hrun (by simp [locateA, handleDeleteA, writeA, hr])]
      rfl
  · obtain ⟨slot, hslot, -⟩ := (hagree 0).mp hexists
    cases hgone.symm.trans hslot

end NetworkFileSystem
