import NetworkFileSystem.ExclusiveCreation

/-!
# A positive answer means it was done

The evidence that a handler of the naming server has at each point for what it goes on to do: how
it chose the storage servers, and that they performed their operations before it concludes.
-/

namespace NetworkFileSystem

open Interleaving Interleaving.World Machine

abbrev Address := CString × Int32 × Int32

/-- The storage server that the naming server reaches at the address. -/
def Network.nmServer (net : Network) (address : Address) : Option Server :=
  net.nmListener address.1 address.2.1

/-- The storage server that clients and other storage servers reach at the address. -/
def Network.clientServer (net : Network) (address : Address) : Option Server :=
  net.clientListener address.1 address.2.2

namespace Job

/-- How the handler chose the storage servers of the job. -/
def chosen : Job → List Event
  | create _ target => [.picked target]
  | delete msg target => [.searched msg.path.str (some target)]
  | copy msg source dest false =>
    [.searched msg.path.str (some source), .searched msg.path2.str (some dest)]
  | copy msg source dest true =>
    [.searched msg.path.str (some source), .searched msg.path2.str none, .picked dest]

section Evidence

variable (net : Network) (address : Slot → Address) (own : List Event)

/-- After the choice, the chosen storage servers performed the operations of the job with
success. -/
def Performed : Job → Prop
  | create msg target => ∃ s os, net.nmServer (address target) = some s ∧
      ((create msg target).chosen ++
        [Event.executed s (.create msg.path.str msg.fileType) os .success]).Sublist own
  | delete msg target => ∃ s os, net.nmServer (address target) = some s ∧
      ((delete msg target).chosen ++
        [Event.executed s (.delete msg.path.str) os .success]).Sublist own
  | copy msg source dest isNew => ∃ s d os os' bytes, net.nmServer (address source) = some s ∧
      net.clientServer (address dest) = some d ∧
      ((copy msg source dest isNew).chosen ++
        [Event.executed s (.read msg.path.str bytes) os .success,
          Event.executed d (.write msg.path2.str bytes) os' .success]).Sublist own

/-- The message is the request of the job to its storage server. -/
def Requests (m : Message) : Job → Prop
  | create msg _ | delete msg _ => m = msg
  | copy msg _ dest _ => m.operation = .copyFile ∧ m.path.str = msg.path.str ∧
      m.path2.str = msg.path2.str ∧ m.path2.str.length < maxPathLen ∧
      net.clientListener m.destSsIp.str m.destSsClientPort = net.clientServer (address dest)

/-- The source of a copy was read. -/
def HasRead (s : Server) (m : Message) (bytes : List UInt8) (job : Job) : Prop :=
  ∃ msg source dest isNew os, job = copy msg source dest isNew ∧
    net.nmServer (address source) = some s ∧ job.Requests net address m ∧
    bytes.length ≤ maxDataSize - 1 ∧
    (job.chosen ++ [Event.executed s (.read msg.path.str bytes) os .success]).Sublist own

/-- How far the storage servers have come with the job. -/
def Serving (job : Job) : SsNmThread → SsClientThread → Prop
  | .incoming s m, _ => net.nmServer (address job.target) = some s ∧
      job.Requests net address m ∧ job.chosen.Sublist own
  | .copyRead s m bytes, _ => job.HasRead net address own s m bytes
  | .copyAwaiting s m bytes, .incoming d m' => job.HasRead net address own s m bytes ∧
      net.clientListener m.destSsIp.str m.destSsClientPort = some d ∧ m' = .writeRequest m bytes
  | .copyAwaiting _ _ _, .answering _ response | .answering _ response, _ =>
    response.Succeeded → job.Performed net address own
  | _, _ => True

end Evidence

end Job

/-- What the handler of the naming server knows of the events of its request. -/
def Threads.Evidence (net : Network) (address : Slot → Address) (t : Threads) (own : List Event) :
    Prop :=
  match t.nm with
  | .copyFound msg source => [.searched msg.path.str (some source)].Sublist own
  | .copyUnplaced msg source =>
    [.searched msg.path.str (some source), .searched msg.path2.str none].Sublist own
  | .connecting job => job.chosen.Sublist own
  | .awaiting job => job.Serving net address own t.ssNm t.ssClient
  | .concluding job => job.Performed net address own
  | .deleteDropped msg slot => (Job.delete msg slot).Performed net address own
  | _ => True

/-! ### Evidence lasts -/

section Mono

variable {net : Network} {address address' : Slot → Address} {own own' : List Event} {job : Job}
  {t : Threads}

theorem Job.Performed.mono (h : job.Performed net address own) (hown : own.Sublist own')
    (haddress : ∀ slot ∈ job.slots, address' slot = address slot) :
    job.Performed net address' own' := by
  cases job with
  | create msg target | delete msg target =>
      obtain ⟨s, os, hs, hsub⟩ := h
      exact ⟨s, os, by rwa [haddress target (by simp [Job.slots])], hsub.trans hown⟩
  | copy msg source dest isNew =>
      obtain ⟨s, d, os, os', bytes, hs, hd, hsub⟩ := h
      exact ⟨s, d, os, os', bytes, by rwa [haddress source (by simp [Job.slots])],
        by rwa [haddress dest (by simp [Job.slots])], hsub.trans hown⟩

theorem Job.Requests.mono {m : Message} (h : job.Requests net address m)
    (haddress : ∀ slot ∈ job.slots, address' slot = address slot) :
    job.Requests net address' m := by
  cases job with
  | create | delete => exact h
  | copy msg source dest isNew =>
      obtain ⟨hop, hpath, hpath2, hlen, hdest⟩ := h
      exact ⟨hop, hpath, hpath2, hlen, by rwa [haddress dest (by simp [Job.slots])]⟩

theorem Job.HasRead.mono {s : Server} {m : Message} {bytes : List UInt8}
    (h : job.HasRead net address own s m bytes) (hown : own.Sublist own')
    (haddress : ∀ slot ∈ job.slots, address' slot = address slot) :
    job.HasRead net address' own' s m bytes := by
  obtain ⟨msg, source, dest, isNew, os, rfl, hs, hreq, hlen, hsub⟩ := h
  exact ⟨msg, source, dest, isNew, os, rfl, by rwa [haddress source (by simp [Job.slots])],
    hreq.mono haddress, hlen, hsub.trans hown⟩

theorem Job.target_mem_slots (job : Job) : job.target ∈ job.slots := by
  cases job <;> simp [Job.target, Job.slots]

theorem Job.Serving.mono {ssNm : SsNmThread} {ssClient : SsClientThread}
    (h : job.Serving net address own ssNm ssClient) (hown : own.Sublist own')
    (haddress : ∀ slot ∈ job.slots, address' slot = address slot) :
    job.Serving net address' own' ssNm ssClient := by
  cases ssNm with
  | incoming s m =>
      exact ⟨by rw [haddress _ job.target_mem_slots]; exact h.1, h.2.1.mono haddress,
        h.2.2.trans hown⟩
  | copyRead s m bytes => exact Job.HasRead.mono h hown haddress
  | copyAwaiting s m bytes =>
      cases ssClient with
      | incoming d m' => exact ⟨h.1.mono hown haddress, h.2⟩
      | answering d response => exact fun hack => (h hack).mono hown haddress
      | idle | finished => trivial
  | answering s response => exact fun hack => (h hack).mono hown haddress
  | idle | finished => trivial

theorem Threads.Evidence.mono (h : t.Evidence net address own) (hown : own.Sublist own')
    (haddress : ∀ slot ∈ t.nm.slots, address' slot = address slot) :
    t.Evidence net address' own' := by
  unfold Threads.Evidence at h ⊢
  cases hnm : t.nm with
  | copyFound | copyUnplaced | connecting =>
      rw [hnm] at h
      exact h.trans hown
  | awaiting job =>
      rw [hnm] at h haddress
      exact Job.Serving.mono h hown haddress
  | concluding job =>
      rw [hnm] at h haddress
      exact Job.Performed.mono h hown haddress
  | deleteDropped msg slot =>
      rw [hnm] at h haddress
      exact Job.Performed.mono h hown haddress
  | _ => trivial

end Mono

/-! ### The storage servers -/

section Serving

variable {net : Network} {address : Slot → Address} {own es : List Event} {job : Job} {r : ℕ}
  {sh sh' : Shared} {t t' : Threads} {a : Action}

/-- The state of the client handler matters only while the NM handler waits for it. -/
theorem Job.Serving.of_ne_copyAwaiting {ssNm : SsNmThread} {ssClient ssClient' : SsClientThread}
    (h : job.Serving net address own ssNm ssClient)
    (hne : ∀ s m bytes, ssNm ≠ .copyAwaiting s m bytes) :
    job.Serving net address own ssNm ssClient' := by
  cases ssNm with
  | copyAwaiting s m bytes => exact absurd rfl (hne s m bytes)
  | _ => exact h

theorem Job.performed_of_create {s : Server} {m : Message} {os : Os} (hfits : job.Fits)
    (hs : net.nmServer (address job.target) = some s) (hreq : job.Requests net address m)
    (hchosen : job.chosen.Sublist own) (hop : m.operation = .createFile) :
    job.Performed net address
      (own ++ [.executed s (.create m.path.str m.fileType) os .success]) := by
  cases job with
  | create msg target =>
      obtain rfl : m = msg := hreq
      exact ⟨s, os, hs, hchosen.append (List.Sublist.refl _)⟩
  | delete msg target =>
      obtain rfl : m = msg := hreq
      exact absurd (hop.symm.trans hfits) (by decide)
  | copy msg source dest isNew => exact absurd (hop.symm.trans hreq.1) (by decide)

theorem Job.performed_of_delete {s : Server} {m : Message} {os : Os} (hfits : job.Fits)
    (hs : net.nmServer (address job.target) = some s) (hreq : job.Requests net address m)
    (hchosen : job.chosen.Sublist own) (hop : m.operation = .deleteFile) :
    job.Performed net address (own ++ [.executed s (.delete m.path.str) os .success]) := by
  cases job with
  | create msg target =>
      obtain rfl : m = msg := hreq
      exact absurd (hop.symm.trans hfits) (by decide)
  | delete msg target =>
      obtain rfl : m = msg := hreq
      exact ⟨s, os, hs, hchosen.append (List.Sublist.refl _)⟩
  | copy msg source dest isNew => exact absurd (hop.symm.trans hreq.1) (by decide)

theorem Job.hasRead_of_read {s : Server} {m : Message} {os : Os} {bytes : List UInt8}
    (hfits : job.Fits) (hs : net.nmServer (address job.target) = some s)
    (hreq : job.Requests net address m) (hchosen : job.chosen.Sublist own)
    (hop : m.operation = .copyFile) (hlen : bytes.length ≤ maxDataSize - 1) :
    job.HasRead net address (own ++ [.executed s (.read m.path.str bytes) os .success]) s m
      bytes := by
  cases job with
  | create msg target | delete msg target =>
      obtain rfl : m = msg := hreq
      exact absurd (hop.symm.trans hfits) (by decide)
  | copy msg source dest isNew =>
      refine ⟨msg, source, dest, isNew, os, rfl, hs, hreq, hlen, ?_⟩
      rw [hreq.2.1]
      exact hchosen.append (List.Sublist.refl _)

theorem Job.performed_of_write {s d : Server} {m : Message} {os : Os} {bytes : List UInt8}
    (hread : job.HasRead net address own s m bytes)
    (hd : net.clientListener m.destSsIp.str m.destSsClientPort = some d) :
    job.Performed net address (own ++ [.executed d (.write (Message.writeRequest m bytes).path.str
      (Message.writeRequest m bytes).payload) os .success]) := by
  obtain ⟨msg, source, dest, isNew, os', rfl, hs, ⟨-, -, hpath2, hlt, hdest⟩, hlen, hsub⟩ := hread
  rw [Message.path_writeRequest m bytes hlt, Message.payload_writeRequest m hlen, hpath2]
  refine ⟨s, d, os', os, bytes, hs, hdest.symm.trans hd, ?_⟩
  have happ := hsub.append (List.Sublist.refl [Event.executed d (.write msg.path2.str bytes) os
    .success])
  rwa [List.append_assoc] at happ

/-- A step of the storage servers advances the job. -/
theorem Job.Serving.step (hs : job.Serving net address own t.ssNm t.ssClient)
    (hnm : t.nm = .awaiting job) (hfits : job.Fits) (hl : Linked t own)
    (h : Transition net r sh t a sh' t' es) (hnm' : t'.nm = .awaiting job) :
    job.Serving net address (own ++ es) t'.ssNm t'.ssClient := by
  have hgrow : own.Sublist (own ++ es) := List.sublist_append_left _ _
  have hkeep := hs.mono hgrow fun _ _ => rfl
  cases h with
  | quit => exact hkeep
  | contact hclient =>
      have hfinished := (hl.answered _ _ (hl.replied _ _ hclient)).1
      rw [hnm] at hfinished
      cases hfinished
  | served hclient =>
      have hfinished := hl.contacted hclient
      rw [hnm] at hfinished
      cases hfinished
  | refuse href => simp [hnm, NmThread.refusable] at href
  | ssCreate hss hop hdisk =>
      rw [hss] at hs
      intro hack
      rw [(Message.result_succeeded_iff _).mp hack]
      exact job.performed_of_create hfits hs.1 hs.2.1 hs.2.2 hop
  | ssDelete hss hop hdisk =>
      rw [hss] at hs
      intro hack
      rw [(Message.result_succeeded_iff _).mp hack]
      exact job.performed_of_delete hfits hs.1 hs.2.1 hs.2.2 hop
  | @ssRead os s m bytes hss hop hdisk =>
      rw [hss] at hs
      have hlen := Disk.length_readFile_le (sh.disks s) os m
      rw [hdisk] at hlen
      exact job.hasRead_of_read hfits hs.1 hs.2.1 hs.2.2 hop hlen
  | ssReadFailed | ssRefuse | ssLostResponse =>
      exact fun hack => absurd hack (Message.nack_not_succeeded _)
  | ssLost => trivial
  | relay hss hdest =>
      rw [hss] at hs
      exact ⟨Job.HasRead.mono hs hgrow fun _ _ => rfl, hdest, rfl⟩
  | @relayed os s m bytes d response hss hdest =>
      rw [hss, hdest] at hs
      intro hack
      split_ifs at hack with hresponse
      · exact (hs hresponse).mono hgrow fun _ _ => rfl
      · exact absurd hack (Message.nack_not_succeeded _)
  | serve hss hop =>
      by_cases hcopy : ∃ s m bytes, t.ssNm = .copyAwaiting s m bytes
      · obtain ⟨s, m, bytes, hcopy⟩ := hcopy
        rw [hcopy, hss] at hs
        rw [hs.2.2] at hop
        exact absurd rfl hop
      · exact hkeep.of_ne_copyAwaiting fun s m bytes hc => hcopy ⟨s, m, bytes, hc⟩
  | ssWrite hss hop hdisk =>
      by_cases hcopy : ∃ s m bytes, t.ssNm = .copyAwaiting s m bytes
      · obtain ⟨s, m, bytes, hcopy⟩ := hcopy
        rw [hcopy, hss] at hs
        obtain ⟨hread, hd, rfl⟩ := hs
        rw [hcopy]
        intro hack
        rw [(Message.result_succeeded_iff _).mp hack]
        exact job.performed_of_write hread hd
      · exact hkeep.of_ne_copyAwaiting fun s m bytes hc => hcopy ⟨s, m, bytes, hc⟩
  | ssClientLost hss =>
      by_cases hcopy : ∃ s m bytes, t.ssNm = .copyAwaiting s m bytes
      · obtain ⟨s, m, bytes, hcopy⟩ := hcopy
        rw [hcopy]
        trivial
      · exact hkeep.of_ne_copyAwaiting fun s m bytes hc => hcopy ⟨s, m, bytes, hc⟩
  | _ => simp_all [Threads.answer]

theorem Job.requests_request {ns : NamingServer IdealCache} (job : Job)
    (hsend : job.msg.Sendable)
    (hip : ∀ slot ∈ job.slots,
      0 ∉ (ns.address slot).1 ∧ (ns.address slot).1.length < inetAddrStrLen) :
    job.Requests net ns.address (job.request ns) := by
  cases job with
  | create | delete => rfl
  | copy msg source dest isNew =>
      obtain ⟨hpath, hpath2, -⟩ := hsend
      obtain ⟨hzero, hlen⟩ := hip dest (by simp [Job.slots])
      have hstr : (Message.copyRequest msg (ns.registeredSs dest)).path2.str = msg.path2.str :=
        CharArray.str_ofBytes msg.path2.zero_notMem_str hpath2
      refine ⟨rfl, CharArray.str_ofBytes msg.path.zero_notMem_str hpath, hstr, ?_, ?_⟩
      · rw [Job.request, hstr]
        exact hpath2
      · exact congrArg (net.clientListener · (ns.registeredSs dest).clientPort)
          (CharArray.str_ofBytes hzero hlen)

/-- Every step of a request has evidence for what comes after it. -/
theorem Threads.Evidence.step (he : t.Evidence net sh.nm.address own) (hfits : t.nm.Fits)
    (hl : Linked t own) (hsend : ∀ msg, t.nm.request = some msg → msg.Sendable)
    (hip : ∀ slot ∈ t.nm.slots,
      0 ∉ (sh.nm.address slot).1 ∧ (sh.nm.address slot).1.length < inetAddrStrLen)
    (h : Transition net r sh t a sh' t' es) : t'.Evidence net sh.nm.address (own ++ es) := by
  have hgrow : own.Sublist (own ++ es) := List.sublist_append_left _ _
  by_cases hsame : t'.nm = t.nm
  · have hkeep := he.mono hgrow fun _ _ => rfl
    unfold Threads.Evidence at he hkeep ⊢
    rw [hsame]
    cases hnm : t.nm with
    | awaiting job =>
        rw [hnm] at he hfits
        exact Job.Serving.step he hnm hfits hl h (hsame.trans hnm)
    | _ => rw [hnm] at hkeep; exact hkeep
  · unfold Threads.Evidence at he ⊢
    cases h with
    | findDelete | findSource => exact List.sublist_append_right _ _
    | pickCreate => exact List.sublist_append_right _ _
    | findTarget hnm | noTarget hnm =>
        rw [hnm] at he
        exact he.append (List.Sublist.refl _)
    | pickTarget hnm =>
        rw [hnm] at he
        exact he.append (List.Sublist.refl _)
    | @forward job s hnm hs =>
        rw [hnm] at he hsend hip
        exact ⟨hs, job.requests_request (hsend job.msg rfl) hip, he.trans hgrow⟩
    | succeeded hnm hss hresponse =>
        rw [hnm, hss] at he
        exact (he hresponse).mono hgrow fun _ _ => rfl
    | drop hnm =>
        rw [hnm] at he
        exact Job.Performed.mono he hgrow fun _ _ => rfl
    | submit | receive | lostRequest | refuse | list | registerStart | registerPath | registerEnd
      | checkCreate | hit | miss | lookupFailed | lookupFind | fill | failed | lostResponse
      | recordCreate | recordCopy | keepCopy | forget | answer => trivial
    | _ => exact absurd rfl hsame

end Serving

/-! ### Runs -/

variable {net : Network} {sh : Shared} {w : World} {as : List (ℕ × Action)}

theorem evidence_of_run (hns : sh.nm.WellFormed) (hrun : run (step net) (start sh) as = some w) :
    ∀ r, (w.locals r).Evidence net w.shared.nm.address (w.own r) := by
  refine world_invariant (C := fun _ _ => True)
    (I := fun w => ∀ r, (w.locals r).Evidence net w.shared.nm.address (w.own r)) ?_ ?_
    (eachStep_true _ _) hrun
  · intro pre w r a x hpre hI _ h q
    have hreg := registry_of_run hns hpre
    have hlinked := linked_of_run hpre r
    have haddress : ∀ slot, InUse w slot → x.1.nm.address slot = w.shared.nm.address slot :=
      fun slot hslot =>
        (hslot.step hreg (locked_of_run hpre) (fun hidle => (hlinked.fresh hidle).1) h).2
    by_cases hq : q = r
    · subst hq
      rw [shared_after, locals_after_self, own_after_self]
      have hstep := (hI q).step (fits_of_run hpre q) hlinked (sendable_of_run hpre q)
        (fun slot hslot => hreg.ip slot (hreg.slots q slot hslot)) h
      by_cases hregistering : ∃ msg slot i, x.2.1.nm = .registering msg slot i
      · obtain ⟨msg, slot, i, hnm⟩ := hregistering
        unfold Threads.Evidence
        rw [hnm]
        trivial
      · refine hstep.mono (List.Sublist.refl _) fun slot hslot => haddress slot ?_
        exact (hreg.slots_step h hslot).resolve_right fun ⟨msg, i, hnm⟩ =>
          hregistering ⟨msg, slot, i, hnm⟩
    · rw [shared_after, locals_after_ne hq, own_after_ne hq]
      exact (hI q).mono (List.Sublist.refl _) fun slot hslot =>
        haddress slot (hreg.slots q slot hslot)
  · exact fun r => trivial

/-- The request got what a job stands for, on the servers that the naming server chose. -/
def Fulfilled (net : Network) (w : World) (r : ℕ) (job : Job) : Prop :=
  job.Fits ∧ (∀ slot ∈ job.slots, InUse w slot) ∧
    job.Performed net w.shared.nm.address (w.own r)

theorem Fulfilled.step {q r : ℕ} {a : Action} {x : Shared × Threads × List Event} {job : Job}
    (hns : sh.nm.WellFormed) (hrun : run (step net) (start sh) as = some w)
    (h : Transition net r w.shared (w.locals r) a x.1 x.2.1 x.2.2) (hjob : Fulfilled net w q job) :
    Fulfilled net (w.after r x) q job := by
  obtain ⟨hfits, huse, hperformed⟩ := hjob
  have hstep : ∀ slot ∈ job.slots, InUse (w.after r x) slot ∧
      (w.after r x).shared.nm.address slot = w.shared.nm.address slot := fun slot hslot =>
    (huse slot hslot).step (registry_of_run hns hrun) (locked_of_run hrun)
      (fun hidle => ((linked_of_run hrun r).fresh hidle).1) h
  exact ⟨hfits, fun slot hslot => (hstep slot hslot).1,
    hperformed.mono own_prefix_after.sublist fun slot hslot => (hstep slot hslot).2⟩

/-- Behind a positive reply stands a job that was performed. -/
theorem fulfilled_of_answered (hns : sh.nm.WellFormed)
    (hrun : run (step net) (start sh) as = some w) {r : ℕ} {msg reply : Message}
    (hmem : .answered msg reply ∈ w.own r) (hupdate : msg.IsUpdate) (hack : reply.Succeeded) :
    ∃ job : Job, job.msg = msg ∧ Fulfilled net w r job := by
  refine reply_invariant (Q := fun w r msg reply => msg.IsUpdate → reply.Succeeded →
    ∃ job : Job, job.msg = msg ∧ Fulfilled net w r job) ?_ ?_ hrun hmem hupdate hack
  · intro pre w r a x msg reply hpre h hnm hnm' hupdate hack
    have hfits := fits_of_run hpre r
    have hslots := (registry_of_run hns hpre).slots r
    have hevidence := evidence_of_run hns hpre r
    unfold Threads.Evidence at hevidence
    rcases h.positive_cases hfits hupdate hnm' hack with hold | ⟨slot, hold, -⟩ |
      ⟨slot, hold, -⟩ | ⟨source, dest, isNew, hold⟩
    · exact absurd hold hnm
    all_goals rw [hold] at hfits hslots hevidence
    · exact ⟨.create msg slot, rfl, .step hns hpre h ⟨hfits, hslots, hevidence⟩⟩
    · exact ⟨.delete msg slot, rfl, .step hns hpre h ⟨hfits, hslots, hevidence⟩⟩
    · exact ⟨.copy msg source dest isNew, rfl, .step hns hpre h ⟨hfits, hslots, hevidence⟩⟩
  · intro pre w r a x q msg reply hpre h _ hQ hupdate hack
    obtain ⟨job, hmsg, hjob⟩ := hQ hupdate hack
    exact ⟨job, hmsg, hjob.step hns hpre h⟩

/-- Whenever the naming server answers an update with ACK/SUCCESS, the storage servers it chose
for the request have performed it with success. -/
theorem performed_of_positive_answer {disks : Server → Disk}
    (hrun : run (step net) (start ⟨.init fun _ => none, none, disks⟩) as = some w) {r : ℕ}
    {msg reply : Message} (hanswer : (r, .answered msg reply) ∈ w.history)
    (hupdate : msg.IsUpdate) (hack : reply.Succeeded) :
    ∃ job : Job, job.msg = msg ∧ job.Fits ∧
      job.Performed net w.shared.nm.address (w.own r) := by
  obtain ⟨job, hmsg, hfits, -, hperformed⟩ := fulfilled_of_answered
    (NamingServer.wellFormed_init _) hrun (mem_own.mpr hanswer) hupdate hack
  exact ⟨job, hmsg, hfits, hperformed⟩

def registerFirst : Message :=
  { Message.zero with operation := .registerSs, ssIp := .ofBytes _ [49] }

def registerFirstActions : List (ℕ × Action) :=
  [(0, .submit registerFirst), (0, .nm), (0, .nm), (0, .nm), (0, .nm)]

/-- A storage server registers, and `/a` is created. -/
theorem performed_of_positive_answer_createA :
    ∃ w msg reply, run (step portNetwork) (start ⟨.init fun _ => none, none, fun _ _ => none⟩)
        (registerFirstActions ++ checkCreateA 1 ++ finishCreateA 1) = some w ∧
      (1, .answered msg reply) ∈ w.history ∧ msg.operation = .createFile ∧ reply.Succeeded ∧
      ∃ job : Job, job.msg = msg ∧ job.Fits ∧
        job.Performed portNetwork w.shared.nm.address (w.own 1) := by
  have hany : (run (step portNetwork) (start ⟨.init fun _ => none, none, fun _ _ => none⟩)
      (registerFirstActions ++ checkCreateA 1 ++ finishCreateA 1)).any fun w =>
        ∃ e ∈ w.history, e.1 = 1 ∧ e.2.Creates createA.path.str := by decide +kernel
  obtain ⟨w, hrun, hw⟩ := (Option.any_eq_true _ _).mp hany
  obtain ⟨⟨_, e⟩, he, rfl, hcreates⟩ := of_decide_eq_true hw
  cases e with
  | answered msg reply =>
      obtain ⟨hop, -, hack⟩ := hcreates
      exact ⟨w, msg, reply, hrun, he, hop, hack,
        performed_of_positive_answer hrun he (Or.inl hop) hack⟩
  | _ => exact hcreates.elim

end NetworkFileSystem
