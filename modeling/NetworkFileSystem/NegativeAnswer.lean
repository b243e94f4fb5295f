import NetworkFileSystem.ExclusiveCreation

/-!
# What a negative answer leaves behind

A request changes nothing but its target. Where the naming server answers it with NACK, the target
is unchanged as well, unless the reply of a storage server got lost, or a COPY_FILE has stored only
part of the data.
-/

namespace NetworkFileSystem

open Interleaving Interleaving.World Machine

/-- `m` is the request to the storage server for a COPY_FILE. -/
structure Message.Copies (msg m : Message) : Prop where
  copy : msg.operation = .copyFile
  operation : m.operation = .copyFile
  path2 : m.path2.str = msg.path2.str
  length_lt : m.path2.str.length < maxPathLen

def SsNmThread.source : SsNmThread → Option Message
  | copyRead _ m _ | copyAwaiting _ m _ => some m
  | _ => none

section Steps

variable {net : Network} {sh sh' : Shared} {t t' : Threads} {a : Action} {r : ℕ}
  {own es : List Event} {msg m : Message} {s : Server} {path : Path}

theorem Transition.source_cases (h : Transition net r sh t a sh' t' es)
    (hss : t'.ssNm.source = some m) :
    t.ssNm.source = some m ∨ m.operation = .copyFile ∧ ∃ s, t.ssNm = .incoming s m := by
  cases h with
  | ssRead hin hop =>
      obtain rfl := Option.some.inj hss
      exact Or.inr ⟨hop, _, hin⟩
  | _ => simp_all [SsNmThread.source, Threads.answer]

/-- Who changes a path. -/
theorem Transition.of_changes (h : Transition net r sh t a sh' t' es) {e : Event} (he : e ∈ es)
    (hchanges : e.Changes s path) :
    (∃ m, t.ssNm = .incoming s m ∧ m.path.str = path ∧
        (m.operation = .createFile ∨ m.operation = .deleteFile)) ∨
      ∃ m, t.ssClient = .incoming s m ∧ m.path.str = path ∧ m.operation = .writeFile := by
  cases h with
  | ssCreate hss hop =>
      obtain rfl := List.mem_singleton.mp he
      obtain ⟨rfl, rfl, -⟩ := hchanges
      exact Or.inl ⟨_, hss, rfl, Or.inl hop⟩
  | ssDelete hss hop =>
      obtain rfl := List.mem_singleton.mp he
      obtain ⟨rfl, rfl, -⟩ := hchanges
      exact Or.inl ⟨_, hss, rfl, Or.inr hop⟩
  | ssWrite hss hop =>
      obtain rfl := List.mem_singleton.mp he
      obtain ⟨rfl, rfl, -⟩ := hchanges
      exact Or.inr ⟨_, hss, rfl, hop⟩
  | refuse _ _ hes => rcases hes with rfl | ⟨_, _, rfl⟩ <;> simp_all [Event.Changes]
  | serve _ _ hes => rcases hes with rfl | ⟨_, _, _, rfl⟩ <;> simp_all [Event.Changes]
  | _ => simp_all [Event.Changes]

/-! ### The target -/

/-- The threads serve the request, and it changes nothing but its target. -/
structure Serves (msg : Message) (t : Threads) (own : List Event) : Prop where
  sendable : msg.Sendable
  request : t.nm.request = some msg ∨ t.nm = .finished
  answered : ∀ msg' reply, .answered msg' reply ∈ own → msg' = msg
  forwarded : ∀ s m, t.ssNm = .incoming s m → m = msg ∨ msg.Copies m
  copying : ∀ m, t.ssNm.source = some m → msg.Copies m
  relayed : ∀ s m, t.ssClient = .incoming s m →
    m = msg ∨ msg.operation = .copyFile ∧ m.path.str = msg.path2.str
  changes : ∀ s path, ∀ e ∈ own, e.Changes s path → path = msg.target

theorem Serves.submitted (hmsg : msg.Sendable) :
    Serves msg { Threads.start with client := .asked msg, nm := .incoming msg } [] where
  sendable := hmsg
  request := Or.inl rfl
  answered _ _ h := absurd h List.not_mem_nil
  forwarded _ _ h := by cases h
  copying _ h := by cases h
  relayed _ _ h := by cases h
  changes _ _ _ h := absurd h List.not_mem_nil

/-- The request to the storage server, for the job of the request. -/
theorem Job.forwards {job : Job} {nm : NamingServer IdealCache} (hfits : job.Fits)
    (hsend : job.msg.Sendable) : job.request nm = job.msg ∨ job.msg.Copies (job.request nm) := by
  cases job with
  | create | delete => exact Or.inl rfl
  | copy msg source dest isNew =>
      obtain ⟨-, hpath2, -⟩ := hsend
      have hstr : (Message.copyRequest msg (nm.registeredSs dest)).path2.str = msg.path2.str :=
        CharArray.str_ofBytes msg.path2.zero_notMem_str hpath2
      exact Or.inr ⟨hfits, rfl, hstr, hstr ▸ hpath2⟩

/-- What the request changes is its target. -/
theorem Serves.target_of_changes (hs : Serves msg t own)
    (h : Transition net r sh t a sh' t' es) {e : Event} (he : e ∈ es)
    (hchanges : e.Changes s path) : path = msg.target := by
  rcases h.of_changes he hchanges with ⟨m, hss, rfl, hop⟩ | ⟨m, hss, rfl, hop⟩
  · rcases hs.forwarded s m hss with rfl | hcopies
    · rw [Message.target, if_neg]
      rcases hop with hop | hop <;> simp [hop]
    · rcases hop with hop | hop <;> cases hop.symm.trans hcopies.operation
  · rcases hs.relayed s m hss with rfl | ⟨hcopy, hpath⟩
    · rw [Message.target, if_neg (by simp [hop])]
    · rw [Message.target, if_pos hcopy, hpath]

theorem Serves.step (hs : Serves msg t own) (hl : Linked t own) (hfits : t.nm.Fits)
    (h : Transition net r sh t a sh' t' es) (hclient : t.client ≠ .idle) :
    Serves msg t' (own ++ es) where
  sendable := hs.sendable
  request := by
    rcases h.request_kept hclient with hkept | hfinished
    · rcases hs.request with hmsg | hfinished
      · exact Or.inl (hkept.trans hmsg)
      · exact Or.inr (h.nm_finished hclient hfinished)
    · exact Or.inr hfinished
  answered := by
    intro msg' reply hmem
    rcases List.mem_append.mp hmem with hold | hnew
    · exact hs.answered msg' reply hold
    · have hnm := (h.of_answered hnew).1
      rcases hs.request with hmsg | hfinished
      · rw [hnm] at hmsg
        exact Option.some.inj hmsg
      · cases hnm.symm.trans hfinished
  forwarded := by
    intro s m hss
    rcases h.incoming_cases hss with hold | ⟨job, hnm, rfl⟩
    · exact hs.forwarded s m hold
    · rcases hs.request with hmsg | hfinished
      · rw [hnm] at hmsg hfits
        obtain rfl : job.msg = msg := Option.some.inj hmsg
        exact job.forwards hfits hs.sendable
      · cases hnm.symm.trans hfinished
  copying := by
    intro m hss
    rcases h.source_cases hss with hold | ⟨hop, s, hin⟩
    · exact hs.copying m hold
    · rcases hs.forwarded s m hin with rfl | hcopies
      · exact ⟨hop, hop, rfl, hs.sendable.2.1⟩
      · exact hcopies
  relayed := by
    intro s m hss
    rcases h.ssClient_cases hss with hold | ⟨reply, hr, -⟩ | ⟨s', m', bytes, hread, rfl⟩
    · exact hs.relayed s m hold
    · exact Or.inl (hs.answered m reply (hl.replied m reply hr))
    · have hcopies := hs.copying m' (by rw [hread]; rfl)
      refine Or.inr ⟨hcopies.copy, ?_⟩
      rw [Message.path_writeRequest m' bytes hcopies.length_lt, hcopies.path2]
  changes := by
    intro s path e he hchanges
    rcases List.mem_append.mp he with hold | hnew
    · exact hs.changes s path e hold hchanges
    · exact hs.target_of_changes h hnew hchanges

/-! ### Negative replies -/

/-- No reply was lost, and nothing has changed. -/
structure Pristine (own : List Event) : Prop where
  lost : .lostReply ∉ own
  changes : ∀ s path, ∀ e ∈ own, ¬e.Changes s path

/-- What the request has done if it is answered with the error. -/
structure Declined (msg : Message) (code : ErrorCode) (own : List Event) : Prop where
  lost : .lostReply ∈ own → code = .networkError
  changes : .lostReply ∉ own → (∀ s path, ∀ e ∈ own, ¬e.Changes s path) ∨
    msg.operation = .copyFile ∧ code = .asyncWriteFailed ∧
      ∃ d, ∀ s path, ∀ e ∈ own, e.Changes s path → s = d

/-- What the storage servers have done so far. -/
def Tried (msg : Message) (own : List Event) : SsNmThread → SsClientThread → Prop
  | .incoming _ _, _ | .copyRead _ _ _, _ | .copyAwaiting _ _ _, .incoming _ _ => Pristine own
  | .copyAwaiting _ _ _, .answering _ response | .answering _ response, _ =>
    ¬response.Succeeded → Declined msg response.errorCode own
  | _, _ => True

/-- Before the request is sent on nothing has changed, and after that only what its reply will
say. -/
structure Threads.Candid (t : Threads) (own : List Event) : Prop where
  unforwarded : t.nm.Unforwarded → Pristine own
  awaiting : ∀ job, t.nm = .awaiting job → Tried job.msg own t.ssNm t.ssClient

theorem Pristine.declined (h : Pristine own) (msg : Message) (code : ErrorCode) :
    Declined msg code own where
  lost hlost := absurd hlost h.lost
  changes _ := Or.inl h.changes

theorem Pristine.append (h : Pristine own) (hlost : .lostReply ∉ es)
    (hes : ∀ s path, ∀ e ∈ es, ¬e.Changes s path) : Pristine (own ++ es) where
  lost hmem := (List.mem_append.mp hmem).elim h.lost hlost
  changes s path e he := (List.mem_append.mp he).elim (h.changes s path e) (hes s path e)

/-- Later events do not matter that lose no reply and change nothing. -/
theorem Declined.append {code : ErrorCode} (h : Declined msg code own)
    (hlost : .lostReply ∈ es → .lostReply ∈ own)
    (hes : .lostReply ∉ own → ∀ s path, ∀ e ∈ es, ¬e.Changes s path) :
    Declined msg code (own ++ es) where
  lost hmem := h.lost ((List.mem_append.mp hmem).elim id hlost)
  changes hmem := by
    have hown : .lostReply ∉ own := fun hmem' => hmem (List.mem_append_left es hmem')
    refine (h.changes hown).imp (fun hkept s path e he => ?_) ?_
    · exact (List.mem_append.mp he).elim (hkept s path e) (hes hown s path e)
    · rintro ⟨hop, hcode, d, hd⟩
      refine ⟨hop, hcode, d, fun s path e he hchanges => ?_⟩
      rcases List.mem_append.mp he with he | he
      · exact hd s path e he hchanges
      · exact absurd hchanges (hes hown s path e he)

theorem Transition.of_lostReply (h : Transition net r sh t a sh' t' es)
    (hlost : .lostReply ∈ es) :
    (∃ job, t.nm = .awaiting job) ∨ ∃ s m bytes, t.ssNm = .copyAwaiting s m bytes := by
  cases h with
  | lostResponse hnm => exact Or.inl ⟨_, hnm⟩
  | ssLostResponse hss => exact Or.inr ⟨_, _, _, hss⟩
  | refuse _ _ hes => rcases hes with rfl | ⟨_, _, rfl⟩ <;> simp at hlost
  | serve _ _ hes => rcases hes with rfl | ⟨_, _, _, rfl⟩ <;> simp at hlost
  | _ => simp at hlost

/-- Before the request is sent on, a step loses no reply and changes nothing. -/
theorem Linked.unforwarded_events (hl : Linked t own) (hnm : t.nm.Unforwarded)
    (h : Transition net r sh t a sh' t' es) :
    .lostReply ∉ es ∧ ∀ s path, ∀ e ∈ es, ¬e.Changes s path := by
  obtain ⟨hssNm, hssClient⟩ := hl.unforwarded hnm
  refine ⟨fun hlost => ?_, fun s path e he hchanges => ?_⟩
  · rcases h.of_lostReply hlost with ⟨job, hjob⟩ | ⟨s, m, bytes, hss⟩
    · rw [hjob] at hnm
      exact hnm
    · cases hssNm.symm.trans hss
  · rcases h.of_changes he hchanges with ⟨m, hss, -⟩ | ⟨m, hss, -⟩
    · cases hssNm.symm.trans hss
    · cases hssClient.symm.trans hss

/-- Once the reply is settled, only a storage server whose reply got lost goes on. -/
theorem Linked.settled_events (hl : Linked t own) (hupdate : msg.IsUpdate) {reply : Message}
    (hsettled : t.nm = .answering msg reply ∨ .answered msg reply ∈ own)
    (h : Transition net r sh t a sh' t' es) :
    (.lostReply ∈ es → .lostReply ∈ own) ∧
      (.lostReply ∉ own → ∀ s path, ∀ e ∈ es, ¬e.Changes s path) := by
  have hawaiting : ∀ job, t.nm ≠ .awaiting job := by
    intro job hjob
    rcases hsettled with hnm | hanswered
    · cases hnm.symm.trans hjob
    · cases (hl.answered _ _ hanswered).1.symm.trans hjob
  have hforwarded : t.ssNm.Busy → .lostReply ∈ own := fun hbusy =>
    (hl.forwarded hbusy).resolve_left fun ⟨job, hjob⟩ => hawaiting job hjob
  have hrelayed : t.ssClient.Busy → .lostReply ∈ own := by
    intro hbusy
    rcases hl.relayed hbusy with ⟨s, m, bytes, hss⟩ | hlost | ⟨msg', reply', hmem, hlookup⟩
    · exact hforwarded (by simp [SsNmThread.Busy, hss])
    · exact hlost
    · obtain ⟨hfinished, hone⟩ := hl.answered _ _ hmem
      rcases hsettled with hnm | hanswered
      · cases hnm.symm.trans hfinished
      · obtain ⟨rfl, -⟩ := hone _ _ hanswered
        exact absurd hlookup hupdate.not_isLookup
  refine ⟨fun hlost => ?_, fun hown s path e he hchanges => hown ?_⟩
  · rcases h.of_lostReply hlost with ⟨job, hjob⟩ | ⟨s, m, bytes, hss⟩
    · exact absurd hjob (hawaiting job)
    · exact hforwarded (by simp [SsNmThread.Busy, hss])
  · rcases h.of_changes he hchanges with ⟨m, hss, -⟩ | ⟨m, hss, -⟩
    · exact hforwarded (by simp [SsNmThread.Busy, hss])
    · exact hrelayed (by simp [SsClientThread.Busy, hss])

/-- The state of the client handler matters only while the NM handler waits for it. -/
theorem Tried.of_ne_copyAwaiting {ssNm : SsNmThread} {ssClient ssClient' : SsClientThread}
    (h : Tried msg own ssNm ssClient) (hne : ∀ s m bytes, ssNm ≠ .copyAwaiting s m bytes) :
    Tried msg own ssNm ssClient' := by
  cases ssNm with
  | copyAwaiting s m bytes => exact absurd rfl (hne s m bytes)
  | _ => exact h

theorem Tried.append {ssNm : SsNmThread} {ssClient : SsClientThread}
    (h : Tried msg own ssNm ssClient) (hlost : .lostReply ∈ es → .lostReply ∈ own)
    (hes : .lostReply ∉ own → ∀ s path, ∀ e ∈ es, ¬e.Changes s path) :
    Tried msg (own ++ es) ssNm ssClient := by
  have hpristine : Pristine own → Pristine (own ++ es) := fun h =>
    h.append (fun hmem => h.lost (hlost hmem)) (hes h.lost)
  cases ssNm with
  | incoming s m => exact hpristine h
  | copyRead s m bytes => exact hpristine h
  | copyAwaiting s m bytes =>
      cases ssClient with
      | incoming d m' => exact hpristine h
      | answering d response => exact fun hnack => (h hnack).append hlost hes
      | idle | finished => trivial
  | answering s response => exact fun hnack => (h hnack).append hlost hes
  | idle | finished => trivial

/-- An operation that fails has changed nothing, but for a write. -/
theorem Pristine.failed (h : Pristine own) {op : FileOp} {os : Os} {code : ErrorCode}
    (hcode : code ≠ .success) (hop : ∀ path data, op ≠ .write path data) (msg : Message) :
    Declined msg code (own ++ [.executed s op os code]) := by
  refine (h.append (by simp) fun s' path e he => ?_).declined msg code
  obtain rfl := List.mem_singleton.mp he
  cases op with
  | write path data => exact absurd rfl (hop path data)
  | read path bytes => exact id
  | create path type => exact fun hchanges => hcode hchanges.2.2
  | delete path => exact fun hchanges => hcode hchanges.2.2

/-- A write that fails has changed the destination of a copy at most, after a short write. -/
theorem Pristine.failed_write (h : Pristine own) (hcopy : msg.operation = .copyFile)
    {path : Path} {data : List UInt8} {os : Os} {code : ErrorCode} (hcode : code ≠ .success) :
    Declined msg code (own ++ [.executed s (.write path data) os code]) where
  lost hlost := absurd hlost (by simp [h.lost])
  changes _ := by
    by_cases hpart : code = .asyncWriteFailed
    · refine Or.inr ⟨hcopy, hpart, s, fun s' path' e he hchanges => ?_⟩
      rcases List.mem_append.mp he with he | he
      · exact absurd hchanges (h.changes s' path' e he)
      · obtain rfl := List.mem_singleton.mp he
        exact hchanges.1.symm
    · refine Or.inl (h.append (by simp) fun s' path' e he hchanges => ?_).changes
      obtain rfl := List.mem_singleton.mp he
      exact hchanges.2.2.elim hcode hpart

/-- Nobody asks the client handler while the NM handler does not wait for it, unless a reply got
lost. -/
theorem Linked.lost_of_unasked (hl : Linked t own) {job : Job} (hnm : t.nm = .awaiting job)
    (hne : ∀ s m bytes, t.ssNm ≠ .copyAwaiting s m bytes) (hbusy : t.ssClient.Busy) :
    .lostReply ∈ own := by
  rcases hl.relayed hbusy with ⟨s, m, bytes, hss⟩ | hlost | ⟨msg', reply', hmem, -⟩
  · exact absurd hss (hne s m bytes)
  · exact hlost
  · cases hnm.symm.trans (hl.answered _ _ hmem).1

/-- A step of the storage servers while the naming server waits. -/
theorem Tried.step {job : Job} (ht : Tried job.msg own t.ssNm t.ssClient)
    (hnm : t.nm = .awaiting job) (hl : Linked t own) (hs : Serves job.msg t own)
    (h : Transition net r sh t a sh' t' es) (hnm' : t'.nm = .awaiting job) :
    Tried job.msg (own ++ es) t'.ssNm t'.ssClient := by
  have hread : ∀ s path bytes os code, Pristine own →
      Pristine (own ++ [.executed s (.read path bytes) os code]) := fun s path bytes os code h =>
    h.append (by simp) fun s' path' e he => by simp_all [Event.Changes]
  cases h with
  | quit => exact ht.append (by simp) (by simp)
  | contact hclient => cases hnm.symm.trans (hl.answered _ _ (hl.replied _ _ hclient)).1
  | served hclient => cases hnm.symm.trans (hl.contacted hclient)
  | refuse href => simp [hnm, NmThread.refusable] at href
  | ssCreate hss =>
      rw [hss] at ht
      exact fun hnack => ht.failed (fun hc => hnack ((Message.result_succeeded_iff _).mpr hc))
        (by simp) _
  | ssDelete hss =>
      rw [hss] at ht
      exact fun hnack => ht.failed (fun hc => hnack ((Message.result_succeeded_iff _).mpr hc))
        (by simp) _
  | ssRead hss =>
      rw [hss] at ht
      exact hread _ _ _ _ _ ht
  | ssReadFailed hss =>
      rw [hss] at ht
      exact fun _ => (hread _ _ _ _ _ ht).declined _ _
  | ssRefuse hss =>
      have hpristine : Pristine own := by
        rcases hss with ⟨hss, -⟩ | ⟨bytes, hss⟩ <;>
          · rw [hss] at ht
            exact ht
      rw [List.append_nil]
      exact fun _ => hpristine.declined _ _
  | ssLost => trivial
  | relay hss =>
      rw [hss] at ht
      rw [List.append_nil]
      exact ht
  | @relayed os s m bytes d response hss hdest =>
      rw [hss, hdest] at ht
      rw [List.append_nil]
      intro hnack
      by_cases hresponse : response.Succeeded
      · rw [if_pos hresponse] at hnack
        exact absurd Message.ack_succeeded hnack
      · rw [if_neg hresponse]
        exact ht hresponse
  | ssLostResponse hss =>
      exact fun _ => ⟨fun _ => rfl, fun hlost => absurd (by simp) hlost⟩
  | @serve os s m response _ hss hop hes =>
      have hreads : .lostReply ∉ es ∧ ∀ s path, ∀ e ∈ es, ¬e.Changes s path := by
        rcases hes with rfl | ⟨path, bytes, code, rfl⟩
        · simp
        · simp [Event.Changes]
      by_cases hcopy : ∃ s m bytes, t.ssNm = .copyAwaiting s m bytes
      · obtain ⟨s', m', bytes, hcopy⟩ := hcopy
        rw [hcopy, hss] at ht
        rw [hcopy]
        exact fun _ => (Pristine.append ht hreads.1 hreads.2).declined _ _
      · refine (ht.append (fun hlost => absurd hlost hreads.1) fun _ => hreads.2).of_ne_copyAwaiting
          fun s m bytes hc => hcopy ⟨s, m, bytes, hc⟩
  | @ssWrite os s m code disk hss hop hdisk =>
      have hbusy : t.ssClient.Busy := by simp [SsClientThread.Busy, hss]
      by_cases hcopy : ∃ s m bytes, t.ssNm = .copyAwaiting s m bytes
      · obtain ⟨s', m', bytes, hcopy⟩ := hcopy
        rw [hcopy, hss] at ht
        have hcopies := hs.copying m' (by rw [hcopy]; rfl)
        rw [hcopy]
        exact fun hnack => Pristine.failed_write ht hcopies.copy fun hc =>
          hnack ((Message.result_succeeded_iff _).mpr hc)
      · have hne : ∀ s m bytes, t.ssNm ≠ .copyAwaiting s m bytes := fun s m bytes hc =>
          hcopy ⟨s, m, bytes, hc⟩
        have hlost := hl.lost_of_unasked hnm hne hbusy
        exact (ht.append (fun _ => hlost) fun hnot => absurd hlost hnot).of_ne_copyAwaiting hne
  | ssClientLost hss =>
      by_cases hcopy : ∃ s m bytes, t.ssNm = .copyAwaiting s m bytes
      · obtain ⟨s, m, bytes, hcopy⟩ := hcopy
        rw [hcopy]
        trivial
      · exact (ht.append (by simp) (by simp)).of_ne_copyAwaiting fun s m bytes hc =>
          hcopy ⟨s, m, bytes, hc⟩
  | _ => simp_all [Threads.answer]

theorem Transition.awaiting_cases (h : Transition net r sh t a sh' t' es) {job : Job}
    (hnm : t'.nm = .awaiting job) :
    t.nm = .awaiting job ∨ t.nm = .connecting job ∧ es = [] ∧ ∃ s m, t'.ssNm = .incoming s m := by
  cases h <;> simp_all [Threads.answer]

theorem Threads.Candid.step (hc : t.Candid own) (hl : Linked t own) (hs : Serves msg t own)
    (h : Transition net r sh t a sh' t' es) (hclient : t.client ≠ .idle) :
    t'.Candid (own ++ es) where
  unforwarded hnm := by
    have hold := h.unforwarded hclient hnm
    obtain ⟨hlost, hes⟩ := hl.unforwarded_events hold h
    exact (hc.unforwarded hold).append hlost hes
  awaiting job hnm := by
    rcases h.awaiting_cases hnm with hold | ⟨hold, rfl, s, m, hss⟩
    · have hmsg : job.msg = msg := by
        rcases hs.request with hmsg | hfinished
        · rw [hold] at hmsg
          exact Option.some.inj hmsg
        · cases hold.symm.trans hfinished
      exact (hc.awaiting job hold).step hold hl (hmsg ▸ hs) h hnm
    · have hunforwarded : t.nm.Unforwarded := by simp [hold, NmThread.Unforwarded]
      rw [hss, List.append_nil]
      exact hc.unforwarded hunforwarded

/-- Where the negative replies come from. -/
theorem Transition.negative_cases (h : Transition net r sh t a sh' t' es) {reply : Message}
    (hnm : t.nm ≠ .answering msg reply) (hnm' : t'.nm = .answering msg reply)
    (hnack : ¬reply.Succeeded) :
    t.nm.Unforwarded ∨ reply = .nack .networkError ∧ .lostReply ∈ es ∨
      ∃ job s response, t.nm = .awaiting job ∧ job.msg = msg ∧ t.ssNm = .answering s response ∧
        ¬response.Succeeded ∧ reply.errorCode = response.errorCode ∧ es = [] := by
  cases h with
  | failed hold hss hresponse =>
      obtain ⟨rfl, rfl⟩ := NmThread.answering.inj hnm'
      exact Or.inr (Or.inr ⟨_, _, _, hold, rfl, hss, hresponse, rfl, rfl⟩)
  | lostResponse hold =>
      obtain ⟨rfl, rfl⟩ := NmThread.answering.inj hnm'
      exact Or.inr (Or.inl ⟨rfl, by simp⟩)
  | recordCreate | recordCopy | keepCopy | forget =>
      obtain ⟨rfl, rfl⟩ := NmThread.answering.inj hnm'
      exact absurd Message.ack_succeeded hnack
  | refuse href =>
      left
      cases hold : t.nm <;> simp_all [NmThread.refusable, NmThread.Unforwarded]
  | _ => simp_all [NmThread.Unforwarded, Threads.answer]

end Steps

variable {net : Network} {sh : Shared} {w : World} {as : List (ℕ × Action)} {r : ℕ}
  {msg reply : Message}

theorem serves_of_run (hrun : run (step net) (start sh) as = some w) (r : ℕ) :
    (w.locals r).client = .idle ∨ ∃ msg, Serves msg (w.locals r) (w.own r) := by
  refine (request_invariant (Φ := fun t own => t.nm.Fits ∧
    (t.client = .idle ∨ ∃ msg, Serves msg t own)) ?_ ⟨trivial, Or.inl rfl⟩ hrun r).2.2
  intro r sh t a sh' t' own es hl ⟨hfits, hserves⟩ h
  refine ⟨h.fits hfits, Or.inr ?_⟩
  rcases hserves with hidle | ⟨msg, hs⟩
  · obtain ⟨rfl, rfl⟩ := hl.fresh hidle
    obtain ⟨msg, -, hmsg, -, rfl, rfl⟩ := h.of_start
    exact ⟨msg, .submitted hmsg⟩
  · by_cases hclient : t.client = .idle
    · obtain ⟨rfl, rfl⟩ := hl.fresh hclient
      obtain ⟨msg, -, hmsg, -, rfl, rfl⟩ := h.of_start
      exact ⟨msg, .submitted hmsg⟩
    · exact ⟨msg, hs.step hl hfits h hclient⟩

theorem Threads.candid_start : Threads.start.Candid [] where
  unforwarded _ := ⟨List.not_mem_nil, fun _ _ _ he => absurd he List.not_mem_nil⟩
  awaiting _ h := by cases h

theorem candid_of_run (hrun : run (step net) (start sh) as = some w) :
    ∀ r, (w.locals r).Candid (w.own r) := by
  refine world_invariant (C := fun _ _ => True)
    (I := fun w => ∀ r, (w.locals r).Candid (w.own r)) ?_ (fun _ => Threads.candid_start)
    (eachStep_true _ _) hrun
  intro pre w r a x hpre hI _ h q
  by_cases hq : q = r
  · subst hq
    rw [locals_after_self, own_after_self]
    have hl := linked_of_run hpre q
    by_cases hclient : (w.locals q).client = .idle
    · obtain ⟨hstart, hown⟩ := hl.fresh hclient
      rw [hstart] at h
      obtain ⟨msg, -, hmsg, -, hes, ht⟩ := h.of_start
      rw [hown, hes, ht]
      exact ⟨Threads.candid_start.unforwarded ∘ fun _ => trivial, fun _ h => by cases h⟩
    · obtain ⟨msg, hs⟩ := (serves_of_run hpre q).resolve_left hclient
      exact (hI q).step hl hs h hclient
  · rw [locals_after_ne hq, own_after_ne hq]
    exact hI q

/-- What a request has done that is answered with an error. -/
theorem declined_of_answered (hrun : run (step net) (start sh) as = some w)
    (hmem : .answered msg reply ∈ w.own r) (hupdate : msg.IsUpdate) (hnack : ¬reply.Succeeded) :
    Declined msg reply.errorCode (w.own r) := by
  refine reply_invariant (Q := fun w r msg reply => msg.IsUpdate → ¬reply.Succeeded →
    Declined msg reply.errorCode (w.own r)) ?_ ?_ hrun hmem hupdate hnack
  · intro pre w r a x msg reply hpre h hnm hnm' hupdate hnack
    have hc := candid_of_run hpre r
    rw [own_after_self]
    rcases h.negative_cases hnm hnm' hnack with hunforwarded | ⟨rfl, hlost⟩ |
      ⟨job, s, response, hold, rfl, hss, hresponse, hcode, hes⟩
    · obtain ⟨hlost, hes⟩ := (linked_of_run hpre r).unforwarded_events hunforwarded h
      exact ((hc.unforwarded hunforwarded).append hlost hes).declined _ _
    · exact ⟨fun _ => rfl, fun hnot => absurd (List.mem_append_right _ hlost) hnot⟩
    · have htried := hc.awaiting job hold
      rw [hss] at htried
      rw [hes, List.append_nil, hcode]
      exact htried hresponse
  · intro pre w r a x q msg reply hpre h hsettled hQ hupdate hnack
    have hdeclined := hQ hupdate hnack
    by_cases hq : q = r
    · subst hq
      rw [own_after_self]
      obtain ⟨hlost, hes⟩ := (linked_of_run hpre q).settled_events hupdate hsettled h
      exact hdeclined.append hlost hes
    · rw [own_after_ne hq]
      exact hdeclined

/-- In the run, a step of the request changes what the server holds at the path. -/
def Changed (net : Network) (sh : Shared) (as : List (ℕ × Action)) (r : ℕ) (s : Server)
    (path : Path) : Prop :=
  ∃ pre a post u v, as = pre ++ (r, a) :: post ∧ run (step net) (start sh) pre = some u ∧
    step net u (r, a) = some v ∧ v.shared.disks s path ≠ u.shared.disks s path

theorem Changed.exists_event {s : Server} {path : Path} (h : Changed net sh as r s path)
    (hrun : run (step net) (start sh) as = some w) : ∃ e ∈ w.own r, e.Changes s path := by
  obtain ⟨pre, a, post, u, v, rfl, hpre, hv, hdisk⟩ := h
  rw [run_append, hpre, Option.bind_some, run_cons, hv, Option.bind_some] at hrun
  obtain ⟨x, hx, rfl⟩ := step_eq_some.mp hv
  obtain ⟨e, he, hchanges⟩ :=
    ((Transition.of_request hx).disks_cases s path).resolve_left hdisk
  have hmem : (r, e) ∈ (u.after r x).history := by
    rw [history_after]
    exact List.mem_append_right _ (List.mem_map_of_mem he)
  exact ⟨e, mem_own.mpr ((history_prefix_of_run hrun).subset hmem), hchanges⟩

/-- An update that is answered with NACK has changed nothing, unless the reply of a storage server
got lost, or it is a COPY_FILE that has stored only part of the data on one server. Even then it
has changed nothing but its target. -/
theorem changed_of_negative_answer (hrun : run (step net) (start sh) as = some w)
    (hanswer : (r, .answered msg reply) ∈ w.history) (hupdate : msg.IsUpdate)
    (hnack : ¬reply.Succeeded) :
    ∃ d, ∀ s path, Changed net sh as r s path → path = msg.target ∧
      ((r, .lostReply) ∈ w.history ∧ reply.errorCode = .networkError ∨
        msg.operation = .copyFile ∧ reply.errorCode = .asyncWriteFailed ∧ s = d) := by
  have hmem := mem_own.mpr hanswer
  have hdeclined := declined_of_answered hrun hmem hupdate hnack
  have htarget : ∀ s path, Changed net sh as r s path → path = msg.target := by
    intro s path hchanged
    obtain ⟨e, he, hchanges⟩ := hchanged.exists_event hrun
    rcases serves_of_run hrun r with hidle | ⟨msg', hs⟩
    · rw [((linked_of_run hrun r).fresh hidle).2] at he
      cases he
    · obtain rfl := hs.answered msg reply hmem
      exact hs.changes s path e he hchanges
  by_cases hlost : .lostReply ∈ w.own r
  · refine ⟨0, fun s path hchanged => ⟨htarget s path hchanged, Or.inl ⟨?_, ?_⟩⟩⟩
    · exact mem_own.mp hlost
    · exact hdeclined.lost hlost
  · rcases hdeclined.changes hlost with hnone | ⟨hop, hcode, d, hd⟩
    · refine ⟨0, fun s path hchanged => ?_⟩
      obtain ⟨e, he, hchanges⟩ := hchanged.exists_event hrun
      exact absurd hchanges (hnone s path e he)
    · refine ⟨d, fun s path hchanged => ⟨htarget s path hchanged, Or.inr ⟨hop, hcode, ?_⟩⟩⟩
      obtain ⟨e, he, hchanges⟩ := hchanged.exists_event hrun
      exact hd s path e he hchanges

/-- The server 0 creates `/a`, and the naming server does not get its reply. -/
def createUnheard : List (ℕ × Action) :=
  checkCreateA 0 ++ [(0, .nm), (0, .nm), (0, .ssNm .ok), (0, .nmFail .receive), (0, .nm)]

theorem changed_createUnheard :
    Changed portNetwork twoServers createUnheard 0 0 createA.path.str := by
  have hany : (run (step portNetwork) (start twoServers)
      (checkCreateA 0 ++ [(0, .nm), (0, .nm)])).any fun u =>
        (step portNetwork u (0, .ssNm .ok)).any fun v =>
          decide (v.shared.disks 0 createA.path.str ≠ u.shared.disks 0 createA.path.str) := by
    decide +kernel
  obtain ⟨u, hu, hany⟩ := (Option.any_eq_true _ _).mp hany
  obtain ⟨v, hv, hdisk⟩ := (Option.any_eq_true _ _).mp hany
  exact ⟨checkCreateA 0 ++ [(0, .nm), (0, .nm)], .ssNm .ok, [(0, .nmFail .receive), (0, .nm)], u, v,
    rfl, hu, hv, of_decide_eq_true hdisk⟩

/-- The negative reply to a CREATE_FILE. -/
def Event.RefusesCreation : Event → Bool
  | answered msg reply => decide (msg.operation = .createFile ∧ ¬reply.Succeeded)
  | _ => false

theorem Event.RefusesCreation.exists_answered {e : Event} (h : e.RefusesCreation) :
    ∃ msg reply, e = .answered msg reply ∧ msg.operation = .createFile ∧ ¬reply.Succeeded := by
  cases e with
  | answered msg reply => exact ⟨msg, reply, rfl, of_decide_eq_true h⟩
  | _ => cases h

theorem refused_createUnheard : ∃ w msg reply,
    run (step portNetwork) (start twoServers) createUnheard = some w ∧
      (0, .answered msg reply) ∈ w.history ∧ msg.IsUpdate ∧ ¬reply.Succeeded := by
  have hany : (run (step portNetwork) (start twoServers) createUnheard).any fun w =>
      w.history.any fun e => decide (e.1 = 0) && e.2.RefusesCreation := by decide +kernel
  obtain ⟨w, hrun, hw⟩ := (Option.any_eq_true _ _).mp hany
  obtain ⟨⟨q, e⟩, he, hrefused⟩ := List.any_eq_true.mp hw
  obtain ⟨hq, hrefuses⟩ := Bool.and_eq_true_iff.mp hrefused
  obtain rfl : q = 0 := of_decide_eq_true hq
  obtain ⟨msg, reply, rfl, hop, hnack⟩ := Event.RefusesCreation.exists_answered hrefuses
  exact ⟨w, msg, reply, hrun, he, Or.inl hop, hnack⟩

/-- The answer is negative, and the file is there. -/
theorem negative_answer_changed : ∃ w msg reply s path,
    run (step portNetwork) (start twoServers) createUnheard = some w ∧
      (0, .answered msg reply) ∈ w.history ∧ msg.IsUpdate ∧ ¬reply.Succeeded ∧
      Changed portNetwork twoServers createUnheard 0 s path := by
  obtain ⟨w, msg, reply, hrun, hanswer, hupdate, hnack⟩ := refused_createUnheard
  exact ⟨w, msg, reply, 0, _, hrun, hanswer, hupdate, hnack, changed_createUnheard⟩

theorem changed_of_negative_answer_createUnheard : ∃ w msg reply,
    run (step portNetwork) (start twoServers) createUnheard = some w ∧
      (0, .answered msg reply) ∈ w.history ∧ msg.target = createA.path.str ∧
      (reply.errorCode = .networkError ∨ reply.errorCode = .asyncWriteFailed) := by
  obtain ⟨w, msg, reply, hrun, hanswer, hupdate, hnack⟩ := refused_createUnheard
  obtain ⟨d, hd⟩ := changed_of_negative_answer hrun hanswer hupdate hnack
  obtain ⟨htarget, hcode⟩ := hd _ _ changed_createUnheard
  exact ⟨w, msg, reply, hrun, hanswer, htarget.symm,
    hcode.imp And.right fun h => h.2.1⟩

end NetworkFileSystem
