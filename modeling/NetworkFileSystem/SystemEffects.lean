import NetworkFileSystem.SystemSteps

/-!
# What a step changes

For each part of the state, the steps that touch it, with what the invariants need to know of them.
-/

namespace NetworkFileSystem

namespace Message

/-- CREATE_FILE, DELETE_FILE or COPY_FILE. -/
def IsUpdate (msg : Message) : Prop :=
  msg.operation = .createFile ∨ msg.operation = .deleteFile ∨ msg.operation = .copyFile

theorem IsUpdate.not_isLookup {msg : Message} (h : msg.IsUpdate) : ¬ msg.IsLookup := by
  rcases h with h | h | h <;> simp [IsLookup, h]

end Message

namespace Job

/-- The job belongs to a request for this operation. -/
def Fits : Job → Prop
  | create msg _ => msg.operation = .createFile
  | delete msg _ => msg.operation = .deleteFile
  | copy msg _ _ _ => msg.operation = .copyFile

def slots : Job → List Slot
  | create _ target | delete _ target => [target]
  | copy _ source dest _ => [source, dest]

end Job

namespace NmThread

/-- The state belongs to a request for this operation. -/
def Fits : NmThread → Prop
  | registering msg _ _ => msg.operation = .registerSs
  | createChecked msg => msg.operation = .createFile
  | copyFound msg _ | copyUnplaced msg _ => msg.operation = .copyFile
  | lookupMissed msg | lookupFound msg _ => msg.IsLookup
  | connecting job | awaiting job | concluding job => job.Fits
  | deleteDropped msg _ => msg.operation = .deleteFile
  | idle | incoming _ | received _ | answering _ _ | finished => True

/-- The request that the handler serves. -/
def request : NmThread → Option Message
  | incoming msg | received msg | registering msg _ _ | createChecked msg | copyFound msg _
  | copyUnplaced msg _ | lookupMissed msg | lookupFound msg _ | deleteDropped msg _
  | answering msg _ => some msg
  | connecting job | awaiting job | concluding job => some job.msg
  | idle | finished => none

/-- The servers that the handler has pointers to. -/
def slots : NmThread → List Slot
  | registering _ slot _ | copyFound _ slot | copyUnplaced _ slot | lookupFound _ slot
  | deleteDropped _ slot => [slot]
  | connecting job | awaiting job | concluding job => job.slots
  | _ => []

/-- The handler holds `ss_list_mutex`. -/
def Locked : NmThread → Prop
  | registering _ _ _ | deleteDropped _ _ => True
  | _ => False

/-- Nothing was sent to a storage server yet. -/
def Unforwarded : NmThread → Prop
  | awaiting _ | concluding _ | deleteDropped _ _ | answering _ _ | finished => False
  | _ => True

/-- The handler of a lookup that has found nothing, and that can only answer so. -/
def Misses (msg : Message) : NmThread → Prop
  | received msg' | lookupMissed msg' => msg' = msg
  | answering _ reply => reply = .nack .fileNotFound
  | finished => True
  | _ => False

theorem request_of_refusable {n : NmThread} {msg : Message} (h : n.refusable = some msg) :
    n.request = some msg := by
  cases n <;> simp_all [refusable, request]

end NmThread

/-- The operation has changed what the server holds at the path, or may have. -/
def Event.Changes (s : Server) (path : Path) : Event → Prop
  | executed s' (.create path' _) _ code | executed s' (.delete path') _ code =>
    s' = s ∧ path' = path ∧ code = .success
  | executed s' (.write path' _) _ code =>
    s' = s ∧ path' = path ∧ (code = .success ∨ code = .asyncWriteFailed)
  | _ => False

def SsNmThread.Busy (n : SsNmThread) : Prop := n ≠ .idle ∧ n ≠ .finished

def SsClientThread.Busy (n : SsClientThread) : Prop := n ≠ .idle ∧ n ≠ .finished

namespace Transition

variable {net : Network} {r : ℕ} {sh sh' : Shared} {t t' : Threads} {a : Action}
  {es : List Event} {msg : Message}

/-! ### The threads -/

theorem length_events (h : Transition net r sh t a sh' t' es) : es.length ≤ 1 := by
  cases h with
  | refuse _ _ hes => rcases hes with rfl | ⟨_, _, rfl⟩ <;> simp
  | serve _ _ hes => rcases hes with rfl | ⟨_, _, _, rfl⟩ <;> simp
  | _ => simp

theorem of_start (h : Transition net r sh .start a sh' t' es) :
    ∃ msg, a = .submit msg ∧ msg.Sendable ∧ sh' = sh ∧ es = [] ∧
      t' = { Threads.start with client := .asked msg, nm := .incoming msg } := by
  cases h <;> simp_all [Threads.start, NmThread.refusable]

theorem of_answered {reply : Message} (h : Transition net r sh t a sh' t' es)
    (hmem : .answered msg reply ∈ es) :
    t.nm = .answering msg reply ∧ es = [.answered msg reply] ∧
      t' = { t with nm := .finished, client := t.client.hear msg reply } := by
  cases h with
  | answer hnm =>
      obtain ⟨rfl, rfl⟩ : msg = _ ∧ reply = _ := by simpa using hmem
      exact ⟨hnm, rfl, rfl⟩
  | refuse _ _ hes => rcases hes with rfl | ⟨_, _, rfl⟩ <;> simp at hmem
  | serve _ _ hes => rcases hes with rfl | ⟨_, _, _, rfl⟩ <;> simp at hmem
  | _ => simp at hmem

theorem client_cases (h : Transition net r sh t a sh' t' es) :
    t'.client = t.client ∨ t'.client = .finished ∨
      (∃ msg, t.client = .idle ∧ t'.client = .asked msg) ∨
      (∃ msg reply, t.client = .replied msg reply ∧ msg.IsLookup ∧ t'.client = .contacted) ∨
      ∃ msg reply, t'.client = .replied msg reply ∧ .answered msg reply ∈ es := by
  cases h with
  | submit hclient => exact Or.inr (Or.inr (Or.inl ⟨_, hclient, rfl⟩))
  | quit => exact Or.inr (Or.inl rfl)
  | contact hclient _ hmsg => exact Or.inr (Or.inr (Or.inr (Or.inl ⟨_, _, hclient, hmsg, rfl⟩)))
  | served => exact Or.inr (Or.inl rfl)
  | answer => cases hc : t.client <;> simp [ClientThread.hear]
  | _ => exact Or.inl rfl

/-- The operation of the request fits what the handler does for it. -/
theorem fits (h : Transition net r sh t a sh' t' es) (hfits : t.nm.Fits) : t'.nm.Fits := by
  cases h <;> simp_all [NmThread.Fits, Job.Fits, Threads.answer]

/-- A handler keeps its request. -/
theorem request_cases (h : Transition net r sh t a sh' t' es) :
    t'.nm.request = t.nm.request ∨ t'.nm.request = none ∨
      ∃ msg, t'.nm.request = some msg ∧ msg.Sendable := by
  cases h with
  | refuse hnm => exact Or.inl (NmThread.request_of_refusable hnm).symm
  | submit hclient hmsg => exact Or.inr (Or.inr ⟨_, rfl, hmsg⟩)
  | _ => simp_all [NmThread.request, Threads.answer, Job.msg]

theorem nm_finished (h : Transition net r sh t a sh' t' es) (hclient : t.client ≠ .idle)
    (hnm : t.nm = .finished) : t'.nm = .finished := by
  cases h <;> simp_all [NmThread.refusable]

theorem unforwarded (h : Transition net r sh t a sh' t' es) (hclient : t.client ≠ .idle)
    (hnm : t'.nm.Unforwarded) : t.nm.Unforwarded := by
  cases h <;> simp_all [NmThread.Unforwarded, Threads.answer]

theorem unforwarded_ss (h : Transition net r sh t a sh' t' es) (hnm : t'.nm.Unforwarded)
    (hss : t.ssNm = .idle ∧ t.ssClient = .idle)
    (hreplied : ∀ msg reply, t.client = .replied msg reply → t.nm = .finished) :
    t'.ssNm = .idle ∧ t'.ssClient = .idle := by
  cases h <;> simp_all [NmThread.Unforwarded, Threads.answer]

theorem ssNm_busy (h : Transition net r sh t a sh' t' es) (hss : t'.ssNm.Busy) :
    t.ssNm.Busy ∨ ∃ job, t'.nm = .awaiting job := by
  cases h with
  | ssRefuse hss' => rcases hss' with ⟨hss', -⟩ | ⟨_, hss'⟩ <;> simp [SsNmThread.Busy, hss']
  | _ => simp_all [SsNmThread.Busy, Threads.answer]

theorem awaiting (h : Transition net r sh t a sh' t' es) (hclient : t.client ≠ .idle) {job : Job}
    (hnm : t.nm = .awaiting job) (hss : t'.ssNm.Busy) :
    t'.nm = .awaiting job ∨ .lostReply ∈ es := by
  cases h <;> simp_all [SsNmThread.Busy, Threads.answer, NmThread.refusable]

theorem ssClient_busy (h : Transition net r sh t a sh' t' es) (hss : t'.ssClient.Busy) :
    t.ssClient.Busy ∨ (∃ msg reply, t.client = .replied msg reply ∧ msg.IsLookup) ∨
      ∃ s msg bytes, t'.ssNm = .copyAwaiting s msg bytes := by
  cases h <;> simp_all [SsClientThread.Busy, Threads.answer]

theorem copyAwaiting (h : Transition net r sh t a sh' t' es) {s : Server} {bytes : List UInt8}
    (hnm : ¬ t.nm.Unforwarded) (hss : t.ssNm = .copyAwaiting s msg bytes)
    (hdest : t'.ssClient.Busy) :
    t'.ssNm = .copyAwaiting s msg bytes ∨ .lostReply ∈ es := by
  cases h <;> simp_all [SsClientThread.Busy, Threads.answer, NmThread.Unforwarded]

/-- Where the positive replies to an update come from. -/
theorem positive_cases {reply : Message} (h : Transition net r sh t a sh' t' es)
    (hfits : t.nm.Fits) (hupdate : msg.IsUpdate) (hnm : t'.nm = .answering msg reply)
    (hack : reply.Succeeded) :
    t.nm = .answering msg reply ∨
      (∃ slot, t.nm = .concluding (.create msg slot) ∧
        es = [.inserted .createFile msg.path.str]) ∨
      (∃ slot, t.nm = .deleteDropped msg slot ∧ es = [.invalidated msg.path.str]) ∨
      ∃ source dest isNew, t.nm = .concluding (.copy msg source dest isNew) := by
  have hlookup : ¬ msg.IsLookup := hupdate.not_isLookup
  cases h with
  | refuse | lookupFailed | failed | lostResponse =>
      obtain ⟨-, rfl⟩ := NmThread.answering.inj hnm
      exact absurd hack (Message.nack_not_succeeded _)
  | list hold hop | registerEnd hold =>
      obtain ⟨rfl, -⟩ := NmThread.answering.inj hnm
      simp_all [NmThread.Fits, Message.IsUpdate]
  | hit _ hop =>
      obtain ⟨rfl, -⟩ := NmThread.answering.inj hnm
      exact absurd hop hlookup
  | fill hold =>
      obtain ⟨rfl, -⟩ := NmThread.answering.inj hnm
      rw [hold] at hfits
      exact absurd hfits hlookup
  | recordCreate | recordCopy | keepCopy | forget =>
      obtain ⟨rfl, -⟩ := NmThread.answering.inj hnm
      simp_all
  | submit | receive | registerStart | registerPath | checkCreate | pickCreate | findDelete
    | findSource | findTarget | noTarget | pickTarget | miss | lookupFind | forward | succeeded
    | drop | answer | lostRequest => cases hnm
  | _ => exact Or.inl hnm

/-- A lookup of a path that is neither in the cache nor in the trie goes on to a negative reply. -/
theorem lookup_absent (h : Transition net r sh t a sh' t' es) (hclient : t.client ≠ .idle)
    (hmsg : msg.IsLookup) (hcache : sh.nm.pathLruCache msg.path.str = none)
    (hsearch : sh.nm.search msg.path.str = none) (hnm : t.nm.Misses msg) : t'.nm.Misses msg := by
  cases h with
  | refuse href hlookup =>
      cases hold : t.nm <;> simp_all [NmThread.Misses, NmThread.refusable]
  | registerStart hold hop | list hold hop | checkCreate hold hop | findDelete hold hop
    | findSource hold hop =>
      rw [hold] at hnm
      obtain rfl : _ = msg := hnm
      simp [Message.IsLookup, hop] at hmsg
  | hit hold _ hfound =>
      rw [hold] at hnm
      obtain rfl : _ = msg := hnm
      rw [hcache] at hfound
      cases hfound
  | lookupFind hold hfound =>
      rw [hold] at hnm
      obtain rfl : _ = msg := hnm
      rw [hsearch] at hfound
      cases hfound
  | _ => simp_all [NmThread.Misses, Threads.answer]

theorem of_deleteDropped {slot : Slot} (h : Transition net r sh t a sh' t' es)
    (hnm : t'.nm = .deleteDropped msg slot) :
    (t.nm = .deleteDropped msg slot ∧ ∀ q, sh'.nm.search q = sh.nm.search q) ∨
      sh'.nm.search msg.path.str = none := by
  cases h with
  | drop =>
      obtain ⟨rfl, -⟩ := NmThread.deleteDropped.inj hnm
      simp
  | _ => simp_all [Threads.answer]

theorem of_handling (h : Transition net r sh t a sh' t' es) (hmem : .handling msg ∈ es) :
    t.nm = .incoming msg ∧ t'.nm = .received msg ∧ es = [.handling msg] := by
  cases h with
  | receive hnm =>
      obtain rfl : msg = _ := by simpa using hmem
      exact ⟨hnm, rfl, rfl⟩
  | refuse _ _ hes => rcases hes with rfl | ⟨_, _, rfl⟩ <;> simp at hmem
  | serve _ _ hes => rcases hes with rfl | ⟨_, _, _, rfl⟩ <;> simp at hmem
  | _ => simp at hmem

/-! ### The naming server's state -/

theorem mutex_cases (h : Transition net r sh t a sh' t' es) :
    (sh'.ssListMutex = sh.ssListMutex ∧ (t'.nm.Locked → t.nm.Locked)) ∨
      (sh.ssListMutex = none ∧ sh'.ssListMutex = some r) ∨
      (t.nm.Locked ∧ sh'.ssListMutex = none ∧ ¬ t'.nm.Locked) := by
  cases h <;> simp_all [NmThread.Locked, Threads.answer]

/-- The trie changes with the events that say so, under the mutex. -/
theorem trie_cases (h : Transition net r sh t a sh' t' es) :
    ((∀ q, sh'.nm.search q = sh.nm.search q) ∧
        (∀ o path, .inserted o path ∉ es) ∧ ∀ path, .erased path ∉ es) ∨
      (sh.ssListMutex = none ∨ t.nm.Locked) ∧
        ((∃ o path slot, es = [.inserted o path] ∧ slot ∈ t.nm.slots ∧
            ∀ q, sh'.nm.search q = if q = path then some slot else sh.nm.search q) ∨
          ∃ path, es = [.erased path] ∧
            ∀ q, sh'.nm.search q = if q = path then none else sh.nm.search q) := by
  cases h with
  | registerPath hnm hk =>
      exact Or.inr ⟨Or.inr (by simp [hnm, NmThread.Locked]), Or.inl ⟨_, _, _, rfl,
        by simp [hnm, NmThread.slots], fun q => NamingServer.search_registerPath _ q _ _ _⟩⟩
  | recordCreate hnm hmutex =>
      exact Or.inr ⟨Or.inl hmutex, Or.inl ⟨_, _, _, rfl,
        by simp [hnm, NmThread.slots, Job.slots], fun q => NamingServer.search_recordPath _ _ q _⟩⟩
  | recordCopy hnm hmutex =>
      exact Or.inr ⟨Or.inl hmutex, Or.inl ⟨_, _, _, rfl,
        by simp [hnm, NmThread.slots, Job.slots], fun q => NamingServer.search_recordPath _ _ q _⟩⟩
  | drop hnm hmutex =>
      exact Or.inr ⟨Or.inl hmutex, Or.inr ⟨_, rfl, fun q => NamingServer.search_dropPath _ _ q⟩⟩
  | refuse _ _ hes =>
      rcases hes with rfl | ⟨_, _, rfl⟩ <;> exact Or.inl ⟨fun _ => rfl, by simp, by simp⟩
  | serve _ _ hes =>
      rcases hes with rfl | ⟨_, _, _, rfl⟩ <;> exact Or.inl ⟨fun _ => rfl, by simp, by simp⟩
  | registerStart _ _ _ _ hstore =>
      exact Or.inl ⟨(NamingServer.storeSs_frame hstore).1, by simp, by simp⟩
  | pickCreate _ _ hpick =>
      exact Or.inl ⟨(NamingServer.getAvailableSsForCreation_frame hpick).1, by simp, by simp⟩
  | pickTarget _ _ hpick =>
      exact Or.inl ⟨(NamingServer.getAvailableSsForCreation_frame hpick).1, by simp, by simp⟩
  | _ => exact Or.inl ⟨fun _ => rfl, by simp, by simp⟩

theorem of_inserted_createFile {path : Path} (h : Transition net r sh t a sh' t' es)
    (hmem : .inserted .createFile path ∈ es) :
    a = .nm ∧ ∃ msg slot, t.nm = .concluding (.create msg slot) ∧ msg.path.str = path := by
  cases h with
  | recordCreate hnm =>
      obtain rfl : path = _ := by simpa using hmem
      exact ⟨rfl, _, _, hnm, rfl⟩
  | refuse _ _ hes => rcases hes with rfl | ⟨_, _, rfl⟩ <;> simp at hmem
  | serve _ _ hes => rcases hes with rfl | ⟨_, _, _, rfl⟩ <;> simp at hmem
  | _ => simp at hmem

theorem cache_cases (h : Transition net r sh t a sh' t' es) :
    (sh'.nm.pathLruCache = sh.nm.pathLruCache ∧ ∀ path, .invalidated path ∉ es) ∨
      (∃ msg slot, a = .nm ∧ t.nm = .lookupFound msg slot ∧ es = [] ∧
        sh'.nm.pathLruCache = Function.update sh.nm.pathLruCache msg.path.str
          (some (sh.nm.registeredSs slot))) ∨
      ∃ msg slot, t.nm = .deleteDropped msg slot ∧ es = [.invalidated msg.path.str] ∧
        sh'.nm.pathLruCache = Function.update sh.nm.pathLruCache msg.path.str none := by
  cases h with
  | fill hnm => exact Or.inr (Or.inl ⟨_, _, rfl, hnm, rfl, rfl⟩)
  | forget hnm => exact Or.inr (Or.inr ⟨_, _, hnm, rfl, rfl⟩)
  | refuse _ _ hes => rcases hes with rfl | ⟨_, _, rfl⟩ <;> exact Or.inl ⟨rfl, by simp⟩
  | serve _ _ hes => rcases hes with rfl | ⟨_, _, _, rfl⟩ <;> exact Or.inl ⟨rfl, by simp⟩
  | registerStart _ _ _ _ hstore =>
      obtain ⟨-, -, -, hcache⟩ := NamingServer.storeSs_frame hstore
      exact Or.inl ⟨hcache, by simp⟩
  | pickCreate _ _ hpick =>
      obtain ⟨-, -, -, hcache⟩ := NamingServer.getAvailableSsForCreation_frame hpick
      exact Or.inl ⟨hcache, by simp⟩
  | pickTarget _ _ hpick =>
      obtain ⟨-, -, -, hcache⟩ := NamingServer.getAvailableSsForCreation_frame hpick
      exact Or.inl ⟨hcache, by simp⟩
  | _ => exact Or.inl ⟨rfl, by simp⟩

/-- A registration takes the next slot and counts it at the end; no other step touches the
addresses and the number of servers. -/
theorem registry_cases (h : Transition net r sh t a sh' t' es)
    (hidle : t.client = .idle → t = .start) :
    ((∀ j, sh'.nm.address j = sh.nm.address j) ∧
        sh'.nm.numRegisteredSs = sh.nm.numRegisteredSs ∧
        ∀ slot, (∃ msg i, t'.nm = .registering msg slot i) ↔
          ∃ msg i, t.nm = .registering msg slot i) ∨
      (∃ msg slot, t.nm = .received msg ∧ msg.operation = .registerSs ∧
        t'.nm = .registering msg slot 0 ∧ sh.ssListMutex = none ∧
        slot.val = sh.nm.numRegisteredSs.val ∧
        sh'.nm.address slot = (msg.ssIp.str, msg.ssNmPort, msg.ssClientPort) ∧
        (∀ j, j ≠ slot → sh'.nm.address j = sh.nm.address j) ∧
        sh'.nm.numRegisteredSs = sh.nm.numRegisteredSs) ∨
      ∃ msg slot i, t.nm = .registering msg slot i ∧
        (∀ j, sh'.nm.address j = sh.nm.address j) ∧
        sh'.nm.numRegisteredSs.val = slot.val + 1 ∧
        ∀ msg slot i, t'.nm ≠ .registering msg slot i := by
  cases h with
  | registerStart hnm hop hmutex hslot hstore =>
      obtain ⟨haddress, -, hother⟩ := NamingServer.storeSs_eq_some hstore
      exact Or.inr (Or.inl ⟨_, _, hnm, hop, rfl, hmutex, NamingServer.nextSlot_eq_some hslot,
        haddress, fun j hj => congrArg StorageServerInfo.address (hother j hj),
        (NamingServer.storeSs_frame hstore).2.1⟩)
  | registerEnd hnm =>
      exact Or.inr (Or.inr ⟨_, _, _, hnm, fun _ => rfl, rfl, by simp [Threads.answer]⟩)
  | registerPath hnm =>
      exact Or.inl ⟨fun j => NamingServer.address_registerPath _ _ _ _ _, rfl, by simp [hnm]⟩
  | recordCreate hnm =>
      exact Or.inl ⟨fun j => NamingServer.address_recordPath _ _ _ _, rfl,
        by simp [hnm, Threads.answer]⟩
  | recordCopy hnm =>
      exact Or.inl ⟨fun j => NamingServer.address_recordPath _ _ _ _, rfl,
        by simp [hnm, Threads.answer]⟩
  | forget hnm =>
      exact Or.inl ⟨fun j => NamingServer.address_forgetPath _ _ _ _ _, rfl,
        by simp [hnm, Threads.answer]⟩
  | pickCreate hnm _ hpick =>
      obtain ⟨-, haddress, hnum, -⟩ := NamingServer.getAvailableSsForCreation_frame hpick
      exact Or.inl ⟨haddress, hnum, by simp [hnm]⟩
  | pickTarget hnm _ hpick =>
      obtain ⟨-, haddress, hnum, -⟩ := NamingServer.getAvailableSsForCreation_frame hpick
      exact Or.inl ⟨haddress, hnum, by simp [hnm]⟩
  | refuse hnm =>
      refine Or.inl ⟨fun _ => rfl, rfl, fun slot => ?_⟩
      constructor
      · simp [Threads.answer]
      · rintro ⟨msg, i, hreg⟩
        simp [hreg, NmThread.refusable] at hnm
  | submit hclient =>
      exact Or.inl ⟨fun _ => rfl, rfl, by simp [hidle hclient, Threads.start]⟩
  | _ => exact Or.inl ⟨fun _ => rfl, rfl, by simp_all [Threads.answer]⟩

/-- The pointers of a handler come from the trie, the round-robin choice or the registration. -/
theorem slots_cases (h : Transition net r sh t a sh' t' es) {slot : Slot}
    (hslot : slot ∈ t'.nm.slots) :
    slot ∈ t.nm.slots ∨ (∃ q, sh.nm.search q = some slot) ∨
      (slot = sh.nm.currentSsIndex ∧ 0 < sh.nm.numRegisteredSs.val) ∨
      ∃ msg i, t'.nm = .registering msg slot i := by
  cases h with
  | pickCreate hnm _ hpick =>
      obtain ⟨hpos, hcursor, -⟩ := NamingServer.getAvailableSsForCreation_eq_some hpick
      simp only [NmThread.slots, Job.slots, List.mem_singleton] at hslot
      exact Or.inr (Or.inr (Or.inl ⟨hslot.trans hcursor, hpos⟩))
  | pickTarget hnm _ hpick =>
      obtain ⟨hpos, hcursor, -⟩ := NamingServer.getAvailableSsForCreation_eq_some hpick
      simp only [NmThread.slots, Job.slots, List.mem_cons, List.not_mem_nil, or_false] at hslot
      rcases hslot with hsource | hdest
      · exact Or.inl (by simp [hnm, NmThread.slots, hsource])
      · exact Or.inr (Or.inr (Or.inl ⟨hdest.trans hcursor, hpos⟩))
  | findDelete hnm _ hsearch =>
      simp only [NmThread.slots, Job.slots, List.mem_singleton] at hslot
      exact Or.inr (Or.inl ⟨_, hslot ▸ hsearch⟩)
  | findSource hnm _ hsearch =>
      simp only [NmThread.slots, List.mem_singleton] at hslot
      exact Or.inr (Or.inl ⟨_, hslot ▸ hsearch⟩)
  | findTarget hnm hsearch =>
      simp only [NmThread.slots, Job.slots, List.mem_cons, List.not_mem_nil, or_false] at hslot
      rcases hslot with hsource | hdest
      · exact Or.inl (by simp [hnm, NmThread.slots, hsource])
      · exact Or.inr (Or.inl ⟨_, hdest ▸ hsearch⟩)
  | lookupFind hnm hsearch =>
      simp only [NmThread.slots, List.mem_singleton] at hslot
      exact Or.inr (Or.inl ⟨_, hslot ▸ hsearch⟩)
  | _ => simp_all [NmThread.slots, Threads.answer, Job.slots]

theorem cursor_cases (h : Transition net r sh t a sh' t' es) :
    sh'.nm.currentSsIndex = sh.nm.currentSsIndex ∨
      sh'.nm.currentSsIndex.val < sh.nm.numRegisteredSs.val := by
  cases h with
  | registerStart _ _ _ _ hstore =>
      exact Or.inl (NamingServer.storeSs_frame hstore).2.2.1
  | pickCreate _ _ hpick =>
      obtain ⟨hpos, -, hcursor, -⟩ := NamingServer.getAvailableSsForCreation_eq_some hpick
      exact Or.inr (hcursor ▸ Nat.mod_lt _ hpos)
  | pickTarget _ _ hpick =>
      obtain ⟨hpos, -, hcursor, -⟩ := NamingServer.getAvailableSsForCreation_eq_some hpick
      exact Or.inr (hcursor ▸ Nat.mod_lt _ hpos)
  | _ => exact Or.inl rfl

/-! ### The disks -/

/-- Disks change with the events that say so. -/
theorem disks_cases (h : Transition net r sh t a sh' t' es) (s : Server) (path : Path) :
    sh'.disks s path = sh.disks s path ∨ ∃ e ∈ es, e.Changes s path := by
  have hother : ∀ s₀ disk path₀, (∀ q, q ≠ path₀ → disk q = sh.disks s₀ q) →
      Function.update sh.disks s₀ disk s path = sh.disks s path ∨ s₀ = s ∧ path₀ = path := by
    intro s₀ disk path₀ hdisk
    by_cases hs : s₀ = s
    · subst hs
      by_cases hpath : path₀ = path
      · exact Or.inr ⟨rfl, hpath⟩
      · rw [Function.update_self]
        exact Or.inl (hdisk path (Ne.symm hpath))
    · exact Or.inl (by rw [Function.update_of_ne (Ne.symm hs)])
  have hsame : ∀ s₀, Function.update sh.disks s₀ (sh.disks s₀) s path = sh.disks s path := by
    simp
  cases h with
  | @ssCreate os s₀ m code disk hss hop hdisk =>
      rcases Disk.createFile_cases (sh.disks s₀) os m with ⟨code', -, heq⟩ | ⟨disk', heq, hw⟩ <;>
        obtain ⟨rfl, rfl⟩ := Prod.mk.inj (hdisk.symm.trans heq)
      · exact Or.inl (hsame s₀)
      · refine (hother s₀ _ m.path.str hw.2).imp_right fun ⟨hs, hpath⟩ => ?_
        exact ⟨_, List.mem_singleton.mpr rfl, hs, hpath, rfl⟩
  | @ssDelete os s₀ m code disk hss hop hdisk =>
      rcases Disk.deleteFile_cases (sh.disks s₀) os m with ⟨code', -, heq⟩ | ⟨-, heq⟩ <;>
        obtain ⟨rfl, rfl⟩ := Prod.mk.inj (hdisk.symm.trans heq)
      · exact Or.inl (hsame s₀)
      · refine (hother s₀ _ m.path.str fun q hq => Function.update_of_ne hq _ _).imp_right
          fun ⟨hs, hpath⟩ => ?_
        exact ⟨_, List.mem_singleton.mpr rfl, hs, hpath, rfl⟩
  | @ssWrite os s₀ m code disk hss hop hdisk =>
      rcases Disk.writeFile_cases (sh.disks s₀) os m with ⟨code', -, -, heq⟩ |
        ⟨code', disk', heq, hcode, hw⟩ <;>
        obtain ⟨rfl, rfl⟩ := Prod.mk.inj (hdisk.symm.trans heq)
      · exact Or.inl (hsame s₀)
      · refine (hother s₀ _ m.path.str hw.2).imp_right fun ⟨hs, hpath⟩ => ?_
        exact ⟨_, List.mem_singleton.mpr rfl, hs, hpath, hcode⟩
  | _ => exact Or.inl rfl

theorem request_kept (h : Transition net r sh t a sh' t' es) (hclient : t.client ≠ .idle) :
    t'.nm.request = t.nm.request ∨ t'.nm = .finished := by
  cases h with
  | refuse hnm => exact Or.inl (NmThread.request_of_refusable hnm).symm
  | _ => simp_all [NmThread.request, Threads.answer, Job.msg]

/-- Where the message of the NM handler comes from. -/
theorem incoming_cases (h : Transition net r sh t a sh' t' es) {s : Server}
    (hss : t'.ssNm = .incoming s msg) :
    t.ssNm = .incoming s msg ∨ ∃ job, t.nm = .connecting job ∧ msg = job.request sh.nm := by
  cases h <;> simp_all [Threads.answer]

/-- Where the message of the client handler comes from. -/
theorem ssClient_cases (h : Transition net r sh t a sh' t' es) {s : Server}
    (hss : t'.ssClient = .incoming s msg) :
    t.ssClient = .incoming s msg ∨ (∃ reply, t.client = .replied msg reply ∧ msg.IsLookup) ∨
      ∃ s m bytes, t.ssNm = .copyRead s m bytes ∧ msg = .writeRequest m bytes := by
  cases h <;> simp_all [Threads.answer]

end Transition
end NetworkFileSystem
