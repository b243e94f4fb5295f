import NetworkFileSystem.System

/-!
# What a step can do

`Transition` lists the steps of a request, each with its guard and its effect. Steps that only
settle on an error share a constructor. Invariants are proved by cases on it.
-/

namespace NetworkFileSystem

/-- The request of a handler that may still settle on an error of its own. -/
def NmThread.refusable : NmThread → Option Message
  | received msg | createChecked msg | copyUnplaced msg _ => some msg
  | connecting job => some job.msg
  | _ => none

inductive Transition (net : Network) (r : ℕ) (sh : Shared) (t : Threads) :
    Action → Shared → Threads → List Event → Prop
  -- the client
  | submit {msg} (hclient : t.client = .idle) (hmsg : msg.Sendable) :
    Transition net r sh t (.submit msg) sh { t with client := .asked msg, nm := .incoming msg } []
  | quit {a} (hclient : t.client ≠ .idle) :
    Transition net r sh t a sh { t with client := .finished } []
  | contact {msg reply s} (hclient : t.client = .replied msg reply) (hreply : reply.Succeeded)
    (hmsg : msg.IsLookup)
    (hs : net.clientListener reply.ssIp.str reply.ssClientPort = some s) :
    Transition net r sh t .client sh
      { t with client := .contacted, ssClient := .incoming s msg } []
  | served {s response} (hclient : t.client = .contacted)
    (hss : t.ssClient = .answering s response) :
    Transition net r sh t .client sh { t with client := .finished, ssClient := .finished } []
  -- the handler of the naming server
  | receive {msg} (hnm : t.nm = .incoming msg) :
    Transition net r sh t .nm sh { t with nm := .received msg } [.handling msg]
  | lostRequest {msg} (hnm : t.nm = .incoming msg) :
    Transition net r sh t (.nmFail .receive) sh { t with nm := .finished } []
  | refuse {a msg code es} (hnm : t.nm.refusable = some msg)
    (hlookup : t.nm = .received msg → ¬ msg.IsLookup)
    (hes : es = [] ∨ ∃ path found, es = [.searched path found]) :
    Transition net r sh t a sh (t.answer msg (.nack code)) es
  | list {msg paths} (hnm : t.nm = .received msg) (hop : msg.operation = .listPaths) :
    Transition net r sh t .nm sh (t.answer msg (.pathList paths)) []
  | registerStart {msg slot nm} (hnm : t.nm = .received msg) (hop : msg.operation = .registerSs)
    (hmutex : sh.ssListMutex = none) (hslot : sh.nm.nextSlot = some slot)
    (hstore : sh.nm.storeSs msg slot = some nm) :
    Transition net r sh t .nm { sh with nm := nm, ssListMutex := some r }
      { t with nm := .registering msg slot 0 } []
  | registerPath {msg slot i k} (hnm : t.nm = .registering msg slot i)
    (hk : (NamingServer.pathIndices msg)[i]? = some k) :
    Transition net r sh t .nm { sh with nm := sh.nm.registerPath msg slot k }
      { t with nm := .registering msg slot (i + 1) }
      [.inserted .registerSs (msg.accessiblePaths.get k).str]
  | registerEnd {msg slot i} (hnm : t.nm = .registering msg slot i) :
    Transition net r sh t .nm { sh with nm := sh.nm.countSs slot, ssListMutex := none }
      (t.answer msg .ack) []
  | checkCreate {msg} (hnm : t.nm = .received msg) (hop : msg.operation = .createFile)
    (hsearch : sh.nm.search msg.path.str = none) :
    Transition net r sh t .nm sh { t with nm := .createChecked msg }
      [.searched msg.path.str none]
  | pickCreate {msg slot nm} (hnm : t.nm = .createChecked msg) (hmutex : sh.ssListMutex = none)
    (hpick : sh.nm.getAvailableSsForCreation = some (slot, nm)) :
    Transition net r sh t .nm { sh with nm := nm }
      { t with nm := .connecting (.create msg slot) } [.picked slot]
  | findDelete {msg slot} (hnm : t.nm = .received msg) (hop : msg.operation = .deleteFile)
    (hsearch : sh.nm.search msg.path.str = some slot) :
    Transition net r sh t .nm sh { t with nm := .connecting (.delete msg slot) }
      [.searched msg.path.str (some slot)]
  | findSource {msg slot} (hnm : t.nm = .received msg) (hop : msg.operation = .copyFile)
    (hsearch : sh.nm.search msg.path.str = some slot) :
    Transition net r sh t .nm sh { t with nm := .copyFound msg slot }
      [.searched msg.path.str (some slot)]
  | findTarget {msg source dest} (hnm : t.nm = .copyFound msg source)
    (hsearch : sh.nm.search msg.path2.str = some dest) :
    Transition net r sh t .nm sh { t with nm := .connecting (.copy msg source dest false) }
      [.searched msg.path2.str (some dest)]
  | noTarget {msg source} (hnm : t.nm = .copyFound msg source)
    (hsearch : sh.nm.search msg.path2.str = none) :
    Transition net r sh t .nm sh { t with nm := .copyUnplaced msg source }
      [.searched msg.path2.str none]
  | pickTarget {msg source dest nm} (hnm : t.nm = .copyUnplaced msg source)
    (hmutex : sh.ssListMutex = none)
    (hpick : sh.nm.getAvailableSsForCreation = some (dest, nm)) :
    Transition net r sh t .nm { sh with nm := nm }
      { t with nm := .connecting (.copy msg source dest true) } [.picked dest]
  | hit {msg info} (hnm : t.nm = .received msg) (hmsg : msg.IsLookup)
    (hcache : sh.nm.pathLruCache msg.path.str = some info) :
    Transition net r sh t .nm sh (t.answer msg (.located info)) []
  | miss {msg} (hnm : t.nm = .received msg) (hmsg : msg.IsLookup)
    (hcache : sh.nm.pathLruCache msg.path.str = none) :
    Transition net r sh t .nm sh { t with nm := .lookupMissed msg } []
  | lookupFailed {msg} (hnm : t.nm = .lookupMissed msg)
    (hsearch : sh.nm.search msg.path.str = none) :
    Transition net r sh t .nm sh (t.answer msg (.nack .fileNotFound))
      [.searched msg.path.str none]
  | lookupFind {msg slot} (hnm : t.nm = .lookupMissed msg)
    (hsearch : sh.nm.search msg.path.str = some slot) :
    Transition net r sh t .nm sh { t with nm := .lookupFound msg slot }
      [.searched msg.path.str (some slot)]
  | fill {msg slot} (hnm : t.nm = .lookupFound msg slot) :
    Transition net r sh t .nm
      { sh with nm := { sh.nm with
          pathLruCache := Function.update sh.nm.pathLruCache msg.path.str
            (some (sh.nm.registeredSs slot)) } }
      (t.answer msg (.located (sh.nm.registeredSs slot))) []
  | forward {job s} (hnm : t.nm = .connecting job)
    (hs : net.nmListener (sh.nm.registeredSs job.target).ip
      (sh.nm.registeredSs job.target).nmPort = some s) :
    Transition net r sh t .nm sh
      { t with nm := .awaiting job, ssNm := .incoming s (job.request sh.nm) } []
  | failed {job s response} (hnm : t.nm = .awaiting job)
    (hss : t.ssNm = .answering s response) (hresponse : ¬ response.Succeeded) :
    Transition net r sh t .nm sh
      { t with nm := .answering job.msg (.nack response.errorCode), ssNm := .finished } []
  | succeeded {job s response} (hnm : t.nm = .awaiting job)
    (hss : t.ssNm = .answering s response) (hresponse : response.Succeeded) :
    Transition net r sh t .nm sh { t with nm := .concluding job, ssNm := .finished } []
  | lostResponse {job} (hnm : t.nm = .awaiting job) :
    Transition net r sh t (.nmFail .receive) sh (t.answer job.msg (.nack .networkError))
      [.lostReply]
  | recordCreate {msg slot} (hnm : t.nm = .concluding (.create msg slot))
    (hmutex : sh.ssListMutex = none) :
    Transition net r sh t .nm { sh with nm := sh.nm.recordPath msg.path.str slot }
      (t.answer msg .ack) [.inserted .createFile msg.path.str]
  | recordCopy {msg source dest} (hnm : t.nm = .concluding (.copy msg source dest true))
    (hmutex : sh.ssListMutex = none) :
    Transition net r sh t .nm { sh with nm := sh.nm.recordPath msg.path2.str dest }
      (t.answer msg .ack) [.inserted .copyFile msg.path2.str]
  | keepCopy {msg source dest} (hnm : t.nm = .concluding (.copy msg source dest false)) :
    Transition net r sh t .nm sh (t.answer msg .ack) []
  | drop {msg slot} (hnm : t.nm = .concluding (.delete msg slot))
    (hmutex : sh.ssListMutex = none) :
    Transition net r sh t .nm
      { sh with nm := sh.nm.dropPath msg.path.str, ssListMutex := some r }
      { t with nm := .deleteDropped msg slot } [.erased msg.path.str]
  | forget {msg slot} (hnm : t.nm = .deleteDropped msg slot) :
    Transition net r sh t .nm
      { sh with
        nm := sh.nm.forgetPath msg.path.str slot
          (Function.update sh.nm.pathLruCache msg.path.str none)
        ssListMutex := none }
      (t.answer msg .ack) [.invalidated msg.path.str]
  | answer {msg reply} (hnm : t.nm = .answering msg reply) :
    Transition net r sh t .nm sh { t with nm := .finished, client := t.client.hear msg reply }
      [.answered msg reply]
  -- the NM handler of a storage server
  | ssCreate {os s msg code disk} (hss : t.ssNm = .incoming s msg)
    (hop : msg.operation = .createFile)
    (hdisk : (sh.disks s).createFile os msg = (code, disk)) :
    Transition net r sh t (.ssNm os) { sh with disks := Function.update sh.disks s disk }
      { t with ssNm := .answering s (.result code) }
      [.executed s (.create msg.path.str msg.fileType) os code]
  | ssDelete {os s msg code disk} (hss : t.ssNm = .incoming s msg)
    (hop : msg.operation = .deleteFile)
    (hdisk : (sh.disks s).deleteFile os msg = (code, disk)) :
    Transition net r sh t (.ssNm os) { sh with disks := Function.update sh.disks s disk }
      { t with ssNm := .answering s (.result code) }
      [.executed s (.delete msg.path.str) os code]
  | ssRead {os s msg bytes} (hss : t.ssNm = .incoming s msg) (hop : msg.operation = .copyFile)
    (hdisk : (sh.disks s).readFile os msg = (.success, bytes)) :
    Transition net r sh t (.ssNm os) sh { t with ssNm := .copyRead s msg bytes }
      [.executed s (.read msg.path.str bytes) os .success]
  | ssReadFailed {os s msg code bytes} (hss : t.ssNm = .incoming s msg)
    (hop : msg.operation = .copyFile)
    (hdisk : (sh.disks s).readFile os msg = (code, bytes)) (hcode : code ≠ .success) :
    Transition net r sh t (.ssNm os) sh { t with ssNm := .answering s (.nack code) }
      [.executed s (.read msg.path.str bytes) os code]
  | ssRefuse {a s msg code}
    (hss : t.ssNm = .incoming s msg ∧ msg.operation ≠ .createFile ∧
        msg.operation ≠ .deleteFile ∧ msg.operation ≠ .copyFile ∨
      ∃ bytes, t.ssNm = .copyRead s msg bytes) :
    Transition net r sh t a sh { t with ssNm := .answering s (.nack code) } []
  | ssLost {s msg} (hss : t.ssNm = .incoming s msg) :
    Transition net r sh t (.ssNmFail .receive) sh { t with ssNm := .finished } []
  | relay {os s msg bytes dest} (hss : t.ssNm = .copyRead s msg bytes)
    (hdest : net.clientListener msg.destSsIp.str msg.destSsClientPort = some dest) :
    Transition net r sh t (.ssNm os) sh
      { t with
        ssNm := .copyAwaiting s msg bytes, ssClient := .incoming dest (.writeRequest msg bytes) }
      []
  | relayed {os s msg bytes dest response} (hss : t.ssNm = .copyAwaiting s msg bytes)
    (hdest : t.ssClient = .answering dest response) :
    Transition net r sh t (.ssNm os) sh
      { t with
        ssNm := .answering s
          (if response.Succeeded then .ack else .nack response.errorCode)
        ssClient := .finished } []
  | ssLostResponse {s msg bytes} (hss : t.ssNm = .copyAwaiting s msg bytes) :
    Transition net r sh t (.ssNmFail .receive) sh
      { t with ssNm := .answering s (.nack .networkError) } [.lostReply]
  -- the client handler of a storage server
  | serve {os s msg response es} (hss : t.ssClient = .incoming s msg)
    (hop : msg.operation ≠ .writeFile)
    (hes : es = [] ∨ ∃ path bytes code, es = [.executed s (.read path bytes) os code]) :
    Transition net r sh t (.ssClient os) sh { t with ssClient := .answering s response } es
  | ssWrite {os s msg code disk} (hss : t.ssClient = .incoming s msg)
    (hop : msg.operation = .writeFile)
    (hdisk : (sh.disks s).writeFile os msg = (code, disk)) :
    Transition net r sh t (.ssClient os) { sh with disks := Function.update sh.disks s disk }
      { t with ssClient := .answering s (.result code) }
      [.executed s (.write msg.path.str msg.payload) os code]
  | ssClientLost {s msg} (hss : t.ssClient = .incoming s msg) :
    Transition net r sh t .ssClientFail sh { t with ssClient := .finished } []

namespace Transition

variable {net : Network} {r : ℕ} {sh : Shared} {t : Threads} {x : Shared × Threads × List Event}
  {msg : Message}

theorem of_dispatch (hnm : t.nm = .received msg) (h : dispatch r sh t msg = some x) :
    Transition net r sh t .nm x.1 x.2.1 x.2.2 := by
  have hrefuse : ∀ code es, ¬ msg.IsLookup → (es = [] ∨ ∃ path found, es = [.searched path found]) →
      Transition net r sh t .nm sh (t.answer msg (.nack code)) es := fun code es hl hes =>
    .refuse (by rw [hnm]; rfl) (fun _ => hl) hes
  rw [dispatch] at h
  split at h
  · next hop =>
      have hl : ¬ msg.IsLookup := by simp [Message.IsLookup, hop]
      split_ifs at h with hmutex
      split at h
      · obtain rfl := Option.some.inj h
        exact hrefuse _ _ hl (by simp)
      · next slot hslot =>
          obtain ⟨nm, hstore, rfl⟩ := Option.map_eq_some_iff.mp h
          exact .registerStart hnm hop hmutex hslot hstore
  · next hop =>
      obtain rfl := Option.some.inj h
      exact .list hnm hop
  · next hop =>
      have hl : ¬ msg.IsLookup := by simp [Message.IsLookup, hop]
      split at h <;> obtain rfl := Option.some.inj h
      · exact hrefuse _ _ hl (by simp)
      · next hsearch => exact .checkCreate hnm hop hsearch
  · next hop =>
      have hl : ¬ msg.IsLookup := by simp [Message.IsLookup, hop]
      split at h <;> obtain rfl := Option.some.inj h
      · exact hrefuse _ _ hl (by simp)
      · next hsearch => exact .findDelete hnm hop hsearch
  · next hop =>
      have hl : ¬ msg.IsLookup := by simp [Message.IsLookup, hop]
      split at h <;> obtain rfl := Option.some.inj h
      · exact hrefuse _ _ hl (by simp)
      · next hsearch => exact .findSource hnm hop hsearch
  · next hop =>
      have hl : msg.IsLookup := by simp [Message.IsLookup, hop]
      split at h <;> obtain rfl := Option.some.inj h
      · next hcache => exact .hit hnm hl hcache
      · next hcache => exact .miss hnm hl hcache
  · next hop =>
      have hl : msg.IsLookup := by simp [Message.IsLookup, hop]
      split at h <;> obtain rfl := Option.some.inj h
      · next hcache => exact .hit hnm hl hcache
      · next hcache => exact .miss hnm hl hcache
  · next hop =>
      have hl : msg.IsLookup := by simp [Message.IsLookup, hop]
      split at h <;> obtain rfl := Option.some.inj h
      · next hcache => exact .hit hnm hl hcache
      · next hcache => exact .miss hnm hl hcache
  · next hread hwrite hinfo =>
      obtain rfl := Option.some.inj h
      exact hrefuse _ _ (fun hl => hl.elim hread (·.elim hwrite hinfo)) (by simp)

theorem of_pick {job : Slot → Job} (hrefusable : t.nm.refusable = some msg)
    (hnm : ∀ msg, t.nm ≠ .received msg) (h : pick sh t msg job = some x)
    (hpick : ∀ slot nm, sh.ssListMutex = none →
      sh.nm.getAvailableSsForCreation = some (slot, nm) →
      Transition net r sh t .nm { sh with nm := nm } { t with nm := .connecting (job slot) }
        [.picked slot]) :
    Transition net r sh t .nm x.1 x.2.1 x.2.2 := by
  rw [pick] at h
  split_ifs at h with hmutex
  split at h <;> obtain rfl := Option.some.inj h
  · exact .refuse hrefusable (fun hr => absurd hr (hnm msg)) (by simp)
  · next slot nm hget => exact hpick slot nm hmutex hget

theorem of_nmStep (h : nmStep net r sh t = some x) :
    Transition net r sh t .nm x.1 x.2.1 x.2.2 := by
  rw [nmStep] at h
  split at h
  · next hnm =>
      obtain rfl := Option.some.inj h
      exact .receive hnm
  · next hnm => exact of_dispatch hnm h
  · next hnm =>
      split at h <;> obtain rfl := Option.some.inj h
      · next hk => exact .registerPath hnm hk
      · exact .registerEnd hnm
  · next msg hnm =>
      exact of_pick (by rw [hnm]; rfl) (by simp [hnm]) h fun _ _ => .pickCreate hnm
  · next hnm =>
      split at h <;> obtain rfl := Option.some.inj h
      · next hsearch => exact .findTarget hnm hsearch
      · next hsearch => exact .noTarget hnm hsearch
  · next msg source hnm =>
      exact of_pick (by rw [hnm]; rfl) (by simp [hnm]) h fun _ _ => .pickTarget hnm
  · next hnm =>
      split at h <;> obtain rfl := Option.some.inj h
      · next hsearch => exact .lookupFailed hnm hsearch
      · next hsearch => exact .lookupFind hnm hsearch
  · next hnm =>
      obtain rfl := Option.some.inj h
      exact .fill hnm
  · next job hnm =>
      rw [NetworkFileSystem.forward] at h
      split at h <;> obtain rfl := Option.some.inj h
      · exact .refuse (by rw [hnm]; rfl) (by simp [hnm]) (by simp)
      · next hs => exact .forward hnm hs
  · next hnm =>
      rw [receiveResponse] at h
      split at h
      · next hss =>
          split_ifs at h with hresponse <;> obtain rfl := Option.some.inj h
          · exact .succeeded hnm hss hresponse
          · exact .failed hnm hss hresponse
      · cases h
  · next job hnm =>
      rcases job with ⟨msg, slot⟩ | ⟨msg, slot⟩ | ⟨msg, source, dest, _ | _⟩
      all_goals simp only [conclude, if_true, if_false, Bool.false_eq_true] at h
      · split_ifs at h with hmutex
        obtain rfl := Option.some.inj h
        exact .recordCreate hnm hmutex
      · split_ifs at h with hmutex
        obtain rfl := Option.some.inj h
        exact .drop hnm hmutex
      · obtain rfl := Option.some.inj h
        exact .keepCopy hnm
      · split_ifs at h with hmutex
        obtain rfl := Option.some.inj h
        exact .recordCopy hnm hmutex
  · next hnm =>
      obtain rfl := Option.some.inj h
      exact .forget hnm
  · next hnm =>
      obtain rfl := Option.some.inj h
      exact .answer hnm
  · cases h
  · cases h

theorem of_nmFailStep {f : Failure} (h : nmFailStep sh t f = some x) :
    Transition net r sh t (.nmFail f) x.1 x.2.1 x.2.2 := by
  cases hnm : t.nm with
  | incoming msg =>
      cases f with
      | receive =>
          obtain rfl := Option.some.inj (by simpa only [nmFailStep, hnm] using h)
          exact .lostRequest hnm
      | socket | connect | send => simp [nmFailStep, hnm] at h
  | connecting job =>
      cases f with
      | receive => simp [nmFailStep, hnm] at h
      | socket | connect | send =>
          obtain rfl := Option.some.inj (by simpa only [nmFailStep, hnm] using h)
          exact .refuse (by rw [hnm]; rfl) (by simp [hnm]) (by simp)
  | awaiting job =>
      cases f with
      | receive =>
          obtain rfl := Option.some.inj (by simpa only [nmFailStep, hnm] using h)
          exact .lostResponse hnm
      | socket | connect | send => simp [nmFailStep, hnm] at h
  | _ => simp [nmFailStep, hnm] at h

theorem of_nmMallocFailStep (h : nmMallocFailStep sh t = some x) :
    Transition net r sh t .nmMallocFail x.1 x.2.1 x.2.2 := by
  rw [nmMallocFailStep] at h
  split at h
  · next msg hnm =>
      split_ifs at h with hop
      obtain rfl := Option.some.inj h
      exact .refuse (by rw [hnm]; rfl) (fun _ => by simp [Message.IsLookup, hop]) (by simp)
  · cases h

theorem of_ssNmStep {os : Os} (h : ssNmStep net sh t os = some x) :
    Transition net r sh t (.ssNm os) x.1 x.2.1 x.2.2 := by
  rw [ssNmStep] at h
  split at h
  · next s msg hss =>
      split at h
      · next hop =>
          obtain rfl := Option.some.inj h
          exact .ssCreate hss hop rfl
      · next hop =>
          obtain rfl := Option.some.inj h
          exact .ssDelete hss hop rfl
      · next hop =>
          rcases hread : (sh.disks s).readFile os msg with ⟨code, bytes⟩
          rw [hread] at h
          obtain rfl := Option.some.inj h
          dsimp only
          split_ifs with hcode
          · subst hcode
            exact .ssRead hss hop hread
          · exact .ssReadFailed hss hop hread hcode
      · next hcreate hdelete hcopy =>
          obtain rfl := Option.some.inj h
          exact .ssRefuse (Or.inl ⟨hss, hcreate, hdelete, hcopy⟩)
  · next hss =>
      split at h <;> obtain rfl := Option.some.inj h
      · exact .ssRefuse (Or.inr ⟨_, hss⟩)
      · next hdest => exact .relay hss hdest
  · next hss =>
      split at h
      · next hdest =>
          obtain rfl := Option.some.inj h
          exact .relayed hss hdest
      · cases h
  · cases h
  · cases h
  · cases h

theorem of_ssNmFailStep {f : Failure} (h : ssNmFailStep sh t f = some x) :
    Transition net r sh t (.ssNmFail f) x.1 x.2.1 x.2.2 := by
  cases hss : t.ssNm with
  | incoming s msg =>
      cases f with
      | receive =>
          obtain rfl := Option.some.inj (by simpa only [ssNmFailStep, hss] using h)
          exact .ssLost hss
      | socket | connect | send => simp [ssNmFailStep, hss] at h
  | copyRead s msg bytes =>
      cases f with
      | receive => simp [ssNmFailStep, hss] at h
      | socket | connect | send =>
          obtain rfl := Option.some.inj (by simpa only [ssNmFailStep, hss] using h)
          exact .ssRefuse (Or.inr ⟨_, hss⟩)
  | copyAwaiting s msg bytes =>
      cases f with
      | receive =>
          obtain rfl := Option.some.inj (by simpa only [ssNmFailStep, hss] using h)
          exact .ssLostResponse hss
      | socket | connect | send => simp [ssNmFailStep, hss] at h
  | _ => simp [ssNmFailStep, hss] at h

theorem of_ssClientStep {os : Os} (h : ssClientStep sh t os = some x) :
    Transition net r sh t (.ssClient os) x.1 x.2.1 x.2.2 := by
  rw [ssClientStep] at h
  split at h
  · next s msg hss =>
      split at h <;> obtain rfl := Option.some.inj h
      · next hop => exact .serve hss (by simp [hop]) (by simp)
      · next hop => exact .ssWrite hss hop rfl
      · next hop => exact .serve hss (by simp [hop]) (by simp)
      · next hwrite _ => exact .serve hss hwrite (by simp)
  · cases h
  · cases h
  · cases h

theorem of_ssClientFailStep (h : ssClientFailStep sh t = some x) :
    Transition net r sh t .ssClientFail x.1 x.2.1 x.2.2 := by
  rw [ssClientFailStep] at h
  split at h
  · next hss =>
      obtain rfl := Option.some.inj h
      exact .ssClientLost hss
  · cases h

theorem of_submitStep (h : submitStep sh t msg = some x) :
    Transition net r sh t (.submit msg) x.1 x.2.1 x.2.2 := by
  rw [submitStep] at h
  split at h
  · next hclient =>
      split_ifs at h with hmsg
      obtain rfl := Option.some.inj h
      exact .submit hclient hmsg
  · cases h

theorem of_clientStep (h : clientStep net sh t = some x) :
    Transition net r sh t .client x.1 x.2.1 x.2.2 := by
  rw [clientStep] at h
  split at h
  · next hclient =>
      split_ifs at h with hreply
      · split at h <;> obtain rfl := Option.some.inj h
        · exact .quit (by simp [hclient])
        · next hs => exact .contact hclient hreply.1 hreply.2 hs
      · obtain rfl := Option.some.inj h
        exact .quit (by simp [hclient])
  · next hclient =>
      split at h
      · next hss =>
          obtain rfl := Option.some.inj h
          exact .served hclient hss
      · cases h
  · cases h
  · cases h
  · cases h

theorem of_clientFailStep (h : clientFailStep sh t = some x) :
    Transition net r sh t .clientFail x.1 x.2.1 x.2.2 := by
  rw [clientFailStep] at h
  split at h
  · cases h
  · cases h
  · next hidle _ =>
      obtain rfl := Option.some.inj h
      exact .quit hidle

/-- Every step of a request is one of the list. -/
theorem of_request {a : Action} (h : request net r sh t a = some x) :
    Transition net r sh t a x.1 x.2.1 x.2.2 := by
  cases a with
  | submit msg => exact of_submitStep h
  | client => exact of_clientStep h
  | clientFail => exact of_clientFailStep h
  | nm => exact of_nmStep h
  | nmFail f => exact of_nmFailStep h
  | nmMallocFail => exact of_nmMallocFailStep h
  | ssNm os => exact of_ssNmStep h
  | ssNmFail f => exact of_ssNmFailStep h
  | ssClient os => exact of_ssClientStep h
  | ssClientFail => exact of_ssClientFailStep h

end Transition
end NetworkFileSystem
