import NetworkFileSystem.ExclusiveCreation
import NetworkFileSystem.Library.Variant

/-!
# Every request ends

A request takes a bounded number of steps, in any order with those of the others and whatever
fails. As long as a client waits, some thread can take its next step: no thread waits for one that
waits for it, and the holder of `ss_list_mutex` never waits. Where nothing fails, every client
gets a reply.
-/

namespace NetworkFileSystem

open Interleaving Interleaving.World Machine

/-! ### The steps left to a request -/

def ClientThread.stepsLeft : ClientThread → ℕ
  | idle => maxAccessiblePaths + 8
  | asked _ | replied _ _ => 3
  | contacted => 1
  | finished => 0

def NmThread.stepsLeft : NmThread → ℕ
  | incoming _ => maxAccessiblePaths + 4
  | received _ => maxAccessiblePaths + 3
  | registering _ _ i => maxAccessiblePaths - i + 2
  | copyFound _ _ => 11
  | createChecked _ | copyUnplaced _ _ => 10
  | connecting _ => 9
  | awaiting _ => 4
  | concluding _ | lookupMissed _ => 3
  | deleteDropped _ _ | lookupFound _ _ => 2
  | answering _ _ => 1
  | idle | finished => 0

def SsNmThread.stepsLeft : SsNmThread → ℕ
  | incoming _ _ => 4
  | copyRead _ _ _ => 3
  | copyAwaiting _ _ _ => 1
  | idle | answering _ _ | finished => 0

def SsClientThread.stepsLeft : SsClientThread → ℕ
  | incoming _ _ => 1
  | idle | answering _ _ | finished => 0

/-- A bound on the steps that the threads of a request can still take. -/
def Threads.stepsLeft (t : Threads) : ℕ :=
  t.client.stepsLeft + t.nm.stepsLeft + t.ssNm.stepsLeft + t.ssClient.stepsLeft

section Steps

variable {net : Network} {r : ℕ} {sh : Shared} {t : Threads} {x : Shared × Threads × List Event}
  {msg reply : Message}

theorem ClientThread.stepsLeft_hear (c : ClientThread) :
    (c.hear msg reply).stepsLeft = c.stepsLeft := by
  cases c <;> rfl

/-- The handler of the naming server goes on, and no other thread changes. -/
theorem Threads.stepsLeft_lt_of_nm {n : NmThread} (h : n.stepsLeft < t.nm.stepsLeft) :
    Threads.stepsLeft { t with nm := n } < t.stepsLeft := by
  simp only [stepsLeft]
  omega

theorem dispatch_stepsLeft (hnm : t.nm = .received msg) (h : dispatch r sh t msg = some x) :
    x.2.1.stepsLeft < t.stepsLeft := by
  have hnext : ∀ n : NmThread, n.stepsLeft ≤ maxAccessiblePaths + 2 →
      Threads.stepsLeft { t with nm := n } < t.stepsLeft := by
    intro n hn
    refine Threads.stepsLeft_lt_of_nm (Nat.lt_of_le_of_lt hn ?_)
    simp [hnm, NmThread.stepsLeft]
  have hanswer : ∀ reply, (t.answer msg reply).stepsLeft < t.stepsLeft :=
    fun reply => hnext _ (by simp [NmThread.stepsLeft])
  rw [dispatch] at h
  split at h
  · split_ifs at h
    split at h
    · obtain rfl := Option.some.inj h
      exact hanswer _
    · obtain ⟨nm, -, rfl⟩ := Option.map_eq_some_iff.mp h
      exact hnext _ (by simp [NmThread.stepsLeft])
  · obtain rfl := Option.some.inj h
    exact hanswer _
  all_goals
    first
    | split at h <;> obtain rfl := Option.some.inj h
      · exact hanswer _
      · exact hnext _ (by simp [NmThread.stepsLeft, maxAccessiblePaths])
    | obtain rfl := Option.some.inj h
      exact hanswer _

theorem pick_stepsLeft {job : Slot → Job} (hnm : 9 < t.nm.stepsLeft)
    (h : pick sh t msg job = some x) : x.2.1.stepsLeft < t.stepsLeft := by
  rw [pick] at h
  split_ifs at h
  split at h <;> obtain rfl := Option.some.inj h
  · exact Threads.stepsLeft_lt_of_nm (Nat.lt_of_le_of_lt (by simp [NmThread.stepsLeft]) hnm)
  · exact Threads.stepsLeft_lt_of_nm hnm

theorem conclude_stepsLeft {job : Job} (hnm : t.nm = .concluding job)
    (h : conclude r sh t job = some x) : x.2.1.stepsLeft < t.stepsLeft := by
  have hnext : ∀ n : NmThread, n.stepsLeft ≤ 2 →
      Threads.stepsLeft { t with nm := n } < t.stepsLeft := fun n hn =>
    Threads.stepsLeft_lt_of_nm (Nat.lt_of_le_of_lt hn (by simp [hnm, NmThread.stepsLeft]))
  rcases job with ⟨msg, slot⟩ | ⟨msg, slot⟩ | ⟨msg, source, dest, _ | _⟩
  all_goals simp only [conclude, if_true, if_false, Bool.false_eq_true] at h
  case copy.false =>
    obtain rfl := Option.some.inj h
    exact hnext _ (by simp [NmThread.stepsLeft])
  all_goals
    split_ifs at h
    obtain rfl := Option.some.inj h
    exact hnext _ (by simp [NmThread.stepsLeft])

theorem nmStep_stepsLeft (h : nmStep net r sh t = some x) : x.2.1.stepsLeft < t.stepsLeft := by
  rw [nmStep] at h
  split at h
  · next hnm =>
      obtain rfl := Option.some.inj h
      exact Threads.stepsLeft_lt_of_nm (by simp [hnm, NmThread.stepsLeft])
  · next hnm => exact dispatch_stepsLeft hnm h
  · next msg slot i hnm =>
      split at h <;> obtain rfl := Option.some.inj h
      · next k hk =>
          have hlen := (List.getElem?_eq_some_iff.mp hk).1
          have hi : i < maxAccessiblePaths := by
            simp only [NamingServer.pathIndices, List.length_take, List.length_finRange] at hlen
            omega
          refine Threads.stepsLeft_lt_of_nm ?_
          simp only [hnm, NmThread.stepsLeft]
          omega
      · exact Threads.stepsLeft_lt_of_nm (by simp [hnm, NmThread.stepsLeft])
  · next hnm => exact pick_stepsLeft (by simp [hnm, NmThread.stepsLeft]) h
  · next hnm =>
      split at h <;> obtain rfl := Option.some.inj h <;>
        exact Threads.stepsLeft_lt_of_nm (by simp [hnm, NmThread.stepsLeft])
  · next hnm => exact pick_stepsLeft (by simp [hnm, NmThread.stepsLeft]) h
  · next hnm =>
      split at h <;> obtain rfl := Option.some.inj h <;>
        exact Threads.stepsLeft_lt_of_nm (by simp [hnm, NmThread.stepsLeft])
  · next hnm =>
      obtain rfl := Option.some.inj h
      exact Threads.stepsLeft_lt_of_nm (by simp [hnm, NmThread.stepsLeft])
  · next hnm =>
      rw [forward] at h
      split at h <;> obtain rfl := Option.some.inj h
      · exact Threads.stepsLeft_lt_of_nm (by simp [hnm, NmThread.stepsLeft])
      · simp only [Threads.stepsLeft, hnm, NmThread.stepsLeft, SsNmThread.stepsLeft]
        omega
  · next hnm =>
      rw [receiveResponse] at h
      split at h
      · split_ifs at h <;> obtain rfl := Option.some.inj h <;>
          simp only [Threads.stepsLeft, Threads.answer, hnm, NmThread.stepsLeft,
            SsNmThread.stepsLeft] <;> omega
      · cases h
  · next hnm => exact conclude_stepsLeft hnm h
  · next hnm =>
      obtain rfl := Option.some.inj h
      exact Threads.stepsLeft_lt_of_nm (by simp [hnm, NmThread.stepsLeft])
  · next hnm =>
      obtain rfl := Option.some.inj h
      simp only [Threads.stepsLeft, ClientThread.stepsLeft_hear, hnm, NmThread.stepsLeft]
      omega
  · cases h
  · cases h

theorem nmFailStep_stepsLeft {f : Failure} (h : nmFailStep sh t f = some x) :
    x.2.1.stepsLeft < t.stepsLeft := by
  unfold nmFailStep at h
  split at h
  · next hnm =>
      obtain rfl := Option.some.inj h
      exact Threads.stepsLeft_lt_of_nm (by simp [hnm, NmThread.stepsLeft])
  · cases h
  · next hnm _ =>
      obtain rfl := Option.some.inj h
      exact Threads.stepsLeft_lt_of_nm (by simp [hnm, NmThread.stepsLeft])
  · next hnm =>
      obtain rfl := Option.some.inj h
      exact Threads.stepsLeft_lt_of_nm (by simp [hnm, NmThread.stepsLeft])
  · cases h

theorem nmMallocFailStep_stepsLeft (h : nmMallocFailStep sh t = some x) :
    x.2.1.stepsLeft < t.stepsLeft := by
  rw [nmMallocFailStep] at h
  split at h
  · next hnm =>
      split_ifs at h
      obtain rfl := Option.some.inj h
      exact Threads.stepsLeft_lt_of_nm (by simp [hnm, NmThread.stepsLeft])
  · cases h

theorem ssNmStep_stepsLeft {os : Os} (h : ssNmStep net sh t os = some x) :
    x.2.1.stepsLeft < t.stepsLeft := by
  have hnext : ∀ n : SsNmThread, n.stepsLeft < t.ssNm.stepsLeft →
      Threads.stepsLeft { t with ssNm := n } < t.stepsLeft := by
    intro n hn
    simp only [Threads.stepsLeft]
    omega
  rw [ssNmStep] at h
  split at h
  · next hss =>
      split at h <;> obtain rfl := Option.some.inj h <;> refine hnext _ ?_
      case h_3 => split_ifs <;> simp [hss, SsNmThread.stepsLeft]
      all_goals simp [hss, SsNmThread.stepsLeft]
  · next hss =>
      split at h <;> obtain rfl := Option.some.inj h
      · exact hnext _ (by simp [hss, SsNmThread.stepsLeft])
      · simp only [Threads.stepsLeft, hss, SsNmThread.stepsLeft, SsClientThread.stepsLeft]
        omega
  · next hss =>
      split at h
      · obtain rfl := Option.some.inj h
        simp only [Threads.stepsLeft, hss, SsNmThread.stepsLeft, SsClientThread.stepsLeft]
        omega
      · cases h
  · cases h
  · cases h
  · cases h

theorem ssNmFailStep_stepsLeft {f : Failure} (h : ssNmFailStep sh t f = some x) :
    x.2.1.stepsLeft < t.stepsLeft := by
  unfold ssNmFailStep at h
  split at h
  · next hss =>
      obtain rfl := Option.some.inj h
      simp only [Threads.stepsLeft, hss, SsNmThread.stepsLeft]
      omega
  · cases h
  · next hss _ =>
      obtain rfl := Option.some.inj h
      simp only [Threads.stepsLeft, hss, SsNmThread.stepsLeft]
      omega
  · next hss =>
      obtain rfl := Option.some.inj h
      simp only [Threads.stepsLeft, hss, SsNmThread.stepsLeft]
      omega
  · cases h

theorem ssClientStep_stepsLeft {os : Os} (h : ssClientStep sh t os = some x) :
    x.2.1.stepsLeft < t.stepsLeft := by
  rw [ssClientStep] at h
  split at h
  · next hss =>
      split at h <;> obtain rfl := Option.some.inj h <;>
        simp only [Threads.stepsLeft, hss, SsClientThread.stepsLeft] <;> omega
  · cases h
  · cases h
  · cases h

theorem clientStep_stepsLeft (h : clientStep net sh t = some x) :
    x.2.1.stepsLeft < t.stepsLeft := by
  rw [clientStep] at h
  split at h
  · next hclient =>
      split_ifs at h
      · split at h <;> obtain rfl := Option.some.inj h <;>
          simp only [Threads.stepsLeft, hclient, ClientThread.stepsLeft,
            SsClientThread.stepsLeft] <;> omega
      · obtain rfl := Option.some.inj h
        simp only [Threads.stepsLeft, hclient, ClientThread.stepsLeft]
        omega
  · next hclient =>
      split at h
      · obtain rfl := Option.some.inj h
        simp only [Threads.stepsLeft, hclient, ClientThread.stepsLeft, SsClientThread.stepsLeft]
        omega
      · cases h
  · cases h
  · cases h
  · cases h

theorem clientFailStep_stepsLeft (h : clientFailStep sh t = some x) :
    x.2.1.stepsLeft < t.stepsLeft := by
  rw [clientFailStep] at h
  cases hclient : t.client <;> simp only [hclient] at h
  all_goals
    try cases h
  all_goals
    simp only [Threads.stepsLeft, hclient, ClientThread.stepsLeft]
    omega

/-- Every step of a request uses up one of the steps left to it. -/
theorem request_stepsLeft {a : Action} (h : request net r sh t a = some x) :
    x.2.1.stepsLeft < t.stepsLeft := by
  cases a with
  | submit msg =>
      simp only [request, submitStep] at h
      split at h
      · next hclient =>
          split_ifs at h
          obtain rfl := Option.some.inj h
          simp only [Threads.stepsLeft, hclient, ClientThread.stepsLeft, NmThread.stepsLeft]
          omega
      · cases h
  | client => exact clientStep_stepsLeft h
  | clientFail => exact clientFailStep_stepsLeft h
  | nm => exact nmStep_stepsLeft h
  | nmFail f => exact nmFailStep_stepsLeft h
  | nmMallocFail => exact nmMallocFailStep_stepsLeft h
  | ssNm os => exact ssNmStep_stepsLeft h
  | ssNmFail f => exact ssNmFailStep_stepsLeft h
  | ssClient os => exact ssClientStep_stepsLeft h
  | ssClientFail =>
      simp only [request, ssClientFailStep] at h
      split at h
      · next hss =>
          obtain rfl := Option.some.inj h
          simp only [Threads.stepsLeft, hss, SsClientThread.stepsLeft]
          omega
      · cases h

end Steps

/-- In every run, whatever fails, a request takes at most eighteen steps. -/
theorem request_bounded {net : Network} {sh : Shared} {w : World} {as : List (ℕ × Action)}
    (hrun : run (step net) (start sh) as = some w) (r : ℕ) :
    (as.filter (·.1 = r)).length ≤ 18 :=
  Nat.le_trans (Nat.le_add_right _ _)
    (length_filter_add_le (fun _ _ _ _ _ => request_stepsLeft) hrun r)

/-- The storage server gets the CREATE_FILE of `/a` and closes the connection. -/
def loseCreateA (r : ℕ) : List (ℕ × Action) :=
  checkCreateA r ++ [(r, .nm), (r, .nm), (r, .ssNmFail .receive)]

theorem request_bounded_createA :
    (run (step portNetwork) (start twoServers) (loseCreateA 0)).isSome ∧
      ((loseCreateA 0).filter (·.1 = 0)).length ≤ 18 := by
  have hsome : (run (step portNetwork) (start twoServers) (loseCreateA 0)).isSome := by
    decide +kernel
  obtain ⟨w, hrun⟩ := Option.isSome_iff_exists.mp hsome
  exact ⟨hsome, request_bounded hrun 0⟩

/-! ### What a waiting thread waits for -/

/-- The other end of the connection was closed without an answer, and the receiver learns of it. -/
def Threads.HungUp (t : Threads) : Action → Prop
  | .clientFail =>
    (∃ msg, t.client = .asked msg) ∧ t.nm = .finished ∨
      t.client = .contacted ∧ t.ssClient = .finished
  | .nmFail .receive => (∃ job, t.nm = .awaiting job) ∧ t.ssNm = .finished
  | .ssNmFail .receive =>
    (∃ s msg bytes, t.ssNm = .copyAwaiting s msg bytes) ∧ t.ssClient = .finished
  | _ => False

/-- The next step of a thread that has begun, where only what has failed already fails. -/
def Threads.Due (t : Threads) (os : Os) : Action → Prop
  | .client | .nm => True
  | .ssNm os' | .ssClient os' => os' = os
  | .submit _ => False
  | a => t.HungUp a

/-- The client and the handler of the naming server have come to an end, or have not begun. -/
def Threads.Served (t : Threads) : Prop :=
  (t.client = .idle ∨ t.client = .finished) ∧ (t.nm = .idle ∨ t.nm = .finished)

/-- A thread whose message is waited for has begun. -/
structure Threads.Paired (t : Threads) : Prop where
  asked : ∀ msg, t.client = .asked msg → t.nm ≠ .idle
  contacted : t.client = .contacted → t.ssClient ≠ .idle
  awaiting : ∀ job, t.nm = .awaiting job → t.ssNm ≠ .idle
  copyAwaiting : ∀ s msg bytes, t.ssNm = .copyAwaiting s msg bytes → t.ssClient ≠ .idle

namespace Transition

variable {net : Network} {r : ℕ} {sh sh' : Shared} {t t' : Threads} {a : Action}
  {es : List Event}

theorem paired (h : Transition net r sh t a sh' t' es) (hidle : t.client = .idle → t = .start)
    (hp : t.Paired) : t'.Paired := by
  obtain ⟨hasked, hcontacted, hawaiting, hcopy⟩ := hp
  cases h with
  | answer =>
      cases hclient : t.client <;> constructor <;> simp_all [ClientThread.hear] <;> exact hcopy
  | _ =>
    constructor
    -- what the step leaves alone is kept as it is
    all_goals
      first
      | exact hasked
      | exact hcontacted
      | exact hawaiting
      | exact hcopy
      | simp [Threads.answer]

/-- A handler that holds the mutex keeps it or releases it. -/
theorem mutex_locked (h : Transition net r sh t a sh' t' es)
    (hidle : t.client = .idle → t = .start) {q : ℕ} (hmutex : sh'.ssListMutex = some q) :
    (q = r ∧ t'.nm.Locked) ∨ (sh.ssListMutex = some q ∧ (t.nm.Locked → t'.nm.Locked)) := by
  cases h with
  | refuse hnm =>
      refine Or.inr ⟨hmutex, fun hlocked => absurd hnm ?_⟩
      cases hold : t.nm <;> simp_all [NmThread.Locked, NmThread.refusable]
  | _ => simp_all [NmThread.Locked, Threads.answer, Threads.start]

end Transition

/-- Some thread of the request has a step that is due. -/
def CanStep (net : Network) (r : ℕ) (sh : Shared) (t : Threads) (os : Os) : Prop :=
  ∃ a, t.Due os a ∧ (request net r sh t a).isSome

section Due

variable {net : Network} {r : ℕ} {sh : Shared} {t : Threads} {os : Os} {msg : Message}

theorem canStep_ssClient {s : Server} (hss : t.ssClient = .incoming s msg) :
    CanStep net r sh t os := by
  refine ⟨.ssClient os, rfl, ?_⟩
  rw [request, ssClientStep, hss]
  dsimp only
  split <;> rfl

/-- The NM handler is done, or some step of the storage servers is due. -/
theorem canStep_ssNm (hp : t.Paired) (hss : t.ssNm.Busy) :
    (∃ s response, t.ssNm = .answering s response) ∨ CanStep net r sh t os := by
  cases hssNm : t.ssNm with
  | idle => exact absurd hssNm hss.1
  | finished => exact absurd hssNm hss.2
  | answering s response => exact Or.inl ⟨s, response, rfl⟩
  | incoming s m =>
      refine Or.inr ⟨.ssNm os, rfl, ?_⟩
      rw [request, ssNmStep, hssNm]
      dsimp only
      split <;> rfl
  | copyRead s m bytes =>
      refine Or.inr ⟨.ssNm os, rfl, ?_⟩
      rw [request, ssNmStep, hssNm]
      dsimp only
      split <;> rfl
  | copyAwaiting s m bytes =>
      refine Or.inr ?_
      cases hssClient : t.ssClient with
      | idle => exact absurd hssClient (hp.copyAwaiting s m bytes hssNm)
      | incoming dest m' => exact canStep_ssClient hssClient
      | answering dest response => exact ⟨.ssNm os, rfl, by simp [request, ssNmStep, *]⟩
      | finished =>
          refine ⟨.ssNmFail .receive, ⟨⟨s, m, bytes, hssNm⟩, hssClient⟩, ?_⟩
          simp [request, ssNmFailStep, hssNm]

theorem dispatch_isSome (hmutex : sh.ssListMutex = none) (hmsg : msg.Sendable) :
    (dispatch r sh t msg).isSome := by
  obtain ⟨-, -, -, -, hpaths⟩ := hmsg
  rw [dispatch]
  split
  · rw [if_pos hmutex]
    split
    · rfl
    · rw [NamingServer.storeSs, dif_pos hpaths]
      rfl
  all_goals
    first
    | rfl
    | split <;> rfl

theorem pick_isSome {job : Slot → Job} (hmutex : sh.ssListMutex = none) :
    (pick sh t msg job).isSome := by
  rw [pick, if_pos hmutex]
  split <;> rfl

theorem conclude_isSome (hmutex : sh.ssListMutex = none) (job : Job) :
    (conclude r sh t job).isSome := by
  rcases job with ⟨msg, slot⟩ | ⟨msg, slot⟩ | ⟨msg, source, dest, _ | _⟩ <;>
    simp [conclude, hmutex]

/-- A handler that holds the mutex does not wait. -/
theorem canStep_locked (hnm : t.nm.Locked) : CanStep net r sh t os := by
  refine ⟨.nm, trivial, ?_⟩
  cases hstate : t.nm with
  | registering msg slot i =>
      rw [request, nmStep, hstate]
      dsimp only
      split <;> rfl
  | deleteDropped msg slot => simp [request, nmStep, hstate]
  | _ => simp [hstate, NmThread.Locked] at hnm

/-- While the mutex is free, a handler has a step, or waits for a storage server that has one. -/
theorem canStep_nm (hp : t.Paired) (hmutex : sh.ssListMutex = none)
    (hsend : ∀ msg, t.nm.request = some msg → msg.Sendable) (hidle : t.nm ≠ .idle)
    (hfinished : t.nm ≠ .finished) : CanStep net r sh t os := by
  have hstep : (nmStep net r sh t).isSome → CanStep net r sh t os := fun h => ⟨.nm, trivial, h⟩
  cases hnm : t.nm with
  | idle => exact absurd hnm hidle
  | finished => exact absurd hnm hfinished
  | registering msg slot i => exact canStep_locked (by simp [hnm, NmThread.Locked])
  | deleteDropped msg slot => exact canStep_locked (by simp [hnm, NmThread.Locked])
  | received msg =>
      refine hstep ?_
      rw [nmStep, hnm]
      exact dispatch_isSome hmutex (hsend msg (by rw [hnm]; rfl))
  | createChecked msg =>
      refine hstep ?_
      rw [nmStep, hnm]
      exact pick_isSome hmutex
  | copyUnplaced msg source =>
      refine hstep ?_
      rw [nmStep, hnm]
      exact pick_isSome hmutex
  | concluding job =>
      refine hstep ?_
      rw [nmStep, hnm]
      exact conclude_isSome hmutex job
  | awaiting job =>
      by_cases hss : t.ssNm = .finished
      · refine ⟨.nmFail .receive, ⟨⟨job, hnm⟩, hss⟩, ?_⟩
        simp [request, nmFailStep, hnm]
      · have hcases : (∃ s response, t.ssNm = .answering s response) ∨ CanStep net r sh t os :=
          canStep_ssNm hp ⟨hp.awaiting job hnm, hss⟩
        rcases hcases with ⟨s, response, hresponse⟩ | hcan
        · refine hstep ?_
          rw [nmStep, hnm]
          simp only [receiveResponse, hresponse]
          split <;> rfl
        · exact hcan
  | copyFound msg source | lookupMissed msg | connecting job =>
      refine hstep ?_
      rw [nmStep, hnm]
      simp only [forward]
      split <;> rfl
  | incoming msg | lookupFound msg slot | answering msg reply =>
      refine hstep ?_
      rw [nmStep, hnm]
      rfl

/-- A client that waits has a step, or waits for threads one of which has. -/
theorem canStep_client (hp : t.Paired) (hmutex : sh.ssListMutex = none)
    (hsend : ∀ msg, t.nm.request = some msg → msg.Sendable) (hidle : t.client ≠ .idle)
    (hfinished : t.client ≠ .finished) : CanStep net r sh t os := by
  cases hclient : t.client with
  | idle => exact absurd hclient hidle
  | finished => exact absurd hclient hfinished
  | asked msg =>
      by_cases hnm : t.nm = .finished
      · refine ⟨.clientFail, Or.inl ⟨⟨msg, hclient⟩, hnm⟩, ?_⟩
        simp [request, clientFailStep, hclient]
      · exact canStep_nm hp hmutex hsend (hp.asked msg hclient) hnm
  | replied msg reply =>
      refine ⟨.client, trivial, ?_⟩
      rw [request, clientStep, hclient]
      dsimp only
      split_ifs
      · split <;> rfl
      · rfl
  | contacted =>
      cases hss : t.ssClient with
      | idle => exact absurd hss (hp.contacted hclient)
      | incoming s m => exact canStep_ssClient hss
      | answering s response => exact ⟨.client, trivial, by simp [request, clientStep, *]⟩
      | finished =>
          refine ⟨.clientFail, Or.inr ⟨hclient, hss⟩, ?_⟩
          simp [request, clientFailStep, hclient]

end Due

/-! ### Runs that end -/

section Runs

variable {net : Network} {sh : Shared} {w : World} {as : List (ℕ × Action)} {r : ℕ}

theorem paired_of_run (hrun : run (step net) (start sh) as = some w) (r : ℕ) :
    (w.locals r).Paired := by
  refine (request_invariant (Φ := fun t _ => t.Paired) ?_ ?_ hrun r).2
  · intro r sh t a sh' t' own es hl hp h
    exact h.paired (fun hidle => (hl.fresh hidle).1) hp
  · constructor <;> simp [Threads.start]

theorem locked_of_mutex (hfree : sh.ssListMutex = none)
    (hrun : run (step net) (start sh) as = some w) :
    ∀ q, w.shared.ssListMutex = some q → (w.locals q).nm.Locked := by
  refine world_invariant (C := fun _ _ => True)
    (I := fun w => ∀ q, w.shared.ssListMutex = some q → (w.locals q).nm.Locked) ?_ ?_
    (eachStep_true _ _) hrun
  · intro pre w r a x hpre hI _ h q hmutex
    rcases h.mutex_locked (fun hidle => ((linked_of_run hpre r).fresh hidle).1) hmutex with
      ⟨rfl, hlocked⟩ | ⟨hold, hkeep⟩
    · rwa [locals_after_self]
    · by_cases hq : q = r
      · subst hq
        rw [locals_after_self]
        exact hkeep (hI q hold)
      · rw [locals_after_ne hq]
        exact hI q hold
  · intro q hmutex
    change sh.ssListMutex = some q at hmutex
    rw [hfree] at hmutex
    cases hmutex

/-- As long as a client or a handler of the naming server is busy, some request has a step that is
due. -/
theorem exists_canStep (os : Os) (hfree : sh.ssListMutex = none)
    (hrun : run (step net) (start sh) as = some w) (hbusy : ¬ (w.locals r).Served) :
    ∃ q, CanStep net q w.shared (w.locals q) os := by
  cases hmutex : w.shared.ssListMutex with
  | none =>
      have hpaired := paired_of_run hrun r
      have hsend := sendable_of_run hrun r
      rw [Threads.Served, not_and_or, not_or, not_or] at hbusy
      rcases hbusy with ⟨hidle, hfinished⟩ | ⟨hidle, hfinished⟩
      · exact ⟨r, canStep_client hpaired hmutex hsend hidle hfinished⟩
      · exact ⟨r, canStep_nm hpaired hmutex hsend hidle hfinished⟩
  | some q => exact ⟨q, canStep_locked (locked_of_mutex hfree hrun q hmutex)⟩

/-- Nobody holds the mutex once all requests are served. -/
theorem mutex_of_served (hfree : sh.ssListMutex = none)
    (hrun : run (step net) (start sh) as = some w) (hserved : ∀ r, (w.locals r).Served) :
    w.shared.ssListMutex = none := by
  refine Option.eq_none_iff_forall_ne_some.mpr fun q hq => ?_
  have hlocked := locked_of_mutex hfree hrun q hq
  rcases (hserved q).2 with hnm | hnm <;> simp [hnm, NmThread.Locked] at hlocked

/-- The client of a request that has taken a step is not idle. -/
theorem client_ne_idle (hrun : run (step net) (start sh) as = some w)
    (hr : r ∈ as.map Prod.fst) : (w.locals r).client ≠ .idle := by
  intro hidle
  obtain ⟨b, hb, hbr⟩ := List.mem_map.mp hr
  have hmem : b ∈ as.filter (·.1 = r) := by simp [hb, hbr]
  have hpos := List.length_pos_of_mem hmem
  have hcount := length_filter_add_le (fun _ _ _ _ _ => request_stepsLeft) hrun r
  rw [((linked_of_run hrun r).fresh hidle).1] at hcount
  have hstart : ((start sh).locals r).stepsLeft = Threads.start.stepsLeft := rfl
  omega

/-- The steps taken and the steps left of the requests that have begun. -/
theorem length_add_stepsLeft_le {S : Finset ℕ} (hS : ∀ q ∈ as.map Prod.fst, q ∈ S)
    (hrun : run (step net) (start sh) as = some w) :
    as.length + ∑ q ∈ S, (w.locals q).stepsLeft ≤ S.card * 18 := by
  have hsum := length_add_sum_le (fun _ _ _ _ _ => request_stepsLeft)
    (fun b hb => hS b.1 (List.mem_map_of_mem hb)) hrun
  have hstart : ∑ q ∈ S, ((start sh).locals q).stepsLeft = S.card * 18 :=
    Finset.sum_const_nat fun _ _ => rfl
  exact hstart ▸ hsum

/-- A reachable state in which some request is not served has a step that is due. -/
theorem exists_due (os : Os) (hfree : sh.ssListMutex = none) {S : Finset ℕ}
    (hrun : run (step net) (start sh) as = some w) (hS : ∀ q, q ∉ S → w.locals q = .start)
    (hbusy : ¬ ∀ r, (w.locals r).Served) :
    ∃ q a x, q ∈ S ∧ (w.locals q).Due os a ∧ request net q w.shared (w.locals q) a = some x := by
  obtain ⟨r, hr⟩ := not_forall.mp hbusy
  obtain ⟨q, a, hdue, hsome⟩ := exists_canStep os hfree hrun hr
  obtain ⟨x, hx⟩ := Option.isSome_iff_exists.mp hsome
  refine ⟨q, a, x, ?_, hdue, hx⟩
  by_contra hq
  rw [hS q hq] at hx hdue
  obtain ⟨msg, rfl, -⟩ := (Transition.of_request hx).of_start
  exact hdue

/-- A run can be continued by steps that are due until all requests are served. -/
theorem exists_completion (os : Os) (hfree : sh.ssListMutex = none)
    {P : World → ℕ × Action → Prop} {J : World → Prop}
    (hdue : ∀ w q a x, J w → (w.locals q).Due os a →
      request net q w.shared (w.locals q) a = some x → P w (q, a))
    (hkeep : ∀ pre w q a x, run (step net) (start sh) pre = some w → J w → P w (q, a) →
      request net q w.shared (w.locals q) a = some x → J (w.after q x))
    (hrun : run (step net) (start sh) as = some w) (hw : J w) :
    ∃ bs w', EachStep (step net) P w bs ∧ run (step net) w bs = some w' ∧ J w' ∧
      as.length + bs.length ≤ (as.map Prod.fst).toFinset.card * 18 ∧
      (∀ r ∈ as.map Prod.fst, (w'.locals r).client = .finished) ∧
      (∀ r, (w'.locals r).Served) ∧ w'.shared.ssListMutex = none := by
  obtain ⟨S, hS⟩ : ∃ S, S = (as.map Prod.fst).toFinset := ⟨_, rfl⟩
  have hmem : ∀ q, q ∈ S ↔ q ∈ as.map Prod.fst := fun q => by rw [hS, List.mem_toFinset]
  have hprogress : ∀ w, ((∃ pre, run (step net) (start sh) pre = some w) ∧ J w ∧
      ∀ q, q ∉ S → w.locals q = .start) →
      ¬ (∀ r, (w.locals r).Served) →
      ∃ b w', P w b ∧ step net w b = some w' ∧
        ((∃ pre, run (step net) (start sh) pre = some w') ∧ J w' ∧
          ∀ q, q ∉ S → w'.locals q = .start) ∧
        ∑ q ∈ S, (w'.locals q).stepsLeft < ∑ q ∈ S, (w.locals q).stepsLeft := by
    rintro w ⟨⟨pre, hpre⟩, hJ, hother⟩ hbusy
    obtain ⟨q, a, x, hq, hd, hx⟩ := exists_due os hfree hpre hother hbusy
    have hstep : step net w (q, a) = some (w.after q x) := step_eq_some.mpr ⟨x, hx, rfl⟩
    have hP := hdue w q a x hJ hd hx
    refine ⟨(q, a), w.after q x, hP, hstep, ⟨⟨pre ++ [(q, a)], ?_⟩, ?_, fun q' hq' => ?_⟩,
      sum_after_lt hq (request_stepsLeft hx)⟩
    · exact run_concat_eq_some.mpr ⟨w, hpre, hstep⟩
    · exact hkeep pre w q a x hpre hJ hP hx
    · have hne : q' ≠ q := fun heq => hq' (heq ▸ hq)
      rw [locals_after_ne hne]
      exact hother q' hq'
  have hstart : (∃ pre, run (step net) (start sh) pre = some w) ∧ J w ∧
      ∀ q, q ∉ S → w.locals q = .start :=
    ⟨⟨as, hrun⟩, hw, fun q hq => locals_eq_of_notMem hrun fun h => hq ((hmem q).mpr h)⟩
  obtain ⟨bs, w', hP, hbs, ⟨-, hJ, -⟩, hdone, hlen⟩ := exists_run_of_variant hprogress hstart
  have hall : run (step net) (start sh) (as ++ bs) = some w' := by
    rw [run_append, hrun, Option.bind_some, hbs]
  refine ⟨bs, w', hP, hbs, hJ, ?_, fun r hr => (hdone r).1.resolve_left ?_, hdone,
    mutex_of_served hfree hall hdone⟩
  · have hsum := length_add_stepsLeft_le (fun q hq => (hmem q).mpr hq) hrun
    rw [← hS]
    omega
  · exact client_ne_idle hall (by simp [hr])

/-- Whatever has failed so far, every client that began comes to an end, and so do the handlers of
the naming server, also those whose client gave up: by steps that are due, at most eighteen for each
request. Then the mutex is free. -/
theorem requests_finish (hfree : sh.ssListMutex = none) (os : Os)
    (hrun : run (step net) (start sh) as = some w) :
    ∃ bs w', EachStep (step net) (fun w b => (w.locals b.1).Due os b.2) w bs ∧
      run (step net) w bs = some w' ∧
      as.length + bs.length ≤ (as.map Prod.fst).toFinset.card * 18 ∧
      (∀ r ∈ as.map Prod.fst, (w'.locals r).client = .finished) ∧
      (∀ r, (w'.locals r).Served) ∧ w'.shared.ssListMutex = none := by
  obtain ⟨bs, w', hbs, hrun', -, hrest⟩ := exists_completion os
    (P := fun w b => (w.locals b.1).Due os b.2) (J := fun _ => True) hfree
    (fun _ _ _ _ _ hdue _ => hdue) (fun _ _ _ _ _ _ _ _ _ => trivial) hrun trivial
  exact ⟨bs, w', hbs, hrun', hrest⟩

end Runs

theorem requests_finish_createA :
    ∃ w bs w', run (step portNetwork) (start twoServers) (loseCreateA 0) = some w ∧
      (w.locals 0).client ≠ .finished ∧ run (step portNetwork) w bs = some w' ∧
      (w'.locals 0).client = .finished := by
  have hany : (run (step portNetwork) (start twoServers) (loseCreateA 0)).any fun w =>
      (w.locals 0).client.stepsLeft ≠ 0 := by decide +kernel
  obtain ⟨w, hrun, hw⟩ := (Option.any_eq_true _ _).mp hany
  obtain ⟨bs, w', -, hrun', -, hfin, -⟩ := requests_finish (by rfl) .ok hrun
  refine ⟨w, bs, w', hrun, fun h => of_decide_eq_true hw ?_, hrun', hfin 0 (by decide)⟩
  rw [h, ClientThread.stepsLeft]

/-! ### Runs in which nothing fails -/

/-- The action of a thread whose call fails. -/
def Action.Fails : Action → Prop
  | .clientFail | .nmFail _ | .nmMallocFail | .ssNmFail _ | .ssClientFail => True
  | _ => False

/-- No connection is closed without an answer. -/
structure Threads.Attended (t : Threads) : Prop where
  asked : ∀ msg, t.client = .asked msg → t.nm ≠ .finished
  contacted : t.client = .contacted → t.ssClient ≠ .finished
  awaiting : ∀ job, t.nm = .awaiting job → t.ssNm ≠ .finished
  copyAwaiting : ∀ s msg bytes, t.ssNm = .copyAwaiting s msg bytes → t.ssClient ≠ .finished

theorem Threads.Attended.not_hungUp {t : Threads} (h : t.Attended) (a : Action) :
    ¬ t.HungUp a := by
  cases a with
  | clientFail =>
      rintro (⟨⟨msg, hclient⟩, hnm⟩ | ⟨hclient, hss⟩)
      · exact h.asked msg hclient hnm
      · exact h.contacted hclient hss
  | nmFail f =>
      cases f with
      | receive => exact fun ⟨⟨job, hnm⟩, hss⟩ => h.awaiting job hnm hss
      | socket | connect | send => exact id
  | ssNmFail f =>
      cases f with
      | receive => exact fun ⟨⟨s, msg, bytes, hss⟩, hdest⟩ => h.copyAwaiting s msg bytes hss hdest
      | socket | connect | send => exact id
  | submit | client | nm | nmMallocFail | ssNm | ssClient | ssClientFail => exact id

namespace Transition

variable {net : Network} {r : ℕ} {sh sh' : Shared} {t t' : Threads} {a : Action}
  {own es : List Event}

theorem attended (h : Transition net r sh t a sh' t' es) (hl : Linked t own)
    (hlost : .lostReply ∉ own) (ha : ¬ a.Fails) (hatt : t.Attended) : t'.Attended := by
  have hidle : t.client = .idle → t = .start := fun hc => (hl.fresh hc).1
  have hnm : t.client = .contacted → t.nm = .finished := hl.contacted
  have hrelay : ∀ s msg bytes, t.ssNm = .copyAwaiting s msg bytes → ∃ job, t.nm = .awaiting job :=
    fun s msg bytes hss => (hl.forwarded (by simp [SsNmThread.Busy, hss])).resolve_right hlost
  obtain ⟨hasked, hcontacted, hawaiting, hcopy⟩ := hatt
  clear hl hlost
  cases h with
  | answer =>
      cases hclient : t.client <;> constructor <;> simp_all [ClientThread.hear]
  | relayed hss =>
      obtain ⟨job, hjob⟩ := hrelay _ _ _ hss
      constructor <;> simp_all
  | _ =>
    constructor
    all_goals
      first
      | exact hasked
      | exact hcontacted
      | exact hawaiting
      | exact hcopy
      | simp [Threads.answer]; done
      | simp_all [Threads.start, Action.Fails]

theorem fails_of_lostReply (h : Transition net r sh t a sh' t' es) (hmem : .lostReply ∈ es) :
    a.Fails := by
  cases h with
  | refuse _ _ hes => rcases hes with rfl | ⟨_, _, rfl⟩ <;> simp at hmem
  | serve _ _ hes => rcases hes with rfl | ⟨_, _, _, rfl⟩ <;> simp at hmem
  | lostResponse | ssLostResponse => trivial
  | _ => simp at hmem

/-- A handler ends with its reply, or by a failure. -/
theorem nm_finished_cases (h : Transition net r sh t a sh' t' es) (hnm : t'.nm = .finished) :
    t.nm = .finished ∨ a.Fails ∨ ∃ msg reply, .answered msg reply ∈ es := by
  cases h with
  | answer => exact Or.inr (Or.inr ⟨_, _, List.mem_singleton.mpr rfl⟩)
  | lostRequest => exact Or.inr (Or.inl trivial)
  | _ => simp_all [Threads.answer]

end Transition

/-- What holds of a request none of whose calls failed. -/
structure Unfailed (t : Threads) (own : List Event) : Prop where
  linked : Linked t own
  attended : t.Attended
  lost : .lostReply ∉ own
  answered : t.nm = .finished → ∃ msg reply, .answered msg reply ∈ own
  finished : t.client = .finished → ∃ msg reply, .answered msg reply ∈ own

section Client

variable {net : Network} {r : ℕ} {sh : Shared} {t : Threads} {x : Shared × Threads × List Event}
  {msg : Message}

theorem pick_client {job : Slot → Job} (h : pick sh t msg job = some x) :
    x.2.1.client = t.client := by
  grind [pick, Threads.answer]

theorem dispatch_client (h : dispatch r sh t msg = some x) : x.2.1.client = t.client := by
  grind [dispatch, Threads.answer, Option.map_eq_some_iff]

theorem conclude_client {job : Job} (h : conclude r sh t job = some x) :
    x.2.1.client = t.client := by
  cases job <;> grind [conclude, Threads.answer]

theorem nmStep_client (h : nmStep net r sh t = some x) :
    x.2.1.client = t.client ∨ ∃ msg reply, x.2.1.client = t.client.hear msg reply := by
  grind [nmStep, receiveResponse, forward, Threads.answer, pick_client, dispatch_client,
    conclude_client]

/-- A client that does not give up ends after its reply. -/
theorem finished_cases {a : Action} (h : request net r sh t a = some x) (ha : ¬ a.Fails)
    (hx : x.2.1.client = .finished) :
    t.client = .finished ∨ t.client = .contacted ∨ ∃ msg reply, t.client = .replied msg reply := by
  cases a with
  | nm =>
      rcases nmStep_client h with heq | ⟨msg, reply, heq⟩
      · exact Or.inl (heq ▸ hx)
      · rw [heq] at hx
        cases hclient : t.client <;> simp_all [ClientThread.hear]
  | submit | client | ssNm | ssClient =>
      grind [request, submitStep, clientStep, ssNmStep, ssClientStep]
  | clientFail | nmFail | nmMallocFail | ssNmFail | ssClientFail => exact absurd trivial ha

theorem Unfailed.step {own : List Event} {a : Action} (hu : Unfailed t own) (ha : ¬ a.Fails)
    (h : request net r sh t a = some x) : Unfailed x.2.1 (own ++ x.2.2) := by
  have htr := Transition.of_request h
  have hl := hu.linked.step htr
  have hlost : .lostReply ∉ own ++ x.2.2 := fun hmem =>
    (List.mem_append.mp hmem).elim hu.lost fun hes => ha (htr.fails_of_lostReply hes)
  have hanswered : x.2.1.nm = .finished → ∃ msg reply, .answered msg reply ∈ own ++ x.2.2 := by
    intro hnm
    rcases htr.nm_finished_cases hnm with hold | hfails | ⟨msg, reply, hmem⟩
    · obtain ⟨msg, reply, hmem⟩ := hu.answered hold
      exact ⟨msg, reply, List.mem_append_left _ hmem⟩
    · exact absurd hfails ha
    · exact ⟨msg, reply, List.mem_append_right _ hmem⟩
  refine ⟨hl, htr.attended hu.linked hu.lost ha hu.attended, hlost, hanswered, fun hfin => ?_⟩
  have hold : ∃ msg reply, .answered msg reply ∈ own := by
    rcases finished_cases h ha hfin with hfin | hcontacted | ⟨msg, reply, hreplied⟩
    · exact hu.finished hfin
    · exact hu.answered (hu.linked.contacted hcontacted)
    · exact ⟨msg, reply, hu.linked.replied msg reply hreplied⟩
  obtain ⟨msg, reply, hmem⟩ := hold
  exact ⟨msg, reply, List.mem_append_left _ hmem⟩

end Client

section Runs

variable {net : Network} {sh : Shared} {w : World} {as : List (ℕ × Action)}

theorem unfailed_start : Unfailed .start [] where
  linked := linked_start
  attended := by constructor <;> simp [Threads.start]
  lost := by simp
  answered h := by simp [Threads.start] at h
  finished h := by simp [Threads.start] at h

theorem Unfailed.after {r : ℕ} {x : Shared × Threads × List Event} {a : Action}
    (hu : ∀ q, Unfailed (w.locals q) (w.own q)) (ha : ¬ a.Fails)
    (hx : request net r w.shared (w.locals r) a = some x) (q : ℕ) :
    Unfailed ((w.after r x).locals q) ((w.after r x).own q) := by
  by_cases hq : q = r
  · subst hq
    rw [locals_after_self, own_after_self]
    exact (hu q).step ha hx
  · rw [locals_after_ne hq, own_after_ne hq]
    exact hu q

/-- If nothing has failed and nothing does from now on, every client that began gets a reply and
comes to an end. -/
theorem requests_answered (hfree : sh.ssListMutex = none) (os : Os)
    (hrun : run (step net) (start sh) as = some w) (hok : ∀ b ∈ as, ¬ b.2.Fails) :
    ∃ bs w', (∀ b ∈ bs, b.2 = .client ∨ b.2 = .nm ∨ b.2 = .ssNm os ∨ b.2 = .ssClient os) ∧
      run (step net) w bs = some w' ∧
      as.length + bs.length ≤ (as.map Prod.fst).toFinset.card * 18 ∧
      ∀ r ∈ as.map Prod.fst, (w'.locals r).client = .finished ∧
        ∃ msg reply, .answered msg reply ∈ w'.own r := by
  have hw : ∀ q, Unfailed (w.locals q) (w.own q) := by
    refine own_invariant (C := fun _ b => ¬ b.2.Fails) ?_ (fun _ => unfailed_start) ?_ hrun
    · exact fun w r a x hC hu hx => hu.step hC hx
    · exact fun pre b post t has _ => hok b (by simp [has])
  have hdue : ∀ (w : World) q a (x : Shared × Threads × List Event),
      (∀ q, Unfailed (w.locals q) (w.own q)) → (w.locals q).Due os a →
      request net q w.shared (w.locals q) a = some x →
      a = .client ∨ a = .nm ∨ a = .ssNm os ∨ a = .ssClient os := by
    intro w q a x hu hd _
    have hno := (hu q).attended.not_hungUp a
    cases a <;> simp_all [Threads.Due]
  have hkeep : ∀ pre (w : World) q a (x : Shared × Threads × List Event),
      run (step net) (start sh) pre = some w → (∀ q, Unfailed (w.locals q) (w.own q)) →
      (a = .client ∨ a = .nm ∨ a = .ssNm os ∨ a = .ssClient os) →
      request net q w.shared (w.locals q) a = some x →
      ∀ q', Unfailed ((w.after q x).locals q') ((w.after q x).own q') := by
    intro pre w q a x _ hu hP hx
    refine Unfailed.after hu ?_ hx
    rcases hP with rfl | rfl | rfl | rfl <;> exact id
  obtain ⟨bs, w', hbs, hrun', hu, hlen, hfin, -⟩ := exists_completion os
    (P := fun _ b => b.2 = .client ∨ b.2 = .nm ∨ b.2 = .ssNm os ∨ b.2 = .ssClient os)
    (J := fun w => ∀ q, Unfailed (w.locals q) (w.own q)) hfree hdue hkeep hrun hw
  exact ⟨bs, w', hbs.forall_mem hrun', hrun', hlen,
    fun r hr => ⟨hfin r hr, (hu r).finished (hfin r hr)⟩⟩

end Runs

theorem requests_answered_createA :
    ∃ w bs w', run (step portNetwork) (start twoServers) (checkCreateA 0) = some w ∧
      run (step portNetwork) w bs = some w' ∧
      ∃ msg reply, .answered msg reply ∈ w'.own 0 := by
  have hsome : (run (step portNetwork) (start twoServers) (checkCreateA 0)).isSome := by
    decide +kernel
  obtain ⟨w, hrun⟩ := Option.isSome_iff_exists.mp hsome
  have hok : ∀ b ∈ checkCreateA 0, ¬ b.2.Fails := by simp [checkCreateA, Action.Fails]
  obtain ⟨bs, w', -, hrun', -, hfin⟩ := requests_answered (by rfl) .ok hrun hok
  exact ⟨w, bs, w', hrun, hrun', (hfin 0 (by decide)).2⟩

end NetworkFileSystem
