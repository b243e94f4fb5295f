import NetworkFileSystem.PositiveAnswer
import NetworkFileSystem.NegativeAnswer

/-!
# What a COPY_FILE copies

A COPY_FILE that runs alone, from the state in which it starts to its positive answer: one read on
the server of the source, one write of these bytes on the server of the destination. When the
destination then holds what the source holds can be read off the two operations.
-/

namespace NetworkFileSystem

open Interleaving Interleaving.World Machine

namespace Disk

variable {disk disk' disk₂ : Disk} {os os' : Os} {path path2 : Path} {bytes data : List UInt8}
  {m : Message}

theorem readFile_eq_success (h : disk.readFile os m = (.success, bytes)) :
    disk.ssRead os m.path.str = (.success, bytes) := by
  rw [readFile] at h
  split_ifs at h
  · exact h
  · cases h

theorem writeFile_eq_success (h : disk.writeFile os m = (.success, disk')) :
    disk.ssWrite os m.path.str m.payload = (.success, disk') := by
  rw [writeFile] at h
  split_ifs at h
  · exact h
  · cases h

theorem ssRead_eq_success (h : disk.ssRead os path = (.success, bytes)) :
    ∃ object, disk path = some object ∧
      bytes = (contents os object).take (min (maxDataSize - 1) os.readable) := by
  rw [ssRead] at h
  split at h
  · next object hopened hobject => exact ⟨object, hobject, (Prod.mk.inj h).2.symm⟩
  · cases h

/-- What a write leaves at its path that reports success. -/
theorem ssWrite_eq_success (h : disk.ssWrite os path data = (.success, disk')) :
    disk path = some .special ∧ disk' path = some .special ∨
      disk path ≠ some .special ∧ disk' path = some (.file (data.take os.flushed)) := by
  rw [ssWrite] at h
  split at h
  · cases h
  · next opened hopen =>
      obtain ⟨hcode, rfl⟩ := Prod.mk.inj h
      have hwritable : data.length ≤ os.writable := by
        by_contra hnot
        rw [if_neg hnot] at hcode
        cases hcode
      have htake : data.take (min os.writable os.flushed) = data.take os.flushed := by
        rw [← List.take_take, List.take_take, min_comm, ← List.take_take,
          List.take_of_length_le hwritable]
      rw [htake]
      rw [openWrite] at hopen
      split at hopen
      · next hnone =>
          obtain rfl := Option.some.inj hopen
          exact Or.inr ⟨by simp [hnone], by simp [store]⟩
      · next content hfile =>
          obtain rfl := Option.some.inj hopen
          exact Or.inr ⟨by simp [hfile], by simp [store]⟩
      · next hspecial =>
          obtain rfl := Option.some.inj hopen
          exact Or.inl ⟨hspecial, by simp [store, hspecial]⟩
      · cases hopen

/-- When what was read at one path and written at another one is the same object. -/
theorem copied_iff (hsource : disk path ≠ some .special)
    (hread : disk.ssRead os path = (.success, bytes))
    (hwrite : disk₂.ssWrite os' path2 bytes = (.success, disk')) :
    disk' path2 = disk path ↔ ∃ content, disk path = some (.file content) ∧
      content.length ≤ maxDataSize - 1 ∧ content.length ≤ os.readable ∧
      content.length ≤ os'.flushed ∧ disk₂ path2 ≠ some .special := by
  obtain ⟨object, hobject, hbytes⟩ := ssRead_eq_success hread
  constructor
  · intro heq
    rcases ssWrite_eq_success hwrite with ⟨-, hspecial⟩ | ⟨hdest, hfile⟩
    · exact absurd (heq.symm.trans hspecial) hsource
    · have hfile' : disk path = some (.file (bytes.take os'.flushed)) := heq.symm.trans hfile
      obtain rfl := Option.some.inj (hobject.symm.trans hfile')
      have hlen := congrArg List.length hbytes
      rw [contents, List.length_take] at hlen
      refine ⟨bytes.take os'.flushed, hfile', ?_, ?_, ?_, hdest⟩ <;>
        rw [List.length_take] at * <;> omega
  · rintro ⟨content, hfile, hsize, hreadable, hflushed, hdest⟩
    obtain rfl := Option.some.inj (hobject.symm.trans hfile)
    have hall : bytes = content := by
      rw [hbytes, contents]
      exact List.take_of_length_le (le_min hsize hreadable)
    rcases ssWrite_eq_success hwrite with ⟨hspecial, -⟩ | ⟨-, hcopy⟩
    · exact absurd hspecial hdest
    · rw [hcopy, hfile, hall, List.take_of_length_le hflushed]

end Disk

/-- The trie and the addresses are as they were. -/
structure Intact (sh₀ sh : Shared) : Prop where
  search : ∀ path, sh.nm.search path = sh₀.nm.search path
  address : ∀ slot, sh.nm.address slot = sh₀.nm.address slot

/-- The servers of a copy are those that the trie names, but for a new destination. -/
def Job.Placed (sh₀ : Shared) : Job → Prop
  | copy msg source dest isNew => sh₀.nm.search msg.path.str = some source ∧
      (isNew = false → sh₀.nm.search msg.path2.str = some dest)
  | _ => True

/-- The two operations of a copy, and what they leave on the disks. -/
structure Copied (net : Network) (sh₀ : Shared) (disks : Server → Disk) (own : List Event)
    (msg : Message) (source dest : Slot) (s d : Server) (os os' : Os) : Prop where
  source : net.nmServer (sh₀.nm.address source) = some s
  dest : net.clientServer (sh₀.nm.address dest) = some d
  copied : ∃ bytes disk, .executed s (.read msg.path.str bytes) os .success ∈ own ∧
    .executed d (.write msg.path2.str bytes) os' .success ∈ own ∧
    (sh₀.disks s).ssRead os msg.path.str = (.success, bytes) ∧
    (sh₀.disks d).ssWrite os' msg.path2.str bytes = (.success, disk) ∧
    disks = Function.update sh₀.disks d disk

section Evidence

variable (net : Network) (sh₀ sh : Shared) (t : Threads) (own : List Event)

def Job.Copied : Job → Prop
  | copy msg source dest _ => ∃ s d os os',
      NetworkFileSystem.Copied net sh₀ sh.disks own msg source dest s d os os'
  | _ => True

/-- The source of a copy was read, and nothing has changed. -/
def CopyRead (s : Server) (m : Message) (bytes : List UInt8) : Prop :=
  sh.disks = sh₀.disks ∧ ∃ os, .executed s (.read m.path.str bytes) os .success ∈ own ∧
    (sh₀.disks s).ssRead os m.path.str = (.success, bytes)

/-- How far the storage servers have come with a copy. -/
def Job.Copying (job : Job) : SsNmThread → SsClientThread → Prop
  | .incoming _ _, _ => sh.disks = sh₀.disks
  | .copyRead s m bytes, _ | .copyAwaiting s m bytes, .incoming _ _ => CopyRead sh₀ sh own s m bytes
  | .copyAwaiting _ _ _, .answering _ response =>
    response.Succeeded → job.Copied net sh₀ sh own
  | .answering _ response, ssClient =>
    response.Succeeded → job.Copied net sh₀ sh own ∧ ¬ssClient.Busy
  | _, _ => True

/-- What a COPY_FILE has done that is answered with ACK. -/
def CopyDone (msg : Message) : Prop :=
  ∃ source dest, sh₀.nm.search msg.path.str = some source ∧
    sh.nm.search msg.path2.str = some dest ∧
    (∃ s d os os', Copied net sh₀ sh.disks own msg source dest s d os os') ∧
    ¬t.ssNm.Busy ∧ ¬t.ssClient.Busy

/-- What has happened since the start of a request that runs alone, if it is a COPY_FILE. -/
def CopyState : Prop :=
  match t.nm with
  | .idle | .incoming _ | .received _ => Intact sh₀ sh ∧ sh.disks = sh₀.disks
  | .copyFound msg source | .copyUnplaced msg source =>
    Intact sh₀ sh ∧ sh.disks = sh₀.disks ∧ sh₀.nm.search msg.path.str = some source
  | .connecting job => job.msg.operation = .copyFile →
    Intact sh₀ sh ∧ job.Placed sh₀ ∧ sh.disks = sh₀.disks
  | .awaiting job => job.msg.operation = .copyFile →
    Intact sh₀ sh ∧ job.Placed sh₀ ∧ job.Copying net sh₀ sh own t.ssNm t.ssClient
  | .concluding job => job.msg.operation = .copyFile → Intact sh₀ sh ∧ job.Placed sh₀ ∧
    job.Copied net sh₀ sh own ∧ ¬t.ssNm.Busy ∧ ¬t.ssClient.Busy
  | .answering msg reply => msg.operation = .copyFile → reply.Succeeded →
    CopyDone net sh₀ sh t own msg
  | .finished => ∀ msg reply, .answered msg reply ∈ own → msg.operation = .copyFile →
    reply.Succeeded → CopyDone net sh₀ sh t own msg
  | _ => True

end Evidence

section Steps

variable {net : Network} {r : ℕ} {sh₀ sh sh' : Shared} {t t' : Threads} {a : Action}
  {own es : List Event} {job : Job} {msg : Message}

theorem Intact.refl (sh : Shared) : Intact sh sh := ⟨fun _ => rfl, fun _ => rfl⟩

/-- The storage servers are not at work, and the naming server is where it was. -/
theorem Transition.idle_ss (h : Transition net r sh t a sh' t' es) (hnm : t'.nm = t.nm)
    (hclient : t.client ≠ .idle) (hssNm : ¬t.ssNm.Busy) (hssClient : ¬t.ssClient.Busy)
    (hcontact : ∀ msg reply, t.client = .replied msg reply → ¬msg.IsLookup) :
    sh' = sh ∧ t'.ssNm = t.ssNm ∧ t'.ssClient = t.ssClient ∧
      ∀ msg reply, .answered msg reply ∉ es := by
  cases h with
  | ssRefuse hss =>
      rcases hss with ⟨hss, -⟩ | ⟨_, hss⟩ <;> simp [SsNmThread.Busy, hss] at hssNm
  | refuse href =>
      change NmThread.answering _ _ = t.nm at hnm
      rw [← hnm] at href
      cases href
  | _ => simp_all [SsNmThread.Busy, SsClientThread.Busy, Threads.answer]

theorem Transition.nm_kept (h : Transition net r sh t a sh' t' es) (hnm : t'.nm = t.nm)
    (hclient : t.client ≠ .idle) : sh'.nm = sh.nm := by
  cases h with
  | refuse => rfl
  | _ => simp_all [Threads.answer]

theorem Copied.append {disks : Server → Disk} {source dest : Slot} {s d : Server} {os os' : Os}
    (h : Copied net sh₀ disks own msg source dest s d os os') (es : List Event) :
    Copied net sh₀ disks (own ++ es) msg source dest s d os os' := by
  obtain ⟨hs, hd, bytes, disk, hread, hwrite, h⟩ := h
  exact ⟨hs, hd, bytes, disk, List.mem_append_left _ hread, List.mem_append_left _ hwrite, h⟩

/-- Nobody has asked the client handler, unless a reply got lost. -/
theorem Job.Copying.of_unasked {ssNm : SsNmThread} {ssClient ssClient' : SsClientThread}
    {own' : List Event} (hc : job.Copying net sh₀ sh own ssNm ssClient)
    (ht : Tried msg own ssNm ssClient) (hlost : .lostReply ∈ own) (hbusy : ssClient.Busy)
    (hne : ∀ s m bytes, ssNm ≠ .copyAwaiting s m bytes) :
    job.Copying net sh₀ sh' own' ssNm ssClient' := by
  cases ssNm with
  | incoming s m => exact absurd hlost (Pristine.lost ht)
  | copyRead s m bytes => exact absurd hlost (Pristine.lost ht)
  | copyAwaiting s m bytes => exact absurd rfl (hne s m bytes)
  | answering s response => exact fun hack => absurd hbusy (hc hack).2
  | idle | finished => trivial

/-- A step of the storage servers while the naming server waits for a copy. -/
theorem Job.Copying.step {source dest : Slot} {isNew : Bool}
    (hc : (Job.copy msg source dest isNew).Copying net sh₀ sh own t.ssNm t.ssClient)
    (hintact : Intact sh₀ sh) (hnm : t.nm = .awaiting (.copy msg source dest isNew))
    (hl : Linked t own)
    (he : (Job.copy msg source dest isNew).Serving net sh.nm.address own t.ssNm t.ssClient)
    (ht : Tried msg own t.ssNm t.ssClient) (h : Transition net r sh t a sh' t' es)
    (hnm' : t'.nm = .awaiting (.copy msg source dest isNew)) :
    (Job.copy msg source dest isNew).Copying net sh₀ sh' (own ++ es) t'.ssNm t'.ssClient := by
  have hunasked : (∀ s m bytes, t.ssNm ≠ .copyAwaiting s m bytes) → t.ssClient.Busy →
      (Job.copy msg source dest isNew).Copying net sh₀ sh' (own ++ es) t.ssNm t'.ssClient := by
    intro hne hbusy
    exact hc.of_unasked ht (hl.lost_of_unasked hnm hne hbusy) hbusy hne
  cases h with
  | quit =>
      rw [List.append_nil]
      exact hc
  | contact hclient => cases hnm.symm.trans (hl.answered _ _ (hl.replied _ _ hclient)).1
  | served hclient => cases hnm.symm.trans (hl.contacted hclient)
  | refuse href => simp [hnm, NmThread.refusable] at href
  | ssCreate hss hop =>
      rw [hss] at he
      cases hop.symm.trans he.2.1.1
  | ssDelete hss hop =>
      rw [hss] at he
      cases hop.symm.trans he.2.1.1
  | @ssRead os s m bytes hss hop hdisk =>
      rw [hss] at hc
      have hsame : sh.disks = sh₀.disks := hc
      rw [hsame] at hdisk
      exact ⟨hsame, os, by simp, Disk.readFile_eq_success hdisk⟩
  | ssReadFailed | ssRefuse | ssLostResponse =>
      exact fun hack => absurd hack (Message.nack_not_succeeded _)
  | ssLost => trivial
  | relay hss =>
      rw [hss] at hc
      rw [List.append_nil]
      exact hc
  | @relayed os s m bytes d response hss hdest =>
      rw [hss, hdest] at hc
      rw [List.append_nil]
      intro hack
      have hresponse : response.Succeeded := by
        by_contra hnot
        rw [if_neg hnot] at hack
        exact Message.nack_not_succeeded _ hack
      exact ⟨hc hresponse, fun hbusy => hbusy.2 rfl⟩
  | @serve os s m response _ hss hop hes =>
      by_cases hcopy : ∃ s m bytes, t.ssNm = .copyAwaiting s m bytes
      · obtain ⟨s', m', bytes, hcopy⟩ := hcopy
        rw [hcopy, hss] at he
        rw [he.2.2] at hop
        exact absurd rfl hop
      · exact hunasked (fun s m bytes hc => hcopy ⟨s, m, bytes, hc⟩)
          (by simp [SsClientThread.Busy, hss])
  | @ssWrite os s m code disk hss hop hdisk =>
      by_cases hcopy : ∃ s m bytes, t.ssNm = .copyAwaiting s m bytes
      · obtain ⟨s', m', bytes, hcopy⟩ := hcopy
        rw [hcopy, hss] at he hc
        rw [hcopy]
        intro hack
        rw [(Message.result_succeeded_iff _).mp hack] at hdisk ⊢
        obtain ⟨hsame, os₀, hread, hbytes⟩ := hc
        obtain ⟨⟨msg', source', dest', isNew', os₁, hjob, hs, hreq, hlen, -⟩, hdest, rfl⟩ := he
        obtain ⟨rfl, rfl, rfl, rfl⟩ := Job.copy.inj hjob
        obtain ⟨-, hpath, hpath2, hlt, haddress⟩ := hreq
        have hwrite := Disk.writeFile_eq_success hdisk
        rw [Message.path_writeRequest m' bytes hlt, Message.payload_writeRequest m' hlen,
          hpath2] at hwrite ⊢
        rw [hpath] at hread hbytes
        rw [hsame] at hwrite
        have hsource : net.nmServer (sh₀.nm.address source) = some s' := by
          rw [← hintact.address]
          exact hs
        have hdest' : net.clientServer (sh₀.nm.address dest) = some s := by
          rw [← hintact.address, ← haddress]
          exact hdest
        refine ⟨s', s, os₀, os, hsource, hdest', bytes, disk, ?_, ?_, hbytes, hwrite, ?_⟩
        · exact List.mem_append_left _ hread
        · simp
        · exact congrArg (Function.update · s disk) hsame
      · exact hunasked (fun s m bytes hc => hcopy ⟨s, m, bytes, hc⟩)
          (by simp [SsClientThread.Busy, hss])
  | ssClientLost hss =>
      by_cases hcopy : ∃ s m bytes, t.ssNm = .copyAwaiting s m bytes
      · obtain ⟨s, m, bytes, hcopy⟩ := hcopy
        rw [hcopy]
        trivial
      · exact hunasked (fun s m bytes hc => hcopy ⟨s, m, bytes, hc⟩)
          (by simp [SsClientThread.Busy, hss])
  | _ => simp_all [Threads.answer]

/-- A step of another thread than that of the naming server. -/
theorem CopyState.step_of_same (hc : CopyState net sh₀ sh t own) (hfits : t.nm.Fits)
    (hl : Linked t own) (he : t.Evidence net sh.nm.address own) (hcandid : t.Candid own)
    (hclient : t.client ≠ .idle) (h : Transition net r sh t a sh' t' es) (hnm' : t'.nm = t.nm) :
    CopyState net sh₀ sh' t' (own ++ es) := by
  have hkept := h.nm_kept hnm' hclient
  have hreplied : ∀ msg reply, t.client = .replied msg reply → t.nm = .finished := fun _ _ hr =>
    (hl.answered _ _ (hl.replied _ _ hr)).1
  have hidle := h.idle_ss hnm' hclient
  unfold CopyState at hc ⊢
  unfold Threads.Evidence at he
  rw [hnm']
  by_cases hunforwarded : t.nm.Unforwarded
  · obtain ⟨hssNm, hssClient⟩ := hl.unforwarded hunforwarded
    obtain ⟨rfl, -⟩ := hidle (fun hb => hb.1 hssNm) (fun hb => hb.1 hssClient) fun _ _ hr => by
      rw [hreplied _ _ hr] at hunforwarded
      exact hunforwarded.elim
    cases hnm : t.nm with
    | awaiting | concluding | answering | finished =>
        rw [hnm] at hunforwarded
        exact hunforwarded.elim
    | _ =>
        rw [hnm] at hc
        exact hc
  · -- a positive reply to a COPY_FILE leaves no storage server at work
    have hdone : ∀ msg, msg.operation = .copyFile →
        (∀ msg' reply, t.client = .replied msg' reply → msg' = msg) →
        ¬t.ssNm.Busy → ¬t.ssClient.Busy →
        sh' = sh ∧ t'.ssNm = t.ssNm ∧ t'.ssClient = t.ssClient ∧
          ∀ msg reply, .answered msg reply ∉ es := by
      intro msg hop hone hssNm hssClient
      refine hidle hssNm hssClient fun msg' reply hr hlookup => ?_
      rw [hone msg' reply hr] at hlookup
      simp [Message.IsLookup, hop] at hlookup
    cases hnm : t.nm with
    | awaiting job =>
        rw [hnm] at hc he hfits
        intro hcopy
        obtain ⟨hintact, hplaced, hcopying⟩ := hc hcopy
        cases job with
        | create | delete => cases hcopy.symm.trans hfits
        | copy msg source dest isNew =>
            refine ⟨⟨fun q => ?_, fun j => ?_⟩, hplaced, ?_⟩
            · rw [hkept]
              exact hintact.search q
            · rw [hkept]
              exact hintact.address j
            · exact hcopying.step hintact hnm hl he (hcandid.awaiting _ hnm) h (hnm'.trans hnm)
    | concluding job =>
        rw [hnm] at hc hfits
        intro hcopy
        obtain ⟨hintact, hplaced, hcopied, hssNm, hssClient⟩ := hc hcopy
        obtain ⟨rfl, hssNm', hssClient', -⟩ := hdone job.msg hcopy
          (fun msg reply hr => by cases hnm.symm.trans (hreplied msg reply hr)) hssNm hssClient
        rw [hssNm', hssClient']
        refine ⟨hintact, hplaced, ?_, hssNm, hssClient⟩
        cases job with
        | create | delete => trivial
        | copy msg source dest isNew =>
            obtain ⟨s, d, os, os', hcopied⟩ := hcopied
            exact ⟨s, d, os, os', hcopied.append es⟩
    | answering msg reply =>
        rw [hnm] at hc
        intro hop hack
        obtain ⟨source, dest, hsource, hdest, ⟨s, d, os, os', hcopied⟩, hssNm, hssClient⟩ :=
          hc hop hack
        obtain ⟨rfl, hssNm', hssClient', -⟩ := hdone msg hop
          (fun msg reply hr => by cases hnm.symm.trans (hreplied msg reply hr)) hssNm hssClient
        exact ⟨source, dest, hsource, hdest, ⟨s, d, os, os', hcopied.append es⟩, hssNm' ▸ hssNm,
          hssClient' ▸ hssClient⟩
    | finished =>
        rw [hnm] at hc
        intro msg reply hmem hop hack
        have hold : .answered msg reply ∈ own := by
          refine (List.mem_append.mp hmem).resolve_right fun hnew => ?_
          cases hnm.symm.trans (h.of_answered hnew).1
        obtain ⟨source, dest, hsource, hdest, ⟨s, d, os, os', hcopied⟩, hssNm, hssClient⟩ :=
          hc msg reply hold hop hack
        obtain ⟨rfl, hssNm', hssClient', -⟩ := hdone msg hop
          (fun msg' reply' hr => ((hl.answered _ _ hold).2 _ _ (hl.replied _ _ hr)).1)
          hssNm hssClient
        exact ⟨source, dest, hsource, hdest, ⟨s, d, os, os', hcopied.append es⟩, hssNm' ▸ hssNm,
          hssClient' ▸ hssClient⟩
    | deleteDropped msg slot => trivial
    | _ =>
        rw [hnm] at hunforwarded
        exact absurd trivial hunforwarded

/-- A step of the naming server. -/
theorem CopyState.step_of_ne (hc : CopyState net sh₀ sh t own) (hfits : t.nm.Fits)
    (hl : Linked t own) (hclient : t.client ≠ .idle) (h : Transition net r sh t a sh' t' es)
    (hnm' : t'.nm ≠ t.nm) : CopyState net sh₀ sh' t' (own ++ es) := by
  have hnone : t.nm ≠ .finished → ∀ msg reply, .answered msg reply ∉ own :=
    fun hne msg reply hmem => hne (hl.answered msg reply hmem).1
  unfold CopyState at hc ⊢
  cases h with
  | submit hidle => exact absurd hidle hclient
  | receive hnm =>
      rw [hnm] at hc
      exact hc
  | lostRequest hnm =>
      intro msg reply hmem
      rw [List.append_nil] at hmem
      exact absurd hmem (hnone (by simp [hnm]) msg reply)
  | refuse | lookupFailed | failed | lostResponse =>
      exact fun _ hack => absurd hack (Message.nack_not_succeeded _)
  | list hnm hop => exact fun hcopy => by cases hop.symm.trans hcopy
  | registerEnd hnm =>
      rw [hnm] at hfits
      exact fun hcopy => by cases (hfits : _ = OperationType.registerSs).symm.trans hcopy
  | hit hnm hmsg => exact fun hcopy => absurd hmsg (by simp [Message.IsLookup, hcopy])
  | fill hnm =>
      rw [hnm] at hfits
      exact fun hcopy => absurd hfits (by simp [NmThread.Fits, Message.IsLookup, hcopy])
  | findDelete hnm hop => exact fun hcopy => by cases hop.symm.trans hcopy
  | pickCreate hnm =>
      rw [hnm] at hfits
      exact fun hcopy => by cases (hfits : _ = OperationType.createFile).symm.trans hcopy
  | findSource hnm hop hsearch =>
      rw [hnm] at hc
      exact ⟨hc.1, hc.2, (hc.1.search _).symm.trans hsearch⟩
  | findTarget hnm hsearch =>
      rw [hnm] at hc
      exact fun _ => ⟨hc.1, ⟨hc.2.2, fun _ => (hc.1.search _).symm.trans hsearch⟩, hc.2.1⟩
  | noTarget hnm =>
      rw [hnm] at hc
      exact hc
  | pickTarget hnm _ hpick =>
      rw [hnm] at hc
      obtain ⟨hsearch, haddress, -⟩ := NamingServer.getAvailableSsForCreation_frame hpick
      exact fun _ => ⟨⟨fun q => (hsearch q).trans (hc.1.search q),
        fun j => (haddress j).trans (hc.1.address j)⟩, ⟨hc.2.2, fun h => by cases h⟩, hc.2.1⟩
  | forward hnm =>
      rw [hnm] at hc
      exact hc
  | @succeeded job s response hnm hss hresponse =>
      rw [hnm] at hc
      intro hcopy
      obtain ⟨hintact, hplaced, hcopying⟩ := hc hcopy
      rw [hss] at hcopying
      obtain ⟨hcopied, hssClient⟩ := hcopying hresponse
      rw [List.append_nil]
      exact ⟨hintact, hplaced, hcopied, fun hbusy => hbusy.2 rfl, hssClient⟩
  | recordCreate hnm =>
      rw [hnm] at hfits
      exact fun hcopy => by cases (hfits : _ = OperationType.createFile).symm.trans hcopy
  | forget hnm =>
      rw [hnm] at hfits
      exact fun hcopy => by cases (hfits : _ = OperationType.deleteFile).symm.trans hcopy
  | @recordCopy msg source dest hnm =>
      rw [hnm] at hc
      intro hcopy _
      obtain ⟨hintact, ⟨hsource, -⟩, ⟨s, d, os, os', hcopied⟩, hssNm, hssClient⟩ := hc hcopy
      refine ⟨source, dest, hsource, ?_, ⟨s, d, os, os', hcopied.append _⟩, hssNm, hssClient⟩
      exact (NamingServer.search_recordPath _ _ _ _).trans (if_pos rfl)
  | @keepCopy msg source dest hnm =>
      rw [hnm] at hc
      intro hcopy _
      obtain ⟨hintact, ⟨hsource, hdest⟩, ⟨s, d, os, os', hcopied⟩, hssNm, hssClient⟩ := hc hcopy
      exact ⟨source, dest, hsource, (hintact.search _).trans (hdest rfl),
        ⟨s, d, os, os', hcopied.append _⟩, hssNm, hssClient⟩
  | @answer msg reply hnm =>
      rw [hnm] at hc
      intro msg' reply' hmem hcopy hack
      rcases List.mem_append.mp hmem with hold | hnew
      · exact absurd hold (hnone (by simp [hnm]) msg' reply')
      · obtain ⟨rfl, rfl⟩ : msg' = msg ∧ reply' = reply := by simpa using hnew
        obtain ⟨source, dest, hsource, hdest, ⟨s, d, os, os', hcopied⟩, hss⟩ := hc hcopy hack
        exact ⟨source, dest, hsource, hdest, ⟨s, d, os, os', hcopied.append _⟩, hss⟩
  | registerStart | registerPath | checkCreate | miss | lookupFind | drop => trivial
  | _ => exact absurd rfl hnm'

end Steps

/-! ### Runs -/

variable {net : Network} {sh : Shared} {w : World} {as : List (ℕ × Action)} {r : ℕ}
  {msg reply : Message}

theorem copyState_of_run (hns : sh.nm.WellFormed) (halone : ∀ a ∈ as, a.1 = r)
    (hrun : run (step net) (start sh) as = some w) :
    CopyState net sh w.shared (w.locals r) (w.own r) := by
  have hsteps : EachStep (step net) (fun _ a => a.1 = r) (start sh) as :=
    ((eachStep_true _ _).and_forall halone).mono fun _ _ h => h.2
  refine world_invariant (C := fun _ a => a.1 = r)
    (I := fun w => CopyState net sh w.shared (w.locals r) (w.own r)) ?_ ?_ hsteps hrun
  · rintro pre w q a x hpre hI rfl h
    rw [shared_after, locals_after_self, own_after_self]
    have hl := linked_of_run hpre q
    by_cases hclient : (w.locals q).client = .idle
    · obtain ⟨hstart, hown⟩ := hl.fresh hclient
      rw [hstart] at h hI
      obtain ⟨msg, -, -, hsh, hes, ht⟩ := h.of_start
      rw [hsh, ht]
      exact hI
    · by_cases hnm : x.2.1.nm = (w.locals q).nm
      · exact hI.step_of_same (fits_of_run hpre q) hl (evidence_of_run hns hpre q)
          (candid_of_run hpre q) hclient h hnm
      · exact hI.step_of_ne (fits_of_run hpre q) hl hclient h hnm
  · exact ⟨.refl sh, rfl⟩

/-- The destination holds what the source held before, and so does the source. -/
def Faithful (before after : Server → Disk) (s d : Server) (path path2 : Path) : Prop :=
  after d path2 = before s path ∧ after s path = before s path

/-- The source is a regular file that fits the buffer of a message, the system calls deliver and
store all of it, and the destination is no special file. -/
def Copyable (disks : Server → Disk) (s d : Server) (os os' : Os) (path path2 : Path) : Prop :=
  ∃ content, disks s path = some (.file content) ∧ content.length ≤ maxDataSize - 1 ∧
    content.length ≤ os.readable ∧ content.length ≤ os'.flushed ∧ disks d path2 ≠ some .special

theorem Copied.faithful_iff {disks : Server → Disk} {own : List Event} {source dest : Slot}
    {s d : Server} {os os' : Os} (h : Copied net sh disks own msg source dest s d os os')
    (hsource : sh.disks s msg.path.str ≠ some .special) :
    Faithful sh.disks disks s d msg.path.str msg.path2.str ↔
      Copyable sh.disks s d os os' msg.path.str msg.path2.str := by
  obtain ⟨-, -, bytes, disk, -, -, hread, hwrite, rfl⟩ := h
  refine Iff.trans ?_ (Disk.copied_iff hsource hread hwrite)
  rw [Faithful, Function.update_self]
  refine and_iff_left_of_imp fun hcopied => ?_
  by_cases hs : s = d
  · subst hs
    rw [Function.update_self]
    by_cases hpath : msg.path.str = msg.path2.str
    · rw [hpath] at hcopied ⊢
      exact hcopied
    · rcases (sh.disks s).ssWrite_cases os' msg.path2.str bytes with hfail |
        ⟨code, disk', hsame, -, -, hother⟩
      · cases hwrite.symm.trans hfail
      · obtain ⟨-, rfl⟩ := Prod.mk.inj (hwrite.symm.trans hsame)
        exact hother _ hpath
  · rw [Function.update_of_ne hs]

/-- A COPY_FILE that runs alone and is answered with ACK has copied its source faithfully exactly
if the source was copyable. -/
theorem copy_faithful_iff (hns : sh.nm.WellFormed) (halone : ∀ a ∈ as, a.1 = r)
    (hrun : run (step net) (start sh) as = some w)
    (hanswer : (r, .answered msg reply) ∈ w.history) (hop : msg.operation = .copyFile)
    (hack : reply.Succeeded) :
    ∃ source dest s d os os' bytes, sh.nm.search msg.path.str = some source ∧
      w.shared.nm.search msg.path2.str = some dest ∧
      net.nmServer (sh.nm.address source) = some s ∧
      net.clientServer (sh.nm.address dest) = some d ∧
      (r, .executed s (.read msg.path.str bytes) os .success) ∈ w.history ∧
      (r, .executed d (.write msg.path2.str bytes) os' .success) ∈ w.history ∧
      (sh.disks s msg.path.str ≠ some .special →
        (Faithful sh.disks w.shared.disks s d msg.path.str msg.path2.str ↔
          Copyable sh.disks s d os os' msg.path.str msg.path2.str)) := by
  have hmem := mem_own.mpr hanswer
  have hstate := copyState_of_run hns halone hrun
  rw [CopyState, ((linked_of_run hrun r).answered _ _ hmem).1] at hstate
  obtain ⟨source, dest, hsource, hdest, ⟨s, d, os, os', hcopied⟩, -⟩ := hstate _ _ hmem hop hack
  have hfaithful := hcopied.faithful_iff
  obtain ⟨hs, hd, bytes, disk, hread, hwrite, -⟩ := hcopied
  exact ⟨source, dest, s, d, os, os', bytes, hsource, hdest, hs, hd, mem_own.mp hread,
    mem_own.mp hwrite, hfaithful⟩

/-- The server 0 has the object at `/a`. -/
def serverWithA (object : FileObject) : Shared :=
  { twoServers with
    nm := twoServers.nm.recordPath createA.path.str 0
    disks := Function.update twoServers.disks 0
      (Function.update (twoServers.disks 0) createA.path.str (some object)) }

/-- A COPY_FILE of `/a` to `/b`, from the request to the reply. -/
def copyAToB : List (ℕ × Action) :=
  [(0, .submit { createA with operation := .copyFile, path2 := .ofBytes _ [47, 98] }), (0, .nm),
    (0, .nm), (0, .nm), (0, .nm), (0, .nm), (0, .ssNm .ok), (0, .ssNm .ok), (0, .ssClient .ok),
    (0, .ssNm .ok), (0, .nm), (0, .nm), (0, .nm)]

/-- The positive reply to the COPY_FILE of `/a` to `/b`. -/
def Event.CopiesAToB : Event → Bool
  | answered msg reply => decide (msg.operation = .copyFile ∧ reply.Succeeded ∧
      msg.path.str = [47, 97] ∧ msg.path2.str = [47, 98])
  | _ => false

theorem Event.CopiesAToB.exists_answered {e : Event} (h : e.CopiesAToB) :
    ∃ msg reply, e = .answered msg reply ∧ msg.operation = .copyFile ∧ reply.Succeeded ∧
      msg.path.str = [47, 97] ∧ msg.path2.str = [47, 98] := by
  cases e with
  | answered msg reply => exact ⟨msg, reply, rfl, of_decide_eq_true h⟩
  | _ => cases h

/-- A directory is copied to an empty file. -/
theorem copied_directory_unfaithful : ∃ w msg reply,
    run (step portNetwork) (start (serverWithA .dir)) copyAToB = some w ∧
      (0, .answered msg reply) ∈ w.history ∧ msg.operation = .copyFile ∧ reply.Succeeded ∧
      w.shared.disks 0 msg.path2.str = some (.file []) ∧
      ¬Faithful (serverWithA .dir).disks w.shared.disks 0 0 msg.path.str msg.path2.str := by
  have hany : (run (step portNetwork) (start (serverWithA .dir)) copyAToB).any fun w =>
      (w.history.any fun e => decide (e.1 = 0) && e.2.CopiesAToB) &&
        decide (w.shared.disks 0 [47, 98] = some (.file [])) := by decide +kernel
  obtain ⟨w, hrun, hw⟩ := (Option.any_eq_true _ _).mp hany
  obtain ⟨hanswered, hdisk⟩ := Bool.and_eq_true_iff.mp hw
  obtain ⟨⟨q, e⟩, he, hcopies⟩ := List.any_eq_true.mp hanswered
  obtain ⟨hq, hcopies⟩ := Bool.and_eq_true_iff.mp hcopies
  obtain rfl : q = 0 := of_decide_eq_true hq
  obtain ⟨msg, reply, rfl, hop, hack, hpath, hpath2⟩ := Event.CopiesAToB.exists_answered hcopies
  have hfile : w.shared.disks 0 [47, 98] = some (.file []) := of_decide_eq_true hdisk
  have hdir : (serverWithA .dir).disks 0 [47, 97] = some .dir := by decide +kernel
  refine ⟨w, msg, reply, hrun, he, hop, hack, hpath2 ▸ hfile, fun hfaithful => ?_⟩
  rw [Faithful, hpath, hpath2, hfile, hdir] at hfaithful
  cases hfaithful.1

@[simp] theorem search_serverWithA (object : FileObject) (path : Path) :
    (serverWithA object).nm.search path = if path = createA.path.str then some 0 else none := by
  have hempty : twoServers.nm.search path = none :=
    NamingServer.search_init path (fun _ => none : IdealCache)
  rw [← hempty]
  exact NamingServer.search_recordPath _ _ _ _

theorem address_serverWithA (object : FileObject) (slot : Slot) :
    (serverWithA object).nm.address slot = twoServers.nm.address slot :=
  NamingServer.address_recordPath _ _ _ _

theorem wellFormed_serverWithA (object : FileObject) : (serverWithA object).nm.WellFormed where
  trie path slot h := by
    rw [search_serverWithA] at h
    split_ifs at h
    obtain rfl := Option.some.inj h
    exact Nat.zero_lt_two
  cursor := Nat.zero_le _
  ip slot _ := by
    have hip : ((serverWithA object).nm.registeredSs slot).ip = [49] :=
      congrArg Prod.fst (address_serverWithA object slot)
    rw [hip]
    decide

/-- An operation was performed by the server 0, without a short read or a short write. -/
def Event.ServedWhole : Event → Bool
  | executed s _ os _ => decide (s = 0 ∧ 2 ≤ os.readable ∧ 2 ≤ os.flushed)
  | _ => true

theorem copy_faithful_iff_file : ∃ w msg reply,
    run (step portNetwork) (start (serverWithA (.file [104, 105]))) copyAToB = some w ∧
      (0, .answered msg reply) ∈ w.history ∧ msg.operation = .copyFile ∧ reply.Succeeded ∧
      w.shared.disks 0 msg.path2.str = some (.file [104, 105]) := by
  have hany : (run (step portNetwork) (start (serverWithA (.file [104, 105]))) copyAToB).any
      fun w => (w.history.any fun e => decide (e.1 = 0) && e.2.CopiesAToB) &&
        w.history.all fun e => e.2.ServedWhole := by decide +kernel
  obtain ⟨w, hrun, hw⟩ := (Option.any_eq_true _ _).mp hany
  obtain ⟨hanswered, hexecuted⟩ := Bool.and_eq_true_iff.mp hw
  obtain ⟨⟨q, e⟩, he, hcopies⟩ := List.any_eq_true.mp hanswered
  obtain ⟨hq, hcopies⟩ := Bool.and_eq_true_iff.mp hcopies
  obtain rfl : q = 0 := of_decide_eq_true hq
  obtain ⟨msg, reply, rfl, hop, hack, hpath, hpath2⟩ := Event.CopiesAToB.exists_answered hcopies
  obtain ⟨source, dest, s, d, os, os', bytes, -, -, -, -, hread, hwrite, hfaithful⟩ :=
    copy_faithful_iff (wellFormed_serverWithA _) (by decide) hrun he hop hack
  obtain ⟨rfl, hreadable, -⟩ := of_decide_eq_true (List.all_eq_true.mp hexecuted _ hread)
  obtain ⟨rfl, -, hflushed⟩ := of_decide_eq_true (List.all_eq_true.mp hexecuted _ hwrite)
  have hfile : (serverWithA (.file [104, 105])).disks 0 msg.path.str =
      some (.file [104, 105]) := by
    rw [hpath]
    decide +kernel
  have habsent : (serverWithA (.file [104, 105])).disks 0 msg.path2.str = none := by
    rw [hpath2]
    decide +kernel
  have hcopy := (hfaithful (by simp [hfile])).mpr
    ⟨_, hfile, by decide, hreadable, hflushed, by simp [habsent]⟩
  exact ⟨w, msg, reply, hrun, he, hop, hack, hcopy.1.trans hfile⟩

end NetworkFileSystem
