import NetworkFileSystem.PathAliases
import NetworkFileSystem.PathOrder
import NetworkFileSystem.Library.Linearizability

/-!
# One server with one disk

The purpose of the whole system: to its clients it looks like a single server whose disk holds the
files of all registered storage servers. A registration adds the files that the new server brings.
-/

namespace NetworkFileSystem

/-- What the clients can tell of the system. -/
structure OneDisk where
  disk : Disk
  servers : ℕ

namespace OneDisk

def empty : OneDisk := ⟨fun _ => none, 0⟩

/-- The files of a new server appear. -/
def mount (st : OneDisk) (paths : List Path) (brought : Disk) : OneDisk where
  disk := fun p => if p ∈ paths then brought p else st.disk p
  servers := st.servers + 1

/-- The naming server passes the request on and acknowledges the outcome. -/
def pass (st : OneDisk) (link : Link) (served : Message × Disk) : Exchange × OneDisk :=
  (.replied (link.exchange st.disk served).1.copyReply,
    { st with disk := (link.exchange st.disk served).2 })

/-- The client goes to the disk itself. -/
def visit (st : OneDisk) (link : Link) (served : Message × Disk) : Exchange × OneDisk :=
  ((link.exchange st.disk served).1, { st with disk := (link.exchange st.disk served).2 })

/-- Read the source, and write the bytes to the destination. -/
def copied (disk : Disk) (req : ClientRequest) : Message × Disk :=
  let read := disk.readFile req.os req.msg
  if read.1 = .success then
    let written := req.copyLink.exchange disk
      (serve disk req.copyOs (.writeRequest req.msg read.2))
    (written.1.copyReply, written.2)
  else (.nack read.1, disk)

def refuse (st : OneDisk) (code : ErrorCode) : Exchange × OneDisk := (.replied (.nack code), st)

/-- The paths that LIST_PATHS names are the first ten in order. -/
def Lists (disk : Disk) (paths : List Path) : Prop :=
  ∃ all, InOrder all ∧ (∀ p, p ∈ all ↔ disk p ≠ none) ∧ paths = all.take maxAccessiblePaths

/-- The answer to a request and the disk that it leaves, where `brought` tells which files a new
server has. -/
def Handles (brought : Message → Disk) (st : OneDisk) (req : ClientRequest) (x : Exchange)
    (st' : OneDisk) : Prop :=
  let path := req.msg.path.str
  let served := serve st.disk req.os req.msg
  match req.msg.operation with
  | .registerSs =>
    (x, st') = if st.servers < maxSs then
        (.replied .ack, st.mount req.msg.listedPaths (brought req.msg))
      else st.refuse .ssUnavailable
  | .listPaths =>
    st' = st ∧ if req.malloc then ∃ paths, Lists st.disk paths ∧ x = .replied (.pathList paths)
      else x = .replied (.nack .networkError)
  | .createFile =>
    (x, st') = if st.disk path ≠ none then st.refuse .fileExists
      else if st.servers = 0 then st.refuse .ssUnavailable
      else st.pass req.link served
  | .deleteFile =>
    (x, st') = if st.disk path = none then st.refuse .fileNotFound else st.pass req.link served
  | .copyFile =>
    (x, st') = if st.disk path = none then st.refuse .fileNotFound
      else st.pass req.link (copied st.disk req)
  | .readFile | .writeFile | .getFileInfo =>
    (x, st') = if st.disk path = none then st.refuse .fileNotFound else st.visit req.link served
  | _ => (x, st') = st.refuse .invalidOperation

end OneDisk

/-! ### Serving at one path -/

section Serve

variable {disk disk' : Disk} {os : Os} {msg : Message} {path : Path}

theorem Disk.ssCreate_congr (os : Os) (type : FileType) (h : disk path = disk' path) :
    (disk.ssCreate os path type).1 = (disk'.ssCreate os path type).1 ∧
      (disk.ssCreate os path type).2 path = (disk'.ssCreate os path type).2 path := by
  rcases type with _ | _ | _ | _
  case file =>
    cases hopen : os.opened <;> rcases hd : disk' path with _ | _ | _ | _ <;>
      simp [ssCreate, openWrite, hopen, hd, h]
  case dir =>
    by_cases hmk : os.opened ∧ disk' path = none <;> simp [ssCreate, hmk, h]
  all_goals simp [ssCreate, h]

theorem Disk.ssDelete_congr (os : Os) (h : disk path = disk' path) :
    (disk.ssDelete os path).1 = (disk'.ssDelete os path).1 ∧
      (disk.ssDelete os path).2 path = (disk'.ssDelete os path).2 path := by
  unfold ssDelete
  rw [h]
  rcases os.found with _ | _ <;> rcases hd : disk' path with _ | _ | _ | _
  case true.some.file => split_ifs <;> simp [hd, h]
  case true.some.dir => dsimp only; split_ifs <;> simp [hd, h]
  all_goals simp [hd, h]

theorem Disk.ssWrite_congr (os : Os) (data : List UInt8) (h : disk path = disk' path) :
    (disk.ssWrite os path data).1 = (disk'.ssWrite os path data).1 ∧
      (disk.ssWrite os path data).2 path = (disk'.ssWrite os path data).2 path := by
  cases hopen : os.opened <;> rcases hd : disk' path with _ | _ | _ | _ <;>
    simp [ssWrite, openWrite, store, hopen, hd, h]

/-- The reply and the object left at the path depend on the object at the path. -/
theorem serve_congr (os : Os) (h : disk msg.path.str = disk' msg.path.str) :
    (serve disk os msg).1 = (serve disk' os msg).1 ∧
      (serve disk os msg).2 msg.path.str = (serve disk' os msg).2 msg.path.str := by
  by_cases hwrite : msg.operation = .writeFile
  · rw [serve_write hwrite, serve_write hwrite, Disk.writeFile, Disk.writeFile]
    split_ifs
    · have hcongr := Disk.ssWrite_congr os msg.payload h
      exact ⟨congrArg Message.result hcongr.1, hcongr.2⟩
    · exact ⟨rfl, h⟩
  by_cases hcreate : msg.operation = .createFile
  · rw [serve_create hcreate, serve_create hcreate, Disk.createFile, Disk.createFile]
    split_ifs
    · have hcongr := Disk.ssCreate_congr os msg.fileType h
      exact ⟨congrArg Message.result hcongr.1, hcongr.2⟩
    · exact ⟨rfl, h⟩
  by_cases hdelete : msg.operation = .deleteFile
  · rw [serve_delete hdelete, serve_delete hdelete, Disk.deleteFile, Disk.deleteFile]
    split_ifs
    · have hcongr := Disk.ssDelete_congr os h
      exact ⟨congrArg Message.result hcongr.1, hcongr.2⟩
    · exact ⟨rfl, h⟩
  rw [serve_disk_of_other hwrite hcreate hdelete, serve_disk_of_other hwrite hcreate hdelete]
  refine ⟨?_, h⟩
  have hread : disk.readFile os msg = disk'.readFile os msg := Disk.readFile_congr h
  have hinfo : disk.getFileInfo os msg = disk'.getFileInfo os msg := by
    unfold Disk.getFileInfo Disk.ssGetInfo
    rw [h]
  unfold serve
  rw [hread, hinfo]
  split <;> first | rfl | contradiction

/-- Only the object at the path changes. -/
theorem serve_disk_eq_update (disk : Disk) (os : Os) (msg : Message) :
    (serve disk os msg).2 =
      Function.update disk msg.path.str ((serve disk os msg).2 msg.path.str) := by
  funext q
  by_cases hq : q = msg.path.str
  · rw [hq, Function.update_self]
  · rw [Function.update_of_ne hq, serve_of_ne hq]

theorem serve_create_outcome (disk : Disk) (os : Os) (hop : msg.operation = .createFile) :
    ((serve disk os msg).1.Succeeded ∧ (serve disk os msg).2 msg.path.str ≠ none) ∨
      ¬ (serve disk os msg).1.Succeeded ∧ (serve disk os msg).2 = disk := by
  rw [serve_create hop]
  rcases disk.createFile_cases os msg with ⟨code, hcode, h⟩ | ⟨disk', h, hwritten⟩ <;> rw [h]
  · exact Or.inr ⟨(Message.result_succeeded_iff code).not.mpr hcode, rfl⟩
  · exact Or.inl ⟨(Message.result_succeeded_iff _).mpr rfl,
      Option.isSome_iff_ne_none.mp hwritten.1⟩

theorem serve_delete_outcome (disk : Disk) (os : Os) (hop : msg.operation = .deleteFile) :
    ((serve disk os msg).1.Succeeded ∧ (serve disk os msg).2 msg.path.str = none) ∨
      ¬ (serve disk os msg).1.Succeeded ∧ (serve disk os msg).2 = disk := by
  rw [serve_delete hop]
  rcases disk.deleteFile_cases os msg with ⟨code, hcode, h⟩ | ⟨-, h⟩ <;> rw [h]
  · exact Or.inr ⟨(Message.result_succeeded_iff code).not.mpr hcode, rfl⟩
  · exact Or.inl ⟨(Message.result_succeeded_iff _).mpr rfl, Function.update_self _ _ _⟩

/-- Only a deletion removes the object. -/
theorem serve_present (os : Os) (hop : msg.operation ≠ .deleteFile)
    (h : disk msg.path.str ≠ none) :
    (serve disk os msg).2 msg.path.str ≠ none := by
  by_cases hwrite : msg.operation = .writeFile
  · rw [serve_write hwrite]
    rcases disk.writeFile_cases os msg with ⟨_, -, -, heq⟩ | ⟨_, _, heq, -, hwritten⟩ <;> rw [heq]
    · exact h
    · exact Option.isSome_iff_ne_none.mp hwritten.1
  by_cases hcreate : msg.operation = .createFile
  · rcases serve_create_outcome disk os hcreate with ⟨-, hsome⟩ | ⟨-, hsame⟩
    · exact hsome
    · rwa [hsame]
  · rwa [serve_disk_of_other hwrite hcreate hop]

/-- A write that `fwrite` accepts as a whole stores an object or leaves the disk alone. -/
theorem serve_write_outcome (disk : Disk) (hop : msg.operation = .writeFile)
    (hwhole : maxDataSize ≤ os.writable) :
    ((serve disk os msg).1.Succeeded ∧ (serve disk os msg).2 msg.path.str ≠ none) ∨
      ¬ (serve disk os msg).1.Succeeded ∧ (serve disk os msg).2 = disk := by
  have hlen : msg.payload.length ≤ os.writable := (Store.length_payload_le msg).trans hwhole
  rw [serve_write hop, Disk.writeFile]
  split_ifs
  · cases hopen : disk.openWrite os msg.path.str with
    | none =>
        rw [Disk.ssWrite_of_openWrite_eq_none hopen]
        exact Or.inr ⟨(Message.result_succeeded_iff .permissionDenied).not.mpr (by decide), rfl⟩
    | some opened =>
        have hwrite : disk.ssWrite os msg.path.str msg.payload =
            (.success, opened.store msg.path.str
              (msg.payload.take (min os.writable os.flushed))) := by
          simp only [Disk.ssWrite, hopen, if_pos hlen]
        rw [hwrite]
        refine Or.inl ⟨(Message.result_succeeded_iff _).mpr rfl, ?_⟩
        rw [← Option.isSome_iff_ne_none, Disk.isSome_store]
        exact (Disk.openWrite_eq_some hopen).1
  · exact Or.inr ⟨(Message.result_succeeded_iff .fileInUse).not.mpr (by decide), rfl⟩

end Serve

/-! ### Copying -/

namespace OneDisk

variable {disk : Disk} {req : ClientRequest}

theorem copied_disk_eq_update : (copied disk req).2 =
    Function.update disk req.msg.path2.str ((copied disk req).2 req.msg.path2.str) := by
  have hpath : ∀ bytes, (Message.writeRequest req.msg bytes).path.str = req.msg.path2.str :=
    fun bytes => Message.path_writeRequest req.msg bytes req.sendable.2.1
  unfold copied
  dsimp only
  split_ifs
  · have hserve := serve_disk_eq_update disk req.copyOs
      (.writeRequest req.msg (disk.readFile req.os req.msg).2)
    rw [hpath] at hserve
    cases req.copyLink with
    | fails f => exact (Function.update_eq_self _ _).symm
    | works | lost => exact hserve
  · exact (Function.update_eq_self _ _).symm

/-- What a copy does to the destination, unless the reply of its server is lost or `fwrite` stores
only a part. -/
theorem copied_outcome (disk : Disk) (hlost : req.copyLink ≠ .lost)
    (hwhole : maxDataSize ≤ req.copyOs.writable) :
    ((copied disk req).1.Succeeded ∧ (copied disk req).2 req.msg.path2.str ≠ none) ∨
      ¬ (copied disk req).1.Succeeded ∧ (copied disk req).2 = disk := by
  have hpath : ∀ bytes, (Message.writeRequest req.msg bytes).path.str = req.msg.path2.str :=
    fun bytes => Message.path_writeRequest req.msg bytes req.sendable.2.1
  unfold copied
  dsimp only
  split_ifs with hread
  · cases hlink : req.copyLink with
    | works =>
        have houtcome := serve_write_outcome disk
          (show (Message.writeRequest req.msg (disk.readFile req.os req.msg).2).operation = _
            from rfl) hwhole
        rw [hpath] at houtcome
        refine houtcome.imp (And.imp_left fun hs => ?_) (And.imp_left fun hs => ?_)
        · simp [Link.exchange, Exchange.copyReply, Exchange.result, hs, Message.ack_succeeded]
        · simp [Link.exchange, Exchange.copyReply, Exchange.result, hs,
            Message.nack_not_succeeded]
    | fails f =>
        refine Or.inr ⟨?_, rfl⟩
        cases f <;> exact Message.nack_not_succeeded _
    | lost => exact absurd hlink hlost
  · exact Or.inr ⟨Message.nack_not_succeeded _, rfl⟩

theorem copied_present (h : disk req.msg.path2.str ≠ none) :
    (copied disk req).2 req.msg.path2.str ≠ none := by
  have hpath : ∀ bytes, (Message.writeRequest req.msg bytes).path.str = req.msg.path2.str :=
    fun bytes => Message.path_writeRequest req.msg bytes req.sendable.2.1
  unfold copied
  dsimp only
  split_ifs
  · have hserve : (serve disk req.copyOs
        (.writeRequest req.msg (disk.readFile req.os req.msg).2)).2
          (Message.writeRequest req.msg (disk.readFile req.os req.msg).2).path.str ≠ none :=
      serve_present req.copyOs (show OperationType.writeFile ≠ .deleteFile by decide)
        (by rwa [hpath])
    rw [hpath] at hserve
    cases req.copyLink with
    | fails f => exact h
    | works | lost => exact hserve
  · exact h

end OneDisk

/-! ### The servers -/

/-- The storage server behind a record, at both of its ports. -/
structure Listens (net : Network) (info : StorageServerInfo) (s : Server) : Prop where
  terminated : 0 ∉ info.ip ∧ info.ip.length < inetAddrStrLen
  nm : net.nmListener info.ip info.nmPort = some s
  client : net.clientListener info.ip info.clientPort = some s

theorem Listens.eq {net : Network} {info : StorageServerInfo} {s s' : Server}
    (h : Listens net info s) (h' : Listens net info s') : s = s' :=
  Option.some.inj (h.nm.symm.trans h'.nm)

theorem Listens.congr {net : Network} {info info' : StorageServerInfo} {s : Server}
    (h : Listens net info s) (haddress : info'.address = info.address) : Listens net info' s := by
  simp only [StorageServerInfo.address, Prod.mk.injEq] at haddress
  obtain ⟨hip, hnm, hclient⟩ := haddress
  exact ⟨hip ▸ h.terminated, hip ▸ hnm ▸ h.nm, hip ▸ hclient ▸ h.client⟩

section

variable {F : Type} [DecidableEq F] (net : Network) (resolve : Server → Path → F)

/-- The files of the cluster are those of the one disk, each at the server that the trie knows.
The servers that are not registered have the files that they had at the start. -/
structure Mirrors (files₀ : Files F) (cl : Cluster F) (st : OneDisk) : Prop where
  fresh : cl.nm.Fresh
  servers : st.servers = cl.nm.numRegisteredSs.val
  listening : ∀ slot : Slot, slot.val < cl.nm.numRegisteredSs.val →
    ∃ s, Listens net (cl.nm.registeredSs slot) s
  mapped : ∀ p, cl.nm.search p = none ↔ st.disk p = none
  strings : ∀ p, cl.nm.search p ≠ none → 0 ∉ p
  placed : ∀ p slot s, cl.nm.search p = some slot → Listens net (cl.nm.registeredSs slot) s →
    cl.files (resolve s p) = st.disk p
  only : ∀ (slot : Slot) s p, slot.val < cl.nm.numRegisteredSs.val →
    Listens net (cl.nm.registeredSs slot) s → cl.files (resolve s p) ≠ none →
    ∃ home, cl.nm.search p = some home ∧ Listens net (cl.nm.registeredSs home) s
  untouched : ∀ s, (∀ slot : Slot, slot.val < cl.nm.numRegisteredSs.val →
    ¬ Listens net (cl.nm.registeredSs slot) s) → ∀ p, cl.files (resolve s p) = files₀ (resolve s p)

variable {net resolve} {files₀ : Files F} {cl : Cluster F} {st : OneDisk}
  {nm' : NamingServer LruCache} {slot : Slot} {s : Server} {p : Path}

theorem Listens.of_address {ns ns' : NamingServer LruCache} {j : Slot}
    (haddress : ∀ j, ns'.address j = ns.address j) :
    Listens net (ns'.registeredSs j) s ↔ Listens net (ns.registeredSs j) s :=
  ⟨fun h => h.congr (haddress j).symm, fun h => h.congr (haddress j)⟩

omit [DecidableEq F] in
/-- A registered server has the object of a path exactly if the trie does not lead elsewhere. -/
theorem Mirrors.file_eq (h : Mirrors net resolve files₀ cl st)
    (hslot : slot.val < cl.nm.numRegisteredSs.val) (hs : Listens net (cl.nm.registeredSs slot) s)
    (hhome : ∀ home, cl.nm.search p = some home → Listens net (cl.nm.registeredSs home) s) :
    cl.files (resolve s p) = st.disk p := by
  cases hp : cl.nm.search p with
  | some home => exact h.placed p home s hp (hhome home hp)
  | none =>
      rw [(h.mapped p).mp hp]
      by_contra hfile
      obtain ⟨home, hsome, -⟩ := h.only slot s p hslot hs hfile
      rw [hp] at hsome
      cases hsome

omit [DecidableEq F] in
/-- Where nothing is registered or forgotten, and no file changes, the mirror stays. -/
theorem Mirrors.frame (h : Mirrors net resolve files₀ cl st) (hfresh : nm'.Fresh)
    (hnum : nm'.numRegisteredSs = cl.nm.numRegisteredSs)
    (haddress : ∀ j, nm'.address j = cl.nm.address j)
    (hsearch : ∀ q, nm'.search q = cl.nm.search q) :
    Mirrors net resolve files₀ ⟨nm', cl.files⟩ st where
  fresh := hfresh
  servers := h.servers.trans (congrArg Fin.val hnum).symm
  listening j hj := (h.listening j (hnum ▸ hj)).imp fun _ => (Listens.of_address haddress).mpr
  mapped q := (hsearch q).symm ▸ h.mapped q
  strings q := (hsearch q).symm ▸ h.strings q
  placed q j s hq hj :=
    h.placed q j s ((hsearch q).symm.trans hq) ((Listens.of_address haddress).mp hj)
  only j s q hj hs hq := by
    obtain ⟨home, hhome, hlistens⟩ :=
      h.only j s q (hnum ▸ hj) ((Listens.of_address haddress).mp hs) hq
    exact ⟨home, (hsearch q).trans hhome, (Listens.of_address haddress).mpr hlistens⟩
  untouched s hs := h.untouched s fun j hj hlistens =>
    hs j (hnum.symm ▸ hj) ((Listens.of_address haddress).mpr hlistens)

/-- The trie leads to the server exactly if there is an object. -/
def Placed (net : Network) (ns : NamingServer LruCache) (s : Server) (o : Option FileObject)
    (found : Option Slot) : Prop :=
  o = none ∧ found = none ∨
    o ≠ none ∧ ∃ home, found = some home ∧ Listens net (ns.registeredSs home) s

omit [DecidableEq F] in
theorem Mirrors.isPlaced (h : Mirrors net resolve files₀ cl st)
    (hhome : ∀ home, cl.nm.search p = some home → Listens net (cl.nm.registeredSs home) s) :
    Placed net cl.nm s (st.disk p) (cl.nm.search p) := by
  cases hp : cl.nm.search p with
  | none => exact Or.inl ⟨(h.mapped p).mp hp, rfl⟩
  | some home =>
      refine Or.inr ⟨fun hnone => ?_, home, rfl, hhome home hp⟩
      rw [(h.mapped p).mpr hnone] at hp
      cases hp

/-- One object changes, and the trie keeps leading to it. -/
theorem Mirrors.update (h : Mirrors net resolve files₀ cl st)
    (hresolve : Function.Injective2 resolve) (hzero : 0 ∉ p)
    (hslot : slot.val < cl.nm.numRegisteredSs.val)
    (hs : Listens net (cl.nm.registeredSs slot) s)
    (hhome : ∀ home, cl.nm.search p = some home → Listens net (cl.nm.registeredSs home) s)
    (hfresh : nm'.Fresh) (hnum : nm'.numRegisteredSs = cl.nm.numRegisteredSs)
    (haddress : ∀ j, nm'.address j = cl.nm.address j)
    (hsearch : ∀ q, q ≠ p → nm'.search q = cl.nm.search q) (o : Option FileObject)
    (hp : Placed net cl.nm s o (nm'.search p)) :
    Mirrors net resolve files₀ ⟨nm', Function.update cl.files (resolve s p) o⟩
      { st with disk := Function.update st.disk p o } where
  fresh := hfresh
  servers := h.servers.trans (congrArg Fin.val hnum).symm
  listening j hj := (h.listening j (hnum ▸ hj)).imp fun _ => (Listens.of_address haddress).mpr
  mapped q := by
    by_cases hq : q = p
    · subst hq
      simp only [Function.update_self]
      rcases hp with ⟨ho, hnone⟩ | ⟨ho, home, hsome, -⟩
      · exact iff_of_true hnone ho
      · exact iff_of_false (by rw [hsome]; exact Option.some_ne_none home) ho
    · simp only [Function.update_of_ne hq, hsearch q hq]
      exact h.mapped q
  strings q hq := by
    by_cases hqp : q = p
    · exact hqp ▸ hzero
    · exact h.strings q (hsearch q hqp ▸ hq)
  placed q j s' hq hj := by
    have hj' := (Listens.of_address haddress).mp hj
    by_cases hqp : q = p
    · subst hqp
      rcases hp with ⟨-, hnone⟩ | ⟨-, home, hsome, hlistens⟩
      · exact absurd (hnone.symm.trans hq) nofun
      · obtain rfl : home = j := Option.some.inj (hsome.symm.trans hq)
        obtain rfl := hlistens.eq hj'
        simp only [Function.update_self]
    · have hne : resolve s' q ≠ resolve s p := fun heq => hqp (hresolve heq).2
      simp only [Function.update_of_ne hqp, Function.update_of_ne hne]
      exact h.placed q j s' ((hsearch q hqp).symm.trans hq) hj'
  only j s' q hj hs' hq := by
    have hj' := (Listens.of_address haddress).mp hs'
    have hhome' : ∀ home, nm'.search q = some home → Listens net (cl.nm.registeredSs home) s' →
        ∃ home, nm'.search q = some home ∧ Listens net (nm'.registeredSs home) s' :=
      fun home hsome hlistens => ⟨home, hsome, (Listens.of_address haddress).mpr hlistens⟩
    by_cases heq : resolve s' q = resolve s p
    · obtain ⟨rfl, rfl⟩ := hresolve heq
      simp only [Function.update_self] at hq
      rcases hp with ⟨hnone, -⟩ | ⟨-, home, hsome, hlistens⟩
      · exact absurd hnone hq
      · exact hhome' home hsome hlistens
    · simp only [Function.update_of_ne heq] at hq
      obtain ⟨home, hsome, hlistens⟩ := h.only j s' q (hnum ▸ hj) hj' hq
      by_cases hqp : q = p
      · subst hqp
        exact absurd (congrArg (resolve · q) ((hlistens.eq (hhome home hsome)))) heq
      · exact hhome' home ((hsearch q hqp).trans hsome) hlistens
  untouched s' hs' q := by
    have hne : resolve s' q ≠ resolve s p := fun heq => by
      obtain ⟨rfl, -⟩ := hresolve heq
      exact hs' slot (hnum.symm ▸ hslot) ((Listens.of_address haddress).mpr hs)
    simp only [Function.update_of_ne hne]
    exact h.untouched s' (fun j hj hlistens =>
      hs' j (hnum.symm ▸ hj) ((Listens.of_address haddress).mpr hlistens)) q

/-- A request that is passed on to the server of its path. `after` is what the trie finds at the
path if the request is acknowledged. -/
theorem Mirrors.pass (h : Mirrors net resolve files₀ cl st)
    (hresolve : Function.Injective2 resolve) (hzero : 0 ∉ p)
    (hslot : slot.val < cl.nm.numRegisteredSs.val)
    (hs : Listens net (cl.nm.registeredSs slot) s)
    (hhome : ∀ home, cl.nm.search p = some home → Listens net (cl.nm.registeredSs home) s)
    (hfresh : nm'.Fresh) (hnum : nm'.numRegisteredSs = cl.nm.numRegisteredSs)
    (haddress : ∀ j, nm'.address j = cl.nm.address j)
    (hsearch : ∀ q, q ≠ p → nm'.search q = cl.nm.search q) {reply : Message} {disk : Disk}
    (hdisk : disk = Function.update st.disk p (disk p)) {link : Link} {after : Option Slot}
    {forwarded : Exchange × Files F}
    (hforward : forwarded =
      link.exchange cl.files (reply, Function.update cl.files (resolve s p) (disk p)))
    (hp : nm'.search p = if forwarded.1.Succeeded then after else cl.nm.search p)
    (hdone : reply.Succeeded → Placed net cl.nm s (disk p) after)
    (hkept : ¬ reply.Succeeded ∨ link = .lost → Placed net cl.nm s (disk p) (cl.nm.search p)) :
    Mirrors net resolve files₀ ⟨nm', forwarded.2⟩
        { st with disk := (link.exchange st.disk (reply, disk)).2 } ∧
      forwarded.1 = (link.exchange st.disk (reply, disk)).1 := by
  subst hforward
  cases link with
  | works =>
      refine ⟨?_, rfl⟩
      change Mirrors net resolve files₀ _ { st with disk := disk }
      rw [hdisk, Function.update_self]
      refine h.update hresolve hzero hslot hs hhome hfresh hnum haddress hsearch _ ?_
      have hiff : (Exchange.replied reply).Succeeded ↔ reply.Succeeded := by
        simp [Exchange.Succeeded]
      by_cases hreply : reply.Succeeded
      · rw [hp.trans (if_pos (hiff.mpr hreply))]
        exact hdone hreply
      · rw [hp.trans (if_neg (hiff.not.mpr hreply))]
        exact hkept (Or.inl hreply)
  | fails f =>
      have hfail : ¬ f.exchange.Succeeded := by
        cases f <;> simp [Failure.exchange, Exchange.Succeeded]
      refine ⟨h.frame hfresh hnum haddress fun q => ?_, rfl⟩
      by_cases hq : q = p
      · subst hq
        exact hp.trans (if_neg hfail)
      · exact hsearch q hq
  | lost =>
      refine ⟨?_, rfl⟩
      change Mirrors net resolve files₀ _ { st with disk := disk }
      rw [hdisk, Function.update_self]
      refine h.update hresolve hzero hslot hs hhome hfresh hnum haddress hsearch _ ?_
      have hlost : ¬ Exchange.receiveFailed.Succeeded := by simp [Exchange.Succeeded]
      rw [hp.trans (if_neg hlost)]
      exact hkept (Or.inr rfl)

/-- Serving at the server of the path is serving at the one disk. -/
theorem serveAt_eq {files : Files F} {disk : Disk} {os : Os} {msg : Message}
    (h : files (resolve s msg.path.str) = disk msg.path.str) :
    serveAt resolve files s os msg = ((serve disk os msg).1,
      Function.update files (resolve s msg.path.str) ((serve disk os msg).2 msg.path.str)) := by
  have hcongr : (serve (fun path => files (resolve s path)) os msg).1 = (serve disk os msg).1 ∧
      (serve (fun path => files (resolve s path)) os msg).2 msg.path.str =
        (serve disk os msg).2 msg.path.str := serve_congr os h
  exact Prod.ext hcongr.1 (congrArg (Function.update files _) hcongr.2)

theorem copyAt_eq {files : Files F} {disk : Disk} {req : ClientRequest} {dest : StorageServerInfo}
    {s' : Server} (hsource : files (resolve s req.msg.path.str) = disk req.msg.path.str)
    (hdest : Listens net dest s')
    (htarget : files (resolve s' req.msg.path2.str) = disk req.msg.path2.str) :
    copyAt net resolve files s req (req.msg.copyRequest dest) =
      ((OneDisk.copied disk req).1, Function.update files (resolve s' req.msg.path2.str)
        ((OneDisk.copied disk req).2 req.msg.path2.str)) := by
  have hpath : (req.msg.copyRequest dest).path.str = req.msg.path.str :=
    CharArray.str_ofBytes req.msg.path.zero_notMem_str req.sendable.1
  have hpath2 : (req.msg.copyRequest dest).path2.str = req.msg.path2.str :=
    CharArray.str_ofBytes req.msg.path2.zero_notMem_str req.sendable.2.1
  have hip : (req.msg.copyRequest dest).destSsIp.str = dest.ip :=
    CharArray.str_ofBytes hdest.terminated.1 hdest.terminated.2
  have hport : (req.msg.copyRequest dest).destSsClientPort = dest.clientPort := rfl
  have hread : Disk.readFile (fun path => files (resolve s path)) req.os
      (req.msg.copyRequest dest) = disk.readFile req.os req.msg := by
    simp only [Disk.readFile, Disk.ssRead, hpath, hsource]
  have hwrite : ∀ bytes, Message.writeRequest (req.msg.copyRequest dest) bytes =
      .writeRequest req.msg bytes := fun bytes => by
    simp only [Message.writeRequest, hpath2]
  have hunchanged : files = Function.update files (resolve s' req.msg.path2.str)
      (disk req.msg.path2.str) := by
    rw [← htarget, Function.update_eq_self]
  unfold copyAt OneDisk.copied atClientPort
  rw [hread, hip, hport, hdest.client]
  dsimp only
  split_ifs
  · have hto := Message.path_writeRequest req.msg (disk.readFile req.os req.msg).2
      req.sendable.2.1
    have hserve : serveAt resolve files s' req.copyOs
        (.writeRequest req.msg (disk.readFile req.os req.msg).2) = _ :=
      serveAt_eq (by rw [hto]; exact htarget)
    rw [hwrite, hserve, hto]
    cases req.copyLink with
    | works | lost => rfl
    | fails f => exact Prod.ext rfl hunchanged
  · exact Prod.ext rfl hunchanged

end

/-! ### The steps of the cluster -/

namespace Cluster

section

variable {F : Type} [DecidableEq F] (net : Network) (resolve : Server → Path → F)

/-- The cache stays fresh. A registration is that of a new server, reached at both ports, whose
files are the paths that it names, and these are not yet known. The reply to a request that may
create or remove a path is received, and a new copy is stored as a whole if at all. -/
structure Allowed (cl : Cluster F) (req : ClientRequest) : Prop where
  cache : cl.KeepsCacheFresh net resolve req
  newServer : req.msg.operation = .registerSs → cl.nm.nextSlot ≠ none → ∃ s,
    net.nmListener req.msg.ssIp.str req.msg.ssNmPort = some s ∧
    net.clientListener req.msg.ssIp.str req.msg.ssClientPort = some s ∧
    (∀ slot : Slot, slot.val < cl.nm.numRegisteredSs.val →
      ¬ Listens net (cl.nm.registeredSs slot) s) ∧
    (∀ p, cl.files (resolve s p) ≠ none ↔ p ∈ req.msg.listedPaths) ∧
    ∀ p ∈ req.msg.listedPaths, cl.nm.search p = none
  received : req.msg.operation = .createFile ∨ req.msg.operation = .deleteFile ∨
    req.msg.operation = .copyFile ∧ cl.nm.search req.msg.path2.str = none → req.link ≠ .lost
  whole : req.msg.operation = .copyFile → cl.nm.search req.msg.path2.str = none →
    req.copyLink ≠ .lost ∧ maxDataSize ≤ req.copyOs.writable

/-- What a server that registers finds on its disk at the start. -/
def brought (files₀ : Files F) (msg : Message) : Disk := fun p =>
  (net.nmListener msg.ssIp.str msg.ssNmPort).bind fun s => files₀ (resolve s p)

variable {net resolve} {files₀ : Files F} {cl : Cluster F} {st : OneDisk} {req : ClientRequest}

/-- A request that is neither a registration nor a lookup goes as its course says. -/
theorem handle_of_course (h : cl.nm.Fresh) (hkeeps : cl.KeepsCacheFresh net resolve req)
    (hregister : req.msg.operation ≠ .registerSs) (hlookup : ¬ req.msg.IsLookup) :
    ∃ nm' reply, cl.handle net resolve req =
        some (⟨nm', (cl.forward net resolve req).2⟩, .replied reply) ∧
      cl.nm.handleConnection req.msg (cl.surroundings net resolve req) = some (nm', reply) ∧
      nm'.Fresh ∧
      nm'.directory =
        (cl.nm.directory.course req.msg).directory (cl.forward net resolve req).1 ∧
      (∀ r ∈ (cl.nm.directory.course req.msg).reply (cl.forward net resolve req).1, reply = r) ∧
      ∀ j, nm'.address j = cl.nm.address j := by
  have hfits : NamingServer.FitsArrays req.msg := fun _ => req.sendable.2.2.2.2
  obtain ⟨nm', reply, hnm, hfresh⟩ := h.handleConnection hfits hkeeps
  have hfinish : ∀ files : Files F, finish net resolve files req reply =
      (.replied reply, files) := fun files => if_neg fun hf => hlookup hf.2
  obtain ⟨hdirectory, hreply⟩ := NamingServer.follows_handleConnection _ _ _ nm' reply hnm
  refine ⟨nm', reply, ?_, hnm, hfresh, hdirectory, hreply,
    (NamingServer.AgreeExcept.handleConnection hregister hnm).2⟩
  rw [handle_eq hnm, hfinish]

/-- A request that is answered without a storage server changes nothing. -/
theorem forward_of_answered {d : Directory} {r : Option Message}
    (hcourse : cl.nm.directory.course req.msg = .answered d r) :
    cl.forward net resolve req = (.receiveFailed, cl.files) := by
  have hforwards : cl.nm.forwards req.msg = none := by
    rw [NamingServer.forwards_eq, hcourse]
    rfl
  rw [forward, hforwards]

theorem forward_of_asked {server target : Slot} {failed succeeded : Directory} {s : Server}
    (hcourse : cl.nm.directory.course req.msg = .asked server target failed succeeded)
    (hs : Listens net (cl.nm.registeredSs server) s) :
    cl.forward net resolve req = req.link.exchange cl.files
      (if req.msg.operation = .copyFile then
        copyAt net resolve cl.files s req
          (req.msg.copyRequest (cl.nm.registeredSs target))
       else serveAt resolve cl.files s req.os req.msg) := by
  have hforwards : cl.nm.forwards req.msg = some (server, if req.msg.operation = .copyFile then
      req.msg.copyRequest (cl.nm.registeredSs target) else req.msg) := by
    rw [NamingServer.forwards_eq, hcourse]
    rfl
  rw [forward, hforwards]
  dsimp only
  rw [atNmPort, hs.nm]
  dsimp only
  by_cases hop : req.msg.operation = .copyFile
  · have hcopy : (req.msg.copyRequest (cl.nm.registeredSs target)).operation = .copyFile := rfl
    rw [if_pos hop, if_pos hcopy, if_pos hop]
  · rw [if_neg hop, if_neg hop, if_neg hop]

/-- Refused requests leave the mirror as it is. -/
theorem Mirrors.refused (h : Mirrors net resolve files₀ cl st)
    (hkeeps : cl.KeepsCacheFresh net resolve req) (hregister : req.msg.operation ≠ .registerSs)
    (hlookup : ¬ req.msg.IsLookup) {r : Option Message}
    (hcourse : cl.nm.directory.course req.msg = .answered cl.nm.directory r) :
    ∃ cl' reply, cl.handle net resolve req = some (cl', .replied reply) ∧
      Mirrors net resolve files₀ cl' st ∧
      cl.nm.handleConnection req.msg (cl.surroundings net resolve req) = some (cl'.nm, reply) ∧
      ∀ m ∈ r, reply = m := by
  obtain ⟨nm', reply, hhandle, hnm, hfresh, hdirectory, hreply, haddress⟩ :=
    handle_of_course h.fresh hkeeps hregister hlookup
  rw [hcourse] at hdirectory hreply
  refine ⟨_, reply, hhandle, ?_, hnm, hreply⟩
  rw [forward_of_answered hcourse]
  exact h.frame hfresh (congrArg Directory.count hdirectory) haddress
    fun q => congrFun (congrArg Directory.map hdirectory) q

/-- The request is handled as by the one disk. -/
def Simulated (net : Network) (resolve : Server → Path → F) (files₀ : Files F) (cl : Cluster F)
    (st : OneDisk) (req : ClientRequest) : Prop :=
  ∃ cl' x st', cl.handle net resolve req = some (cl', x) ∧ Mirrors net resolve files₀ cl' st' ∧
    OneDisk.Handles (brought net resolve files₀) st req x st'

theorem pick_eq_some {d d' : Directory} {slot : Slot} (h : d.pick = some (slot, d')) :
    0 < d.count.val ∧ slot = d.cursor ∧ d'.map = d.map ∧ d'.count = d.count := by
  unfold Directory.pick at h
  split_ifs at h with hpos
  obtain ⟨rfl, rfl⟩ := Prod.mk.inj (Option.some.inj h)
  exact ⟨hpos, rfl, rfl, rfl⟩

theorem pick_eq_none {d : Directory} (h : d.pick = none) : d.count.val = 0 := by
  unfold Directory.pick at h
  split_ifs at h with hpos
  omega

omit [DecidableEq F] in
/-- The slot that is picked is that of a registered server. -/
theorem Mirrors.picked (h : Mirrors net resolve files₀ cl st) {slot : Slot} {d : Directory}
    (hpick : cl.nm.directory.pick = some (slot, d)) :
    slot.val < cl.nm.numRegisteredSs.val := by
  obtain ⟨hpos, rfl, -, -⟩ := pick_eq_some hpick
  exact Nat.lt_of_le_sub_one hpos h.fresh.cursor

/-- A request that is passed on, by the server of the file. -/
theorem Mirrors.asked (h : Mirrors net resolve files₀ cl st)
    (hresolve : Function.Injective2 resolve) (hkeeps : cl.KeepsCacheFresh net resolve req)
    (hregister : req.msg.operation ≠ .registerSs) (hlookup : ¬ req.msg.IsLookup)
    {server target slot : Slot} {failed succeeded : Directory} {s₀ s : Server} {p : Path}
    (hcourse : cl.nm.directory.course req.msg = .asked server target failed succeeded)
    (hfailed : failed.map = cl.nm.search ∧ failed.count = cl.nm.numRegisteredSs)
    (hzero : 0 ∉ p) (hsucceeded : (∀ q, q ≠ p → succeeded.map q = cl.nm.search q) ∧
      succeeded.count = cl.nm.numRegisteredSs)
    (hserver : Listens net (cl.nm.registeredSs server) s₀)
    (hslot : slot.val < cl.nm.numRegisteredSs.val) (hs : Listens net (cl.nm.registeredSs slot) s)
    (hhome : ∀ home, cl.nm.search p = some home → Listens net (cl.nm.registeredSs home) s)
    {served : Message × Disk}
    (hserved : (if req.msg.operation = .copyFile then copyAt net resolve cl.files s₀ req
        (req.msg.copyRequest (cl.nm.registeredSs target))
      else serveAt resolve cl.files s₀ req.os req.msg) =
      (served.1, Function.update cl.files (resolve s p) (served.2 p)))
    (hdisk : served.2 = Function.update st.disk p (served.2 p))
    (hdone : served.1.Succeeded → Placed net cl.nm s (served.2 p) (succeeded.map p))
    (hkept : ¬ served.1.Succeeded ∨ req.link = .lost →
      Placed net cl.nm s (served.2 p) (cl.nm.search p)) :
    ∃ cl', cl.handle net resolve req = some (cl', (st.pass req.link served).1) ∧
      Mirrors net resolve files₀ cl' (st.pass req.link served).2 := by
  obtain ⟨nm', reply, hhandle, -, hfresh, hdirectory, hreply, haddress⟩ :=
    handle_of_course h.fresh hkeeps hregister hlookup
  rw [hcourse] at hdirectory hreply
  have hforward : cl.forward net resolve req = req.link.exchange cl.files
      (served.1, Function.update cl.files (resolve s p) (served.2 p)) := by
    rw [forward_of_asked hcourse hserver, hserved]
  have hmap : nm'.search = if (cl.forward net resolve req).1.Succeeded then succeeded.map
      else cl.nm.search := by
    rw [← hfailed.1]
    refine (congrArg Directory.map hdirectory).trans ?_
    unfold Directory.Course.directory
    split_ifs <;> rfl
  have hcount : nm'.numRegisteredSs = cl.nm.numRegisteredSs := by
    refine (congrArg Directory.count hdirectory).trans ?_
    unfold Directory.Course.directory
    split_ifs
    · exact hsucceeded.2
    · exact hfailed.2
  have hother : ∀ q, q ≠ p → nm'.search q = cl.nm.search q := fun q hq => by
    rw [hmap]
    split_ifs
    · exact hsucceeded.1 q hq
    · rfl
  have hp : nm'.search p = if (cl.forward net resolve req).1.Succeeded then succeeded.map p
      else cl.nm.search p := by
    rw [hmap]
    split_ifs <;> rfl
  obtain ⟨hmirrors, hexchange⟩ := h.pass hresolve hzero hslot hs hhome hfresh hcount haddress
    hother
    hdisk hforward hp hdone hkept
  refine ⟨_, hhandle.trans ?_, hmirrors⟩
  rw [hreply (cl.forward net resolve req).1.copyReply rfl, hexchange]
  rfl

theorem simulated_createFile (h : Mirrors net resolve files₀ cl st)
    (hresolve : Function.Injective2 resolve) (hallowed : cl.Allowed net resolve req)
    (hop : req.msg.operation = .createFile) : Simulated net resolve files₀ cl st req := by
  have hregister : req.msg.operation ≠ .registerSs := by simp [hop]
  have hlookup : ¬ req.msg.IsLookup := by simp [Message.IsLookup, hop]
  have hmapped := h.mapped req.msg.path.str
  cases hsearch : cl.nm.search req.msg.path.str with
  | some home =>
      have hcourse : cl.nm.directory.course req.msg =
          .answered cl.nm.directory (some (.nack .fileExists)) := by
        simp only [Directory.course, hop, NamingServer.map_directory, hsearch]
      obtain ⟨cl', reply, hhandle, hmirrors, -, hreply⟩ :=
        Mirrors.refused h hallowed.cache hregister hlookup hcourse
      have hdisk : st.disk req.msg.path.str ≠ none := by simp [← hmapped, hsearch]
      refine ⟨cl', _, st, hhandle, hmirrors, ?_⟩
      simp only [OneDisk.Handles, hop, if_pos hdisk, hreply _ rfl]
      rfl
  | none =>
      have hdisk : st.disk req.msg.path.str = none := hmapped.mp hsearch
      cases hpick : cl.nm.directory.pick with
      | none =>
          have hcourse : cl.nm.directory.course req.msg =
              .answered cl.nm.directory (some (.nack .ssUnavailable)) := by
            simp only [Directory.course, hop, NamingServer.map_directory, hsearch, hpick]
          obtain ⟨cl', reply, hhandle, hmirrors, -, hreply⟩ :=
            Mirrors.refused h hallowed.cache hregister hlookup hcourse
          have hservers : st.servers = 0 := h.servers.trans (pick_eq_none hpick)
          refine ⟨cl', _, st, hhandle, hmirrors, ?_⟩
          simp only [OneDisk.Handles, hop, hdisk, ne_eq, not_true_eq_false, if_false,
            if_pos hservers, hreply _ rfl]
          rfl
      | some found =>
          obtain ⟨slot, d⟩ := found
          have hcourse : cl.nm.directory.course req.msg =
              .asked slot slot d (d.record req.msg.path.str slot) := by
            simp only [Directory.course, hop, NamingServer.map_directory, hsearch, hpick]
          obtain ⟨hpos, -, hmap, hcount⟩ := pick_eq_some hpick
          have hslot := Mirrors.picked h hpick
          obtain ⟨s, hs⟩ := h.listening slot hslot
          have hhome : ∀ home, cl.nm.search req.msg.path.str = some home →
              Listens net (cl.nm.registeredSs home) s := by simp [hsearch]
          have hrecorded : ∀ q, q ≠ req.msg.path.str →
              (d.record req.msg.path.str slot).map q = cl.nm.search q := fun q hq =>
            (Function.update_of_ne hq _ _).trans (congrFun hmap q)
          have hfound : (d.record req.msg.path.str slot).map req.msg.path.str = some slot :=
            Function.update_self _ _ _
          have houtcome := serve_create_outcome st.disk req.os hop
          have hserved : serveAt resolve cl.files s req.os req.msg = _ :=
            serveAt_eq (h.file_eq hslot hs hhome)
          have hdone : (serve st.disk req.os req.msg).1.Succeeded →
              Placed net cl.nm s ((serve st.disk req.os req.msg).2 req.msg.path.str)
                ((d.record req.msg.path.str slot).map req.msg.path.str) := fun hsucc => by
            rw [hfound]
            exact Or.inr ⟨(houtcome.resolve_right fun hno => hno.1 hsucc).2, slot, rfl, hs⟩
          have hkept : ¬ (serve st.disk req.os req.msg).1.Succeeded ∨ req.link = .lost →
              Placed net cl.nm s ((serve st.disk req.os req.msg).2 req.msg.path.str)
                (cl.nm.search req.msg.path.str) := fun hkept => by
            have hreply := hkept.resolve_right (hallowed.received (Or.inl hop))
            rw [(houtcome.resolve_left fun hyes => hreply hyes.1).2]
            exact h.isPlaced hhome
          obtain ⟨cl', hhandle, hmirrors⟩ := Mirrors.asked h hresolve hallowed.cache hregister
            hlookup hcourse ⟨hmap, hcount⟩ req.msg.path.zero_notMem_str ⟨hrecorded, hcount⟩ hs hslot
            hs hhome ((if_neg (by simp [hop])).trans hserved) (serve_disk_eq_update _ _ _) hdone
            hkept
          refine ⟨cl', _, _, hhandle, hmirrors, ?_⟩
          have hservers : st.servers ≠ 0 := by
            rw [h.servers]
            exact hpos.ne'
          simp only [OneDisk.Handles, hop, hdisk, ne_eq, not_true_eq_false, if_false,
            if_neg hservers]

theorem simulated_deleteFile (h : Mirrors net resolve files₀ cl st)
    (hresolve : Function.Injective2 resolve) (hallowed : cl.Allowed net resolve req)
    (hop : req.msg.operation = .deleteFile) : Simulated net resolve files₀ cl st req := by
  have hregister : req.msg.operation ≠ .registerSs := by simp [hop]
  have hlookup : ¬ req.msg.IsLookup := by simp [Message.IsLookup, hop]
  have hmapped := h.mapped req.msg.path.str
  cases hsearch : cl.nm.search req.msg.path.str with
  | none =>
      have hcourse : cl.nm.directory.course req.msg =
          .answered cl.nm.directory (some (.nack .fileNotFound)) := by
        simp only [Directory.course, hop, NamingServer.map_directory, hsearch]
      obtain ⟨cl', reply, hhandle, hmirrors, -, hreply⟩ :=
        Mirrors.refused h hallowed.cache hregister hlookup hcourse
      have hdisk : st.disk req.msg.path.str = none := hmapped.mp hsearch
      refine ⟨cl', _, st, hhandle, hmirrors, ?_⟩
      simp only [OneDisk.Handles, hop, if_pos hdisk, hreply _ rfl]
      rfl
  | some slot =>
      have hcourse : cl.nm.directory.course req.msg = .asked slot slot cl.nm.directory
          (cl.nm.directory.forget req.msg.path.str slot) := by
        simp only [Directory.course, hop, NamingServer.map_directory, hsearch]
      have hdisk : st.disk req.msg.path.str ≠ none := by simp [← hmapped, hsearch]
      have hslot := h.fresh.registered _ _ hsearch
      obtain ⟨s, hs⟩ := h.listening slot hslot
      have hhome : ∀ home, cl.nm.search req.msg.path.str = some home →
          Listens net (cl.nm.registeredSs home) s := fun home hsome => by
        obtain rfl : slot = home := Option.some.inj (hsearch.symm.trans hsome)
        exact hs
      have hforgot : ∀ q, q ≠ req.msg.path.str →
          (cl.nm.directory.forget req.msg.path.str slot).map q = cl.nm.search q :=
        fun q hq => Function.update_of_ne hq _ _
      have hfound : (cl.nm.directory.forget req.msg.path.str slot).map req.msg.path.str = none :=
        Function.update_self _ _ _
      have houtcome := serve_delete_outcome st.disk req.os hop
      have hserved : serveAt resolve cl.files s req.os req.msg = _ :=
        serveAt_eq (h.file_eq hslot hs hhome)
      have hdone : (serve st.disk req.os req.msg).1.Succeeded →
          Placed net cl.nm s ((serve st.disk req.os req.msg).2 req.msg.path.str)
            ((cl.nm.directory.forget req.msg.path.str slot).map req.msg.path.str) := fun hsucc =>
        Or.inl ⟨(houtcome.resolve_right fun hno => hno.1 hsucc).2, hfound⟩
      have hkept : ¬ (serve st.disk req.os req.msg).1.Succeeded ∨ req.link = .lost →
          Placed net cl.nm s ((serve st.disk req.os req.msg).2 req.msg.path.str)
            (cl.nm.search req.msg.path.str) := fun hkept => by
        have hreply := hkept.resolve_right (hallowed.received (Or.inr (Or.inl hop)))
        rw [(houtcome.resolve_left fun hyes => hreply hyes.1).2]
        exact h.isPlaced hhome
      obtain ⟨cl', hhandle, hmirrors⟩ := Mirrors.asked h hresolve hallowed.cache hregister hlookup
        hcourse ⟨rfl, rfl⟩ req.msg.path.zero_notMem_str ⟨hforgot, rfl⟩ hs hslot hs hhome
        ((if_neg (by simp [hop])).trans hserved) (serve_disk_eq_update _ _ _) hdone hkept
      refine ⟨cl', _, _, hhandle, hmirrors, ?_⟩
      simp only [OneDisk.Handles, hop, if_neg hdisk]

theorem simulated_copyFile (h : Mirrors net resolve files₀ cl st)
    (hresolve : Function.Injective2 resolve) (hallowed : cl.Allowed net resolve req)
    (hop : req.msg.operation = .copyFile) : Simulated net resolve files₀ cl st req := by
  have hregister : req.msg.operation ≠ .registerSs := by simp [hop]
  have hlookup : ¬ req.msg.IsLookup := by simp [Message.IsLookup, hop]
  have hmapped := h.mapped req.msg.path.str
  cases hsource : cl.nm.search req.msg.path.str with
  | none =>
      have hcourse : cl.nm.directory.course req.msg =
          .answered cl.nm.directory (some (.nack .fileNotFound)) := by
        simp only [Directory.course, hop, NamingServer.map_directory, hsource]
      obtain ⟨cl', reply, hhandle, hmirrors, -, hreply⟩ :=
        Mirrors.refused h hallowed.cache hregister hlookup hcourse
      have hdisk : st.disk req.msg.path.str = none := hmapped.mp hsource
      refine ⟨cl', _, st, hhandle, hmirrors, ?_⟩
      simp only [OneDisk.Handles, hop, if_pos hdisk, hreply _ rfl]
      rfl
  | some source =>
      have hdisk : st.disk req.msg.path.str ≠ none := by simp [← hmapped, hsource]
      obtain ⟨s₀, hs₀⟩ := h.listening source (h.fresh.registered _ _ hsource)
      have hread : cl.files (resolve s₀ req.msg.path.str) = st.disk req.msg.path.str :=
        h.placed _ source s₀ hsource hs₀
      cases htarget : cl.nm.search req.msg.path2.str with
      | some slot =>
          have hcourse : cl.nm.directory.course req.msg =
              .asked source slot cl.nm.directory cl.nm.directory := by
            simp only [Directory.course, hop, NamingServer.map_directory, hsource, htarget]
          have hslot := h.fresh.registered _ _ htarget
          obtain ⟨s, hs⟩ := h.listening slot hslot
          have hhome : ∀ home, cl.nm.search req.msg.path2.str = some home →
              Listens net (cl.nm.registeredSs home) s := fun home hsome => by
            obtain rfl : slot = home := Option.some.inj (htarget.symm.trans hsome)
            exact hs
          have hpresent : st.disk req.msg.path2.str ≠ none := fun hnone => by
            have hgone := (h.mapped req.msg.path2.str).mpr hnone
            rw [htarget] at hgone
            cases hgone
          have hplaced : Placed net cl.nm s
              ((OneDisk.copied st.disk req).2 req.msg.path2.str)
              (cl.nm.search req.msg.path2.str) :=
            Or.inr ⟨OneDisk.copied_present hpresent, slot, htarget, hs⟩
          obtain ⟨cl', hhandle, hmirrors⟩ := Mirrors.asked h hresolve hallowed.cache hregister
            hlookup hcourse ⟨rfl, rfl⟩ req.msg.path2.zero_notMem_str ⟨fun _ _ => rfl, rfl⟩ hs₀ hslot
            hs hhome
            ((if_pos hop).trans (copyAt_eq hread hs (h.file_eq hslot hs hhome)))
            OneDisk.copied_disk_eq_update (fun _ => hplaced) fun _ => hplaced
          refine ⟨cl', _, _, hhandle, hmirrors, ?_⟩
          simp only [OneDisk.Handles, hop, if_neg hdisk]
      | none =>
          obtain ⟨slot, d, hpick⟩ : ∃ slot d, cl.nm.directory.pick = some (slot, d) := by
            cases hpick : cl.nm.directory.pick with
            | some found => exact ⟨_, _, rfl⟩
            | none =>
                have hlt := h.fresh.registered _ _ hsource
                have hzero : cl.nm.numRegisteredSs.val = 0 := pick_eq_none hpick
                omega
          have hcourse : cl.nm.directory.course req.msg =
              .asked source slot d (d.record req.msg.path2.str slot) := by
            simp only [Directory.course, hop, NamingServer.map_directory, hsource, htarget, hpick]
          obtain ⟨-, -, hmap, hcount⟩ := pick_eq_some hpick
          have hslot := Mirrors.picked h hpick
          obtain ⟨s, hs⟩ := h.listening slot hslot
          have hhome : ∀ home, cl.nm.search req.msg.path2.str = some home →
              Listens net (cl.nm.registeredSs home) s := by simp [htarget]
          have hrecorded : ∀ q, q ≠ req.msg.path2.str →
              (d.record req.msg.path2.str slot).map q = cl.nm.search q := fun q hq =>
            (Function.update_of_ne hq _ _).trans (congrFun hmap q)
          have hfound : (d.record req.msg.path2.str slot).map req.msg.path2.str = some slot :=
            Function.update_self _ _ _
          obtain ⟨hcopyLost, hwhole⟩ := hallowed.whole hop htarget
          have houtcome := OneDisk.copied_outcome st.disk hcopyLost hwhole
          have hdone : (OneDisk.copied st.disk req).1.Succeeded →
              Placed net cl.nm s ((OneDisk.copied st.disk req).2 req.msg.path2.str)
                ((d.record req.msg.path2.str slot).map req.msg.path2.str) := fun hsucc => by
            rw [hfound]
            exact Or.inr ⟨(houtcome.resolve_right fun hno => hno.1 hsucc).2, slot, rfl, hs⟩
          have hkept : ¬ (OneDisk.copied st.disk req).1.Succeeded ∨ req.link = .lost →
              Placed net cl.nm s ((OneDisk.copied st.disk req).2 req.msg.path2.str)
                (cl.nm.search req.msg.path2.str) := fun hkept => by
            have hreply := hkept.resolve_right
              (hallowed.received (Or.inr (Or.inr ⟨hop, htarget⟩)))
            rw [(houtcome.resolve_left fun hyes => hreply hyes.1).2]
            exact h.isPlaced hhome
          obtain ⟨cl', hhandle, hmirrors⟩ := Mirrors.asked h hresolve hallowed.cache hregister
            hlookup hcourse ⟨hmap, hcount⟩ req.msg.path2.zero_notMem_str ⟨hrecorded, hcount⟩ hs₀
            hslot hs hhome
            ((if_pos hop).trans (copyAt_eq hread hs (h.file_eq hslot hs hhome)))
            OneDisk.copied_disk_eq_update hdone hkept
          refine ⟨cl', _, _, hhandle, hmirrors, ?_⟩
          simp only [OneDisk.Handles, hop, if_neg hdisk]

theorem simulated_listPaths (h : Mirrors net resolve files₀ cl st)
    (hallowed : cl.Allowed net resolve req) (hop : req.msg.operation = .listPaths) :
    Simulated net resolve files₀ cl st req := by
  have hregister : req.msg.operation ≠ .registerSs := by simp [hop]
  have hlookup : ¬ req.msg.IsLookup := by simp [Message.IsLookup, hop]
  have hcourse : cl.nm.directory.course req.msg = .answered cl.nm.directory none := by
    simp only [Directory.course, hop]
  obtain ⟨cl', reply, hhandle, hmirrors, hnm, -⟩ :=
    Mirrors.refused h hallowed.cache hregister hlookup hcourse
  have hreply : reply = cl.nm.listPaths (cl.surroundings net resolve req) := by
    simp only [NamingServer.handleConnection, hop, Option.some.injEq, Prod.mk.injEq] at hnm
    exact hnm.2.symm
  refine ⟨cl', _, st, hhandle, hmirrors, ?_⟩
  simp only [OneDisk.Handles, hop, true_and]
  rw [hreply, NamingServer.listPaths]
  by_cases hmalloc : req.malloc
  · have hlists : OneDisk.Lists st.disk (cl.nm.pathTrie.trieCollectPaths req.tempPath) := by
      have hmem : ∀ p, p ∈ cl.nm.pathTrie.mappedPaths ↔ cl.nm.search p ≠ none := fun p =>
        TrieNode.mem_mappedPaths p _
      exact ⟨cl.nm.pathTrie.mappedPaths, TrieNode.inOrder_mappedPaths _,
        fun p => (hmem p).trans (h.mapped p).not,
        TrieNode.trieCollectPaths_eq _ _ fun p hp => h.strings p ((hmem p).mp hp)⟩
    rw [if_pos hmalloc]
    refine ⟨_, hlists, ?_⟩
    change Exchange.replied (if req.malloc then _ else _) = _
    rw [if_pos hmalloc]
    rfl
  · rw [if_neg hmalloc]
    change Exchange.replied (if req.malloc then _ else _) = _
    rw [if_neg hmalloc]

/-- A lookup is answered as the trie has it, and changes nothing in the naming server but the
cache. -/
theorem handle_lookup (h : cl.nm.Fresh) (hkeeps : cl.KeepsCacheFresh net resolve req)
    (hlookup : req.msg.IsLookup) :
    ∃ nm' cache, nm' = { cl.nm with pathLruCache := cache } ∧ nm'.Fresh ∧
      cl.handle net resolve req =
        some (⟨nm', (finish net resolve cl.files req (.answerLookup
            ((cl.nm.search req.msg.path.str).map cl.nm.registeredSs))).2⟩,
          (finish net resolve cl.files req (.answerLookup
            ((cl.nm.search req.msg.path.str).map cl.nm.registeredSs))).1) := by
  have hlive : cl.nm.pathLruCache.SlotLive req.msg.path.str := by
    rcases hlookup with hop | hop | hop <;>
      simpa only [KeepsCacheFresh, NamingServer.KeepsCacheFresh, hop] using hkeeps
  obtain ⟨nm', hnm, hfresh⟩ := h.lookUp (s := cl.surroundings net resolve req) hlive
  obtain ⟨cache, hframe⟩ := NamingServer.lookUp_frame hnm
  have hhandled : cl.nm.handleConnection req.msg (cl.surroundings net resolve req) = some (nm',
      .answerLookup ((cl.nm.search req.msg.path.str).map cl.nm.registeredSs)) := by
    rcases hlookup with hop | hop | hop <;>
      simpa only [NamingServer.handleConnection, hop] using hnm
  have hcourse : cl.nm.directory.course req.msg = .answered cl.nm.directory none := by
    rcases hlookup with hop | hop | hop <;> simp only [Directory.course, hop]
  have hhandle := handle_eq hhandled
  rw [forward_of_answered hcourse] at hhandle
  exact ⟨nm', cache, hframe, hfresh, hhandle⟩

/-- The client goes on to the server that the reply names. -/
theorem finish_located {files : Files F} {info : StorageServerInfo} {s : Server}
    (hs : Listens net info s) (hlookup : req.msg.IsLookup) :
    finish net resolve files req (.located info) =
      req.link.exchange files (serveAt resolve files s req.os req.msg) := by
  have hip : (Message.located info).ssIp.str = info.ip :=
    CharArray.str_ofBytes hs.terminated.1 hs.terminated.2
  have hport : (Message.located info).ssClientPort = info.clientPort := rfl
  have hok : (Message.located info).Succeeded := ⟨rfl, rfl⟩
  rw [finish, if_pos ⟨hok, hlookup⟩, atClientPort, hip, hport, hs.client]

theorem finish_notFound (files : Files F) :
    finish net resolve files req (.answerLookup none) =
      (.replied (.nack .fileNotFound), files) :=
  if_neg fun hf => Message.nack_not_succeeded _ hf.1

theorem simulated_lookup (h : Mirrors net resolve files₀ cl st)
    (hresolve : Function.Injective2 resolve) (hallowed : cl.Allowed net resolve req)
    (hlookup : req.msg.IsLookup) : Simulated net resolve files₀ cl st req := by
  obtain ⟨nm', cache, hframe, hfresh, hhandle⟩ := handle_lookup h.fresh hallowed.cache hlookup
  have hnum : nm'.numRegisteredSs = cl.nm.numRegisteredSs := by rw [hframe]
  have haddress : ∀ j, nm'.address j = cl.nm.address j := fun j => by rw [hframe]; rfl
  have hsearch : ∀ q, nm'.search q = cl.nm.search q := fun q => by rw [hframe]; rfl
  have hhandles : ∀ x st', OneDisk.Handles (brought net resolve files₀) st req x st' ↔
      (x, st') = if st.disk req.msg.path.str = none then st.refuse .fileNotFound
        else st.visit req.link (serve st.disk req.os req.msg) := fun x st' => by
    rcases hlookup with hop | hop | hop <;> simp only [OneDisk.Handles, hop]
  cases hfound : cl.nm.search req.msg.path.str with
  | none =>
      have hdisk := (h.mapped _).mp hfound
      rw [hfound, Option.map_none, finish_notFound] at hhandle
      refine ⟨_, _, st, hhandle, h.frame hfresh hnum haddress hsearch, ?_⟩
      rw [hhandles, if_pos hdisk]
      rfl
  | some slot =>
      have hdisk : st.disk req.msg.path.str ≠ none := by simp [← h.mapped, hfound]
      have hslot := h.fresh.registered _ _ hfound
      obtain ⟨s, hs⟩ := h.listening slot hslot
      have hhome : ∀ home, cl.nm.search req.msg.path.str = some home →
          Listens net (cl.nm.registeredSs home) s := fun home hsome => by
        obtain rfl : slot = home := Option.some.inj (hfound.symm.trans hsome)
        exact hs
      have hfinish : finish net resolve cl.files req (.located (cl.nm.registeredSs slot)) =
          req.link.exchange cl.files ((serve st.disk req.os req.msg).1,
            Function.update cl.files (resolve s req.msg.path.str)
              ((serve st.disk req.os req.msg).2 req.msg.path.str)) := by
        rw [finish_located hs hlookup, serveAt_eq (h.file_eq hslot hs hhome)]
      rw [hfound, Option.map_some, Message.answerLookup, hfinish] at hhandle
      have hdelete : req.msg.operation ≠ .deleteFile := by
        rcases hlookup with hop | hop | hop <;> simp [hop]
      have hplaced : Placed net cl.nm s ((serve st.disk req.os req.msg).2 req.msg.path.str)
          (cl.nm.search req.msg.path.str) :=
        Or.inr ⟨serve_present req.os hdelete hdisk, slot, hfound, hs⟩
      have hsame : nm'.search req.msg.path.str =
          if (req.link.exchange cl.files ((serve st.disk req.os req.msg).1,
            Function.update cl.files (resolve s req.msg.path.str)
              ((serve st.disk req.os req.msg).2 req.msg.path.str))).1.Succeeded
          then cl.nm.search req.msg.path.str else cl.nm.search req.msg.path.str := by
        rw [hsearch, ite_self]
      obtain ⟨hmirrors, hexchange⟩ := h.pass hresolve req.msg.path.zero_notMem_str hslot hs hhome
        hfresh hnum haddress (fun q _ => hsearch q) (serve_disk_eq_update _ _ _) rfl hsame
        (fun _ => hplaced) fun _ => hplaced
      refine ⟨_, _, _, hhandle, hmirrors, ?_⟩
      rw [hhandles, if_neg hdisk, hexchange]
      rfl

omit [DecidableEq F] in
theorem mem_listedPaths {msg : Message} {p : Path} : p ∈ msg.listedPaths ↔
    ∃ i ∈ NamingServer.pathIndices msg, p = (msg.accessiblePaths.get i).str := by
  simp only [Message.listedPaths, List.mem_map, eq_comm]

omit [DecidableEq F] in
/-- The naming server after an accepted registration. -/
theorem registered_eq {nm' : NamingServer LruCache} {slot : Slot} {reply : Message}
    (hslot : cl.nm.nextSlot = some slot)
    (hnm : cl.nm.registerSs req.msg = some (nm', reply)) :
    reply = .ack ∧ nm'.numRegisteredSs = slot.succ ∧
      (nm'.registeredSs slot).address =
        (req.msg.ssIp.str, req.msg.ssNmPort, req.msg.ssClientPort) ∧
      (∀ j, j ≠ slot → nm'.address j = cl.nm.address j) ∧
      ∀ q, nm'.search q = if q ∈ req.msg.listedPaths then some slot else cl.nm.search q := by
  rw [NamingServer.registerSs, hslot] at hnm
  obtain ⟨ns₁, hstore, heq⟩ := Option.map_eq_some_iff.mp hnm
  obtain ⟨rfl, rfl⟩ := Prod.mk.inj heq
  obtain ⟨haddress, hns₁, hother⟩ := NamingServer.storeSs_eq_some hstore
  obtain ⟨hfold, -, -⟩ :=
    NamingServer.foldl_registerPath_frame slot req.msg (NamingServer.pathIndices req.msg) ns₁
  refine ⟨rfl, rfl, (hfold slot).trans haddress, fun j hj => (hfold j).trans ?_, fun q => ?_⟩
  · exact congrArg StorageServerInfo.address (hother j hj)
  · refine (NamingServer.search_foldl_registerPath q slot req.msg _ ns₁).trans ?_
    simp only [mem_listedPaths]
    rw [hns₁]
    rfl

theorem simulated_registerSs (h : Mirrors net resolve files₀ cl st)
    (hallowed : cl.Allowed net resolve req) (hop : req.msg.operation = .registerSs) :
    Simulated net resolve files₀ cl st req := by
  have hlookup : ¬ req.msg.IsLookup := by simp [Message.IsLookup, hop]
  have hfits : NamingServer.FitsArrays req.msg := fun _ => req.sendable.2.2.2.2
  obtain ⟨nm', reply, hnm, hfresh⟩ := h.fresh.handleConnection hfits hallowed.cache
  have hforward : cl.forward net resolve req = (.receiveFailed, cl.files) := by
    simp only [forward, NamingServer.forwards, hop]
  have hfinish : finish net resolve cl.files req reply = (.replied reply, cl.files) :=
    if_neg fun hf => hlookup hf.2
  have hhandle := handle_eq hnm
  rw [hforward, hfinish] at hhandle
  replace hnm : cl.nm.registerSs req.msg = some (nm', reply) := by
    simpa only [NamingServer.handleConnection, hop] using hnm
  cases hslot : cl.nm.nextSlot with
  | none =>
      have hfull : ¬ st.servers < maxSs := fun hlt => by
        rw [NamingServer.nextSlot, dif_pos (h.servers ▸ hlt)] at hslot
        cases hslot
      rw [NamingServer.registerSs, hslot] at hnm
      obtain ⟨rfl, rfl⟩ := Prod.mk.inj (Option.some.inj hnm)
      refine ⟨_, _, st, hhandle, h, ?_⟩
      simp only [OneDisk.Handles, hop, if_neg hfull]
      rfl
  | some slot =>
      have hcount := NamingServer.nextSlot_eq_some hslot
      have hroom : st.servers < maxSs := by
        rw [h.servers, ← hcount]
        exact slot.isLt
      obtain ⟨rfl, hnum, hnew, hold, hsearch⟩ := registered_eq hslot hnm
      obtain ⟨s, hnmPort, hclientPort, hfree, hfiles, hunknown⟩ :=
        hallowed.newServer hop (by simp [hslot])
      have hlt : ∀ j : Slot, j.val < nm'.numRegisteredSs.val ↔
          j = slot ∨ j.val < cl.nm.numRegisteredSs.val := fun j => by
        rw [hnum, Fin.val_succ, Fin.ext_iff]
        omega
      have hne : ∀ j : Slot, j.val < cl.nm.numRegisteredSs.val → j ≠ slot := fun j hj heq => by
        rw [heq, hcount] at hj
        exact hj.ne rfl
      have hs : Listens net (nm'.registeredSs slot) s := by
        simp only [StorageServerInfo.address, Prod.mk.injEq] at hnew
        obtain ⟨hip, hnmp, hcp⟩ := hnew
        refine ⟨?_, ?_, ?_⟩
        · rw [hip]
          exact ⟨req.msg.ssIp.zero_notMem_str, req.sendable.2.2.1⟩
        · rw [hip, hnmp, hnmPort]
        · rw [hip, hcp, hclientPort]
      have holds : ∀ (j : Slot) s', j.val < cl.nm.numRegisteredSs.val →
          (Listens net (nm'.registeredSs j) s' ↔ Listens net (cl.nm.registeredSs j) s') :=
        fun j s' hj => ⟨fun hl => hl.congr (hold j (hne j hj)).symm,
          fun hl => hl.congr (hold j (hne j hj))⟩
      have hbrought : ∀ p, brought net resolve files₀ req.msg p = cl.files (resolve s p) :=
        fun p => by
          rw [brought, hnmPort, Option.bind_some, h.untouched s hfree]
      refine ⟨_, _, st.mount req.msg.listedPaths (brought net resolve files₀ req.msg), hhandle, ?_,
        ?_⟩
      · refine ⟨hfresh, ?_, fun j hj => ?_, fun p => ?_, fun p hp => ?_, fun p j s' hp hj => ?_,
          fun j s' p hj hs' hp => ?_, fun s' hs' p => ?_⟩
        · change st.servers + 1 = nm'.numRegisteredSs.val
          rw [h.servers, hnum, Fin.val_succ, hcount]
        · rcases (hlt j).mp hj with rfl | hj
          · exact ⟨s, hs⟩
          · exact (h.listening j hj).imp fun s' => (holds j s' hj).mpr
        · change nm'.search p = none ↔ (if p ∈ req.msg.listedPaths then _ else _) = none
          rw [hsearch]
          by_cases hmem : p ∈ req.msg.listedPaths
          · rw [if_pos hmem, if_pos hmem, hbrought]
            exact iff_of_false (Option.some_ne_none slot) ((hfiles p).mpr hmem)
          · rw [if_neg hmem, if_neg hmem]
            exact h.mapped p
        · change nm'.search p ≠ none at hp
          rw [hsearch] at hp
          split_ifs at hp with hmem
          · obtain ⟨i, -, rfl⟩ := mem_listedPaths.mp hmem
            exact CharArray.zero_notMem_str _
          · exact h.strings p hp
        · change nm'.search p = some j at hp
          change cl.files (resolve s' p) = if p ∈ req.msg.listedPaths then _ else _
          rw [hsearch] at hp
          split_ifs at hp ⊢ with hmem
          · obtain rfl := Option.some.inj hp
            obtain rfl := hs.eq hj
            exact (hbrought p).symm
          · exact h.placed p j s' hp ((holds j s' (h.fresh.registered p j hp)).mp hj)
        · change cl.files (resolve s' p) ≠ none at hp
          change ∃ home, nm'.search p = some home ∧ Listens net (nm'.registeredSs home) s'
          rw [hsearch]
          rcases (hlt j).mp hj with rfl | hj
          · obtain rfl := hs.eq hs'
            rw [if_pos ((hfiles p).mp hp)]
            exact ⟨j, rfl, hs⟩
          · obtain ⟨home, hhome, hlistens⟩ := h.only j s' p hj ((holds j s' hj).mp hs') hp
            rw [if_neg fun hmem => by simp [hunknown p hmem] at hhome]
            have hhome' := h.fresh.registered p home hhome
            exact ⟨home, hhome, (holds home s' hhome').mpr hlistens⟩
        · refine h.untouched s' (fun j hj hlistens => ?_) p
          exact hs' j ((hlt j).mpr (Or.inr hj)) ((holds j s' hj).mpr hlistens)
      · simp only [OneDisk.Handles, hop, if_pos hroom]

theorem simulated (h : Mirrors net resolve files₀ cl st) (hresolve : Function.Injective2 resolve)
    (hallowed : cl.Allowed net resolve req) : Simulated net resolve files₀ cl st req := by
  by_cases hlookup : req.msg.IsLookup
  · exact simulated_lookup h hresolve hallowed hlookup
  cases hop : req.msg.operation with
  | registerSs => exact simulated_registerSs h hallowed hop
  | listPaths => exact simulated_listPaths h hallowed hop
  | createFile => exact simulated_createFile h hresolve hallowed hop
  | deleteFile => exact simulated_deleteFile h hresolve hallowed hop
  | copyFile => exact simulated_copyFile h hresolve hallowed hop
  | readFile | writeFile | getFileInfo => simp [Message.IsLookup, hop] at hlookup
  | _ =>
      have hcourse : cl.nm.directory.course req.msg =
          .answered cl.nm.directory (some (.nack .invalidOperation)) := by
        simp only [Directory.course, hop]
      obtain ⟨cl', reply, hhandle, hmirrors, -, hreply⟩ :=
        Mirrors.refused h hallowed.cache (by simp [hop]) hlookup hcourse
      refine ⟨cl', _, st, hhandle, hmirrors, ?_⟩
      simp only [OneDisk.Handles, hop, hreply _ rfl]
      rfl

omit [DecidableEq F] in
theorem mirrors_start (net : Network) (resolve : Server → Path → F) (files₀ : Files F) :
    Mirrors net resolve files₀ (start files₀) .empty where
  fresh := NamingServer.fresh_init
  servers := rfl
  listening := nofun
  mapped p := iff_of_true (NamingServer.search_init p _) rfl
  strings p hp := absurd (NamingServer.search_init p _) hp
  placed p slot s hp := by
    rw [start, NamingServer.search_init] at hp
    cases hp
  only := nofun
  untouched _ _ _ := rfl

/-- The request with its answer. -/
def answered (net : Network) (resolve : Server → Path → F) (cl : Cluster F) (req : ClientRequest)
    (_ : Cluster F) : List (ClientRequest × Exchange) :=
  ((cl.handle net resolve req).map fun x => (req, x.2)).toList

/-- The requests of a run with the answers that the clients get. -/
def conversation (net : Network) (resolve : Server → Path → F) (files₀ : Files F)
    (reqs : List ClientRequest) : List (ClientRequest × Exchange) :=
  Machine.outputs (step net resolve) (answered net resolve) (start files₀) reqs

/-- To its clients the system is one server with one disk: a run of allowed requests is handled to
its end, and the answers are those of the one disk. -/
theorem sequential_oneDisk (net : Network) (resolve : Server → Path → F) (files₀ : Files F)
    (reqs : List ClientRequest) (hresolve : Function.Injective2 resolve)
    (hallowed : Machine.EachStep (step net resolve) (Allowed net resolve) (start files₀) reqs) :
    ∃ st, (conversation net resolve files₀ reqs).map Prod.fst = reqs ∧
      Linearizability.Sequential (OneDisk.Handles (brought net resolve files₀)) .empty
        (conversation net resolve files₀ reqs) st := by
  obtain ⟨cl, -, -, hreqs, st, -, hsequential⟩ := hallowed.defined
    (I := fun pre cl => Machine.run (step net resolve) (start files₀) pre = some cl ∧
      (conversation net resolve files₀ pre).map Prod.fst = pre ∧
      ∃ st, Mirrors net resolve files₀ cl st ∧ Linearizability.Sequential
        (OneDisk.Handles (brought net resolve files₀)) .empty
        (conversation net resolve files₀ pre) st)
    ⟨rfl, rfl, .empty, mirrors_start net resolve files₀, .nil⟩ <| by
      rintro pre cl req ⟨hrun, hreqs, st, hmirrors, hsequential⟩ hallowed
      obtain ⟨cl', x, st', hhandle, hmirrors', hhandles⟩ := simulated hmirrors hresolve hallowed
      have hstep : step net resolve cl req = some cl' := congrArg (Option.map Prod.fst) hhandle
      have hconversation : conversation net resolve files₀ (pre ++ [req]) =
          conversation net resolve files₀ pre ++ [(req, x)] := by
        rw [conversation, Machine.outputs_append hrun, Machine.outputs_singleton hstep, answered,
          hhandle]
        rfl
      refine ⟨cl', hstep, Machine.run_concat_eq_some.mpr ⟨cl, hrun, hstep⟩, ?_, st', hmirrors', ?_⟩
      · rw [hconversation, List.map_append, hreqs]
        rfl
      · rw [hconversation]
        exact hsequential.snoc hhandles
  exact ⟨st, hreqs, hsequential⟩

end

open ClientRequest

/-- A request that needs a storage server only for a lookup. -/
theorem Allowed.of_lookup {F : Type} [DecidableEq F] {net : Network} {resolve : Server → Path → F}
    {cl : Cluster F} {req : ClientRequest} (hlookup : req.msg.IsLookup)
    (hlive : cl.nm.pathLruCache.SlotLive req.msg.path.str) : cl.Allowed net resolve req where
  cache := by
    rcases hlookup with hop | hop | hop <;>
      simpa only [KeepsCacheFresh, NamingServer.KeepsCacheFresh, hop] using hlive
  newServer hop := by simp [Message.IsLookup, hop] at hlookup
  received hop := by
    rcases hop with hop | hop | ⟨hop, -⟩ <;> simp [Message.IsLookup, hop] at hlookup
  whole hop := by simp [Message.IsLookup, hop] at hlookup

theorem sequential_oneDisk_createB :
    ∃ st, (conversation portNetwork hostEach notesAtA [registerTwo, createB, readB]).map Prod.fst =
        [registerTwo, createB, readB] ∧
      Linearizability.Sequential (OneDisk.Handles (brought portNetwork hostEach notesAtA)) .empty
        (conversation portNetwork hostEach notesAtA [registerTwo, createB, readB]) st := by
  have hresolve : Function.Injective2 hostEach := fun _ _ _ _ heq => Prod.mk.inj heq
  have hlisted : registerTwo.msg.listedPaths = [[47, 97]] := by decide +kernel
  have hports : portNetwork.nmListener registerTwo.msg.ssIp.str registerTwo.msg.ssNmPort = some 2 ∧
      portNetwork.clientListener registerTwo.msg.ssIp.str registerTwo.msg.ssClientPort =
        some 2 := by
    decide +kernel
  have hfiles : ∀ p, notesAtA (hostEach 2 p) ≠ none ↔ p = [47, 97] := fun p => by
    by_cases hp : p = [47, 97] <;> simp [notesAtA, hostEach, hp]
  have hlive : ((step portNetwork hostEach (start notesAtA) registerTwo).bind
      (step portNetwork hostEach · createB)).all fun cl =>
        cl.nm.pathLruCache.SlotLive readB.msg.path.str := by
    decide +kernel
  refine sequential_oneDisk portNetwork hostEach notesAtA [registerTwo, createB, readB] hresolve ?_
  have hregister : createB.msg.operation ≠ .registerSs := by decide
  have hcopy : registerTwo.msg.operation ≠ .copyFile ∧ createB.msg.operation ≠ .copyFile := by
    decide
  refine .cons ⟨fun _ p n hp => (by cases hp), fun _ _ => ?_, fun _ => nofun,
    fun hop => absurd hop hcopy.1⟩ fun cl hcl => .cons ⟨trivial, fun hop => absurd hop hregister,
      fun _ => nofun, fun hop => absurd hop hcopy.2⟩ fun cl' hcl' =>
        .cons (.of_lookup (Or.inl rfl) ?_) fun _ _ => Machine.eachStep_nil _ _
  · refine ⟨2, hports.1, hports.2, nofun, fun p => ?_, fun p _ => ?_⟩
    · rw [hlisted, List.mem_singleton]
      exact hfiles p
    · exact NamingServer.search_init p _
  · rw [hcl, Option.bind_some, hcl'] at hlive
    exact of_decide_eq_true hlive

end Cluster
end NetworkFileSystem
