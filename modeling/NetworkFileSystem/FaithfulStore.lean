import NetworkFileSystem.System

/-!
# What a storage server stores

A write truncates the file before `fwrite`, and nothing restores the old content. A read delivers
one byte less than a message carries. The file server of this module gets one request after the
other, on either port.
-/

namespace NetworkFileSystem

namespace Disk

variable {disk : Disk} {os : Os} {path : Path} {data : List UInt8}

theorem openWrite_eq_none_iff :
    disk.openWrite os path = none ↔ os.opened = false ∨ disk path = some .dir := by
  rw [openWrite]
  rcases os.opened with _ | _ <;> rcases disk path with _ | _ | _ | _ <;> simp

theorem openWrite_of_regular (hopen : os.opened = true) (hdir : disk path ≠ some .dir)
    (hspecial : disk path ≠ some .special) :
    disk.openWrite os path = some (Function.update disk path (some (.file []))) := by
  rw [openWrite, hopen]
  rcases h : disk path with _ | _ | _ | _
  · rfl
  · rfl
  · exact absurd h hdir
  · exact absurd h hspecial

theorem ssWrite_of_openWrite_eq_none (h : disk.openWrite os path = none) :
    disk.ssWrite os path data = (.permissionDenied, disk) := by
  rw [ssWrite, h]

/-- The old content of the file plays no part. -/
theorem ssWrite_of_regular (hopen : os.opened = true) (hdir : disk path ≠ some .dir)
    (hspecial : disk path ≠ some .special) :
    disk.ssWrite os path data =
      (if data.length ≤ os.writable then .success else .asyncWriteFailed,
        Function.update disk path (some (.file (data.take (min os.writable os.flushed))))) := by
  rw [ssWrite, openWrite_of_regular hopen hdir hspecial]
  simp [store]

/-- The outcomes of a write: the file is not opened, or its content is replaced by as many of the
bytes as reach it. -/
theorem ssWrite_outcome (hspecial : disk path ≠ some .special) :
    disk.ssWrite os path data = (.permissionDenied, disk) ∨
      disk.ssWrite os path data =
        (if data.length ≤ os.writable then .success else .asyncWriteFailed,
          Function.update disk path (some (.file (data.take (min os.writable os.flushed))))) := by
  cases hopen : disk.openWrite os path with
  | none => exact Or.inl (ssWrite_of_openWrite_eq_none hopen)
  | some disk' =>
      have hsome : ¬ (os.opened = false ∨ disk path = some .dir) := by
        rw [← openWrite_eq_none_iff, hopen]
        exact Option.some_ne_none disk'
      rw [not_or, Bool.not_eq_false] at hsome
      exact Or.inr (ssWrite_of_regular hsome.1 hsome.2 hspecial)

/-- SUCCESS says that `fwrite` accepted all bytes, which are then the content unless the flush
fails. A write that is refused changes nothing; a partial write leaves the first bytes. -/
theorem ssWrite_content {disk' : Disk} {code : ErrorCode} (hspecial : disk path ≠ some .special)
    (hwrite : disk.ssWrite os path data = (code, disk')) :
    (code = .success → data.length ≤ os.writable ∧
        (data.length ≤ os.flushed → disk' path = some (.file data))) ∧
      (code ≠ .success → code = .permissionDenied ∧ disk' = disk ∨
        code = .asyncWriteFailed ∧ os.writable < data.length ∧
          disk' path = some (.file (data.take (min os.writable os.flushed)))) ∧
      ∀ q, q ≠ path → disk' q = disk q := by
  rcases ssWrite_outcome hspecial with h | h
  · obtain ⟨rfl, rfl⟩ := Prod.mk.inj (h.symm.trans hwrite)
    exact ⟨fun hcode => absurd hcode (by decide), fun _ => Or.inl ⟨rfl, rfl⟩, fun _ _ => rfl⟩
  · obtain ⟨rfl, rfl⟩ := Prod.mk.inj (h.symm.trans hwrite)
    rw [Function.update_self]
    refine ⟨fun hcode => ?_, fun hcode => Or.inr ?_, fun q hq => Function.update_of_ne hq _ _⟩
    · by_cases hle : data.length ≤ os.writable
      · refine ⟨hle, fun hflush => ?_⟩
        rw [List.take_of_length_le (le_min hle hflush)]
      · rw [if_neg hle] at hcode
        exact absurd hcode (by decide)
    · by_cases hle : data.length ≤ os.writable
      · exact absurd (if_pos hle) hcode
      · exact ⟨if_neg hle, not_le.mp hle, rfl⟩

theorem ssWrite_content_ok :
    ∃ disk', ssWrite (fun _ => none) Os.ok [47, 97] [104, 105] = (.success, disk') ∧
      disk' [47, 97] = some (.file [104, 105]) := by
  have hspecial : (none : Option FileObject) ≠ some .special := by decide
  have hwrite : ssWrite (fun _ => none) Os.ok [47, 97] [104, 105] = (.success, _) := rfl
  have hflush : [(104 : UInt8), 105].length ≤ Os.ok.flushed := by decide
  exact ⟨_, hwrite, ((ssWrite_content hspecial hwrite).1 rfl).2 hflush⟩

/-- SUCCESS is returned for the new content only, an error for the old one only. -/
def WritesAllOrNothing (disk : Disk) (os : Os) (path : Path) (data : List UInt8) : Prop :=
  ((disk.ssWrite os path data).1 = .success →
      (disk.ssWrite os path data).2 path = some (.file data)) ∧
    ((disk.ssWrite os path data).1 ≠ .success →
      (disk.ssWrite os path data).2 path = disk path)

/-- A partial write is all or nothing only where the old content was what it leaves. -/
theorem writesAllOrNothing_iff (hspecial : disk path ≠ some .special) :
    disk.WritesAllOrNothing os path data ↔
      os.opened = false ∨ disk path = some .dir ∨
        (data.length ≤ os.writable ∧ data.length ≤ os.flushed) ∨
        (os.writable < data.length ∧
          disk path = some (.file (data.take (min os.writable os.flushed)))) := by
  unfold WritesAllOrNothing
  by_cases hopen : os.opened = false ∨ disk path = some .dir
  · rw [ssWrite_of_openWrite_eq_none (openWrite_eq_none_iff.mpr hopen)]
    have hcode : ErrorCode.permissionDenied ≠ .success := by decide
    refine iff_of_true ⟨fun h => absurd h hcode, fun _ => rfl⟩ ?_
    exact hopen.imp_right Or.inl
  · rw [← or_assoc, or_iff_right hopen]
    rw [not_or, Bool.not_eq_false] at hopen
    rw [ssWrite_of_regular hopen.1 hopen.2 hspecial]
    simp only [Function.update_self]
    by_cases hle : data.length ≤ os.writable
    · rw [if_pos hle]
      simp only [forall_const, ne_eq, not_true_eq_false, false_implies, and_true, hle, true_and,
        not_lt.mpr hle, false_and, or_false, Option.some.injEq, FileObject.file.injEq,
        List.take_eq_self_iff, le_min_iff]
    · have hcode : ErrorCode.asyncWriteFailed ≠ .success := by decide
      rw [if_neg hle]
      simp only [hcode, false_implies, true_and, ne_eq, not_false_eq_true, forall_const, hle,
        false_and, false_or, not_le.mp hle]
      exact eq_comm

/-- One of two bytes is accepted, and the old content is gone. -/
theorem partial_write_loses_content :
    ∃ (disk : Disk) (os : Os) (path : Path) (data : List UInt8), data.length ≤ maxDataSize ∧
      disk path = some (.file [1, 2, 3]) ∧ ¬ disk.WritesAllOrNothing os path data := by
  refine ⟨fun _ => some (.file [1, 2, 3]), { Os.ok with writable := 1 }, [47, 97], [104, 105],
    by decide, rfl, fun h => ?_⟩
  have hold := (writesAllOrNothing_iff (by decide)).mp h
  revert hold
  decide

end Disk

/-! ### One request after the other -/

/-- What the handler of the operation makes of the disk, with its reply. A COPY_FILE, which needs
a second server, is left out. -/
def serve (disk : Disk) (os : Os) (msg : Message) : Message × Disk :=
  match msg.operation with
  | .readFile =>
    let (code, bytes) := disk.readFile os msg
    (.readResult code bytes, disk)
  | .writeFile =>
    let (code, disk) := disk.writeFile os msg
    (.result code, disk)
  | .getFileInfo =>
    let (code, type, text) := disk.getFileInfo os msg
    (.infoResult code type text, disk)
  | .createFile =>
    let (code, disk) := disk.createFile os msg
    (.result code, disk)
  | .deleteFile =>
    let (code, disk) := disk.deleteFile os msg
    (.result code, disk)
  | _ => (.nack .invalidOperation, disk)

section Serve

variable {disk : Disk} {os : Os} {msg : Message}

theorem serve_read (h : msg.operation = .readFile) : serve disk os msg =
    (.readResult (disk.readFile os msg).1 (disk.readFile os msg).2, disk) := by
  simp only [serve, h]

theorem serve_write (h : msg.operation = .writeFile) : serve disk os msg =
    (.result (disk.writeFile os msg).1, (disk.writeFile os msg).2) := by
  simp only [serve, h]

theorem serve_create (h : msg.operation = .createFile) : serve disk os msg =
    (.result (disk.createFile os msg).1, (disk.createFile os msg).2) := by
  simp only [serve, h]

theorem serve_delete (h : msg.operation = .deleteFile) : serve disk os msg =
    (.result (disk.deleteFile os msg).1, (disk.deleteFile os msg).2) := by
  simp only [serve, h]

theorem serve_disk_of_other (hwrite : msg.operation ≠ .writeFile)
    (hcreate : msg.operation ≠ .createFile) (hdelete : msg.operation ≠ .deleteFile) :
    (serve disk os msg).2 = disk := by
  unfold serve
  split <;> first | rfl | contradiction

/-- The handlers of the system serve their requests in this way. -/
theorem ssClientStep_eq_serve {sh : Shared} {t : Threads} {s : Server}
    (hop : msg.operation = .readFile ∨ msg.operation = .writeFile)
    (ht : t.ssClient = .incoming s msg) :
    ∃ es, ssClientStep sh t os =
      some ({ sh with disks := Function.update sh.disks s (serve (sh.disks s) os msg).2 },
        { t with ssClient := .answering s (serve (sh.disks s) os msg).1 }, es) := by
  rcases hop with hop | hop
  · refine ⟨[.executed s (.read msg.path.str ((sh.disks s).readFile os msg).2) os
      ((sh.disks s).readFile os msg).1], ?_⟩
    rw [serve_read hop, Function.update_eq_self]
    simp only [ssClientStep, ht, hop]
  · refine ⟨[.executed s (.write msg.path.str msg.payload) os
      ((sh.disks s).writeFile os msg).1], ?_⟩
    rw [serve_write hop]
    simp only [ssClientStep, ht, hop]

theorem ssNmStep_eq_serve {net : Network} {sh : Shared} {t : Threads} {s : Server}
    (hop : msg.operation = .createFile ∨ msg.operation = .deleteFile)
    (ht : t.ssNm = .incoming s msg) :
    ∃ es, ssNmStep net sh t os =
      some ({ sh with disks := Function.update sh.disks s (serve (sh.disks s) os msg).2 },
        { t with ssNm := .answering s (serve (sh.disks s) os msg).1 }, es) := by
  rcases hop with hop | hop
  · refine ⟨[.executed s (.create msg.path.str msg.fileType) os
      ((sh.disks s).createFile os msg).1], ?_⟩
    rw [serve_create hop]
    simp only [ssNmStep, ht, hop]
  · refine ⟨[.executed s (.delete msg.path.str) os ((sh.disks s).deleteFile os msg).1], ?_⟩
    rw [serve_delete hop]
    simp only [ssNmStep, ht, hop]

/-- No other path is touched. -/
theorem serve_of_ne {q : Path} (hq : q ≠ msg.path.str) : (serve disk os msg).2 q = disk q := by
  by_cases hwrite : msg.operation = .writeFile
  · rw [serve_write hwrite]
    rcases disk.writeFile_cases os msg with ⟨_, -, -, h⟩ | ⟨_, _, h, -, hwritten⟩ <;> rw [h]
    exact hwritten.2 q hq
  by_cases hcreate : msg.operation = .createFile
  · rw [serve_create hcreate]
    rcases disk.createFile_cases os msg with ⟨_, -, h⟩ | ⟨_, h, hwritten⟩ <;> rw [h]
    exact hwritten.2 q hq
  by_cases hdelete : msg.operation = .deleteFile
  · rw [serve_delete hdelete]
    rcases disk.deleteFile_cases os msg with ⟨_, -, h⟩ | ⟨-, h⟩ <;> rw [h]
    exact Function.update_of_ne hq _ _
  rw [serve_disk_of_other hwrite hcreate hdelete]

end Serve

/-- A request to a storage server, with what the operating system does for it. -/
structure StoreRequest where
  msg : Message
  os : Os
  sized : msg.operation = .writeFile → 0 ≤ msg.dataSize.toInt ∧ msg.dataSize.toInt ≤ maxDataSize
  noFailure : maxDataSize ≤ os.readable ∧ maxDataSize ≤ os.writable ∧ maxDataSize ≤ os.flushed

/-- A disk with the requests served so far and their replies. -/
structure Store where
  disk : Disk
  history : List (Message × Message)

namespace Store

def start (disk : Disk) : Store := ⟨disk, []⟩

def handle (st : Store) (req : StoreRequest) : Store where
  disk := (serve st.disk req.os req.msg).2
  history := st.history ++ [(req.msg, (serve st.disk req.os req.msg).1)]

def run (disk : Disk) (reqs : List StoreRequest) : Store := reqs.foldl handle (start disk)

@[simp] theorem run_concat (disk : Disk) (reqs : List StoreRequest) (req : StoreRequest) :
    run disk (reqs ++ [req]) = (run disk reqs).handle req := by
  rw [run, List.foldl_append]
  rfl

/-- What a successful WRITE_FILE or CREATE_FILE stores at the path. -/
def storedBy (path : Path) (x : Message × Message) : Option (List UInt8) :=
  if x.1.path.str = path ∧ x.2.Succeeded then
    match x.1.operation with
    | .writeFile => some x.1.payload
    | .createFile => some []
    | _ => none
  else none

/-- What was stored at the path last. -/
def lastStored (history : List (Message × Message)) (path : Path) : Option (List UInt8) :=
  history.reverse.findSome? (storedBy path)

theorem lastStored_concat (history : List (Message × Message)) (x : Message × Message)
    (path : Path) :
    lastStored (history ++ [x]) path = (storedBy path x).or (lastStored history path) := by
  rw [lastStored, List.reverse_append, List.reverse_singleton, List.singleton_append,
    List.findSome?_cons]
  cases storedBy path x <;> rfl

/-- An object at the path is a directory or a file with the content stored last. -/
def Holds (disk : Disk) (path : Path) (last : Option (List UInt8)) : Prop :=
  disk path ≠ some .special ∧ ∀ content, last = some content →
    disk path = none ∨ disk path = some (.file content) ∨
      (disk path = some .dir ∧ content = [])

variable {disk : Disk} {path : Path} {last : Option (List UInt8)}

theorem storedBy_of_ne {x : Message × Message} (h : x.1.path.str ≠ path) :
    storedBy path x = none := if_neg fun hx => h hx.1

theorem storedBy_of_failed {x : Message × Message} (h : ¬ x.2.Succeeded) :
    storedBy path x = none := if_neg fun hx => h hx.2

theorem storedBy_of_other {x : Message × Message} (hwrite : x.1.operation ≠ .writeFile)
    (hcreate : x.1.operation ≠ .createFile) : storedBy path x = none := by
  unfold storedBy
  split_ifs
  · split <;> first | rfl | contradiction
  · rfl

theorem length_payload_le (msg : Message) : msg.payload.length ≤ maxDataSize :=
  (List.length_take_le' _ _).trans_eq msg.data.toList_length

/-- A write stores the payload, or it changes nothing and reports an error. -/
theorem writeFile_stores (req : StoreRequest) (hspecial : disk req.msg.path.str ≠ some .special) :
    (∃ code, code ≠ .success ∧ disk.writeFile req.os req.msg = (code, disk)) ∨
      disk.writeFile req.os req.msg =
        (.success, Function.update disk req.msg.path.str (some (.file req.msg.payload))) := by
  obtain ⟨-, hwritable, hflushed⟩ := req.noFailure
  have hlen := length_payload_le req.msg
  rw [Disk.writeFile]
  split_ifs with hlock
  · rcases @Disk.ssWrite_outcome disk req.os req.msg.path.str req.msg.payload hspecial with h | h
    · exact Or.inl ⟨.permissionDenied, by decide, h⟩
    · rw [if_pos (hlen.trans hwritable), List.take_of_length_le (by omega)] at h
      exact Or.inr h
  · exact Or.inl ⟨.fileInUse, by decide, rfl⟩

/-- A creation leaves an empty file or a directory, or it changes nothing and reports an error. -/
theorem createFile_stores (os : Os) (msg : Message)
    (hspecial : disk msg.path.str ≠ some .special) :
    (∃ code, code ≠ .success ∧ disk.createFile os msg = (code, disk)) ∨
      ∃ object, (object = .file [] ∨ object = .dir) ∧ disk.createFile os msg =
        (.success, Function.update disk msg.path.str (some object)) := by
  rw [Disk.createFile]
  split_ifs with hlock
  · rcases htype : msg.fileType with _ | _ | _ | _
    case file =>
      by_cases hopen : os.opened = false ∨ disk msg.path.str = some .dir
      · have hnone := Disk.openWrite_eq_none_iff.mpr hopen
        exact Or.inl ⟨.permissionDenied, by decide, by rw [Disk.ssCreate, hnone]⟩
      · rw [not_or, Bool.not_eq_false] at hopen
        have hsome := Disk.openWrite_of_regular hopen.1 hopen.2 hspecial
        exact Or.inr ⟨.file [], Or.inl rfl, by rw [Disk.ssCreate, hsome]⟩
    case dir =>
      by_cases hmk : os.opened ∧ disk msg.path.str = none
      · exact Or.inr ⟨.dir, Or.inr rfl, if_pos hmk⟩
      · exact Or.inl ⟨.permissionDenied, by decide, if_neg hmk⟩
    all_goals exact Or.inl ⟨.invalidOperation, by decide, rfl⟩
  · exact Or.inl ⟨.fileInUse, by decide, rfl⟩

/-- A request that stores nothing leaves the object alone or removes it. -/
theorem Holds.of_unchanged {disk' : Disk} (h : Holds disk path last)
    (hsame : disk' path = disk path ∨ disk' path = none) : Holds disk' path last := by
  rcases hsame with hsame | hsame
  · unfold Holds
    rw [hsame]
    exact h
  · unfold Holds
    rw [hsame]
    exact ⟨nofun, fun _ _ => Or.inl rfl⟩

theorem Holds.after_serve (h : Holds disk path last) (req : StoreRequest) :
    Holds (serve disk req.os req.msg).2 path
      ((storedBy path (req.msg, (serve disk req.os req.msg).1)).or last) := by
  by_cases hpath : req.msg.path.str = path
  swap
  · rw [storedBy_of_ne hpath, Option.none_or]
    exact h.of_unchanged (Or.inl (serve_of_ne (Ne.symm hpath)))
  subst hpath
  by_cases hwrite : req.msg.operation = .writeFile
  · rw [serve_write hwrite]
    rcases writeFile_stores req h.1 with ⟨code, hcode, heq⟩ | heq <;> rw [heq]
    · rw [storedBy_of_failed ((Message.result_succeeded_iff code).not.mpr hcode), Option.none_or]
      exact h
    · have hstored : storedBy req.msg.path.str (req.msg, .result .success) =
          some req.msg.payload := by
        rw [storedBy, if_pos ⟨rfl, (Message.result_succeeded_iff _).mpr rfl⟩, hwrite]
      rw [hstored, Option.some_or]
      refine ⟨by simp, fun content hcontent => Or.inr (Or.inl ?_)⟩
      rw [← Option.some.inj hcontent]
      exact Function.update_self _ _ _
  by_cases hcreate : req.msg.operation = .createFile
  · rw [serve_create hcreate]
    rcases createFile_stores req.os req.msg h.1 with ⟨code, hcode, heq⟩ | ⟨object, hobject, heq⟩ <;>
      rw [heq]
    · rw [storedBy_of_failed ((Message.result_succeeded_iff code).not.mpr hcode), Option.none_or]
      exact h
    · have hstored : storedBy req.msg.path.str (req.msg, .result .success) = some [] := by
        rw [storedBy, if_pos ⟨rfl, (Message.result_succeeded_iff _).mpr rfl⟩, hcreate]
      rw [hstored, Option.some_or]
      unfold Holds
      simp only [Function.update_self]
      rcases hobject with rfl | rfl
      · exact ⟨by simp, fun content hcontent => Or.inr (Or.inl (by simp_all))⟩
      · exact ⟨by simp, fun content hcontent => Or.inr (Or.inr (by simp_all))⟩
  rw [storedBy_of_other hwrite hcreate, Option.none_or]
  by_cases hdelete : req.msg.operation = .deleteFile
  · rw [serve_delete hdelete]
    rcases disk.deleteFile_cases req.os req.msg with ⟨_, -, heq⟩ | ⟨-, heq⟩ <;> rw [heq]
    · exact h
    · exact h.of_unchanged (Or.inr (Function.update_self _ _ _))
  · rw [serve_disk_of_other hwrite hcreate hdelete]
    exact h

theorem holds_run (hspecial : disk path ≠ some .special) (reqs : List StoreRequest) :
    Holds (run disk reqs).disk path (lastStored (run disk reqs).history path) := by
  induction reqs using List.reverseRecOn with
  | nil => exact ⟨hspecial, nofun⟩
  | append_singleton reqs req ih =>
      rw [run_concat, handle, lastStored_concat]
      exact ih.after_serve req

/-- A read delivers what the object holds, up to one byte less than a message carries. -/
theorem Holds.read {content : List UInt8} (h : Holds disk path (some content))
    {req : StoreRequest} (hread : req.msg.operation = .readFile) (hpath : req.msg.path.str = path)
    (hok : (serve disk req.os req.msg).1.Succeeded) :
    (serve disk req.os req.msg).1 =
      .readResult .success (content.take (maxDataSize - 1)) := by
  have hreadable : min (maxDataSize - 1) req.os.readable = maxDataSize - 1 :=
    min_eq_left ((Nat.sub_le _ _).trans req.noFailure.1)
  rw [serve_read hread] at hok ⊢
  have hcode : (disk.readFile req.os req.msg).1 = .success := hok.2
  rw [Disk.readFile, hpath] at hcode ⊢
  have hfound : ErrorCode.fileNotFound ≠ .success := by decide
  split_ifs at hcode ⊢ with hlock
  · rcases hopen : req.os.opened with _ | _
    · rw [Disk.ssRead, hopen] at hcode
      exact absurd hcode hfound
    · rcases h.2 content rfl with hnone | hfile | ⟨hdir, rfl⟩
      · rw [Disk.ssRead, hopen, hnone] at hcode
        exact absurd hcode hfound
      · rw [Disk.ssRead, hopen, hfile, hreadable]
        rfl
      · rw [Disk.ssRead, hopen, hdir, hreadable]
        rfl
  · exact absurd hcode (by decide)

theorem payload_read (content : List UInt8) :
    (Message.readResult .success (content.take (maxDataSize - 1))).payload =
        content.take (maxDataSize - 1) ∧
      (Message.readResult .success (content.take (maxDataSize - 1))).dataSize.toInt =
        min content.length (maxDataSize - 1) := by
  have hlen : (content.take (maxDataSize - 1)).length ≤ maxDataSize - 1 :=
    List.length_take_le _ _
  refine ⟨Message.payload_readResult _ hlen, ?_⟩
  rw [Message.dataSize_readResult _ hlen, List.length_take, min_comm]

/-- A READ_FILE that succeeds returns what was last stored at its path, up to one byte less than a
message carries. -/
theorem read_returns_lastStored (reqs : List StoreRequest) {req : StoreRequest}
    {content : List UInt8} (hspecial : disk req.msg.path.str ≠ some .special)
    (hread : req.msg.operation = .readFile)
    (hlast : lastStored (run disk reqs).history req.msg.path.str = some content)
    (hok : (serve (run disk reqs).disk req.os req.msg).1.Succeeded) :
    let reply := (serve (run disk reqs).disk req.os req.msg).1
    reply.payload = content.take (maxDataSize - 1) ∧
      reply.dataSize.toInt = min content.length (maxDataSize - 1) := by
  have hholds := holds_run hspecial reqs
  rw [hlast] at hholds
  rw [hholds.read hread rfl hok]
  exact payload_read content

/-- A WRITE_FILE of `/a`. -/
def writeA (bytes : List UInt8) : StoreRequest where
  msg :=
    { Message.zero with
      operation := .writeFile
      path := .ofBytes _ [47, 97]
      data := .ofBytes _ bytes
      dataSize := Int32.ofNat (min bytes.length maxDataSize) }
  os := Os.ok
  sized _ := by
    have hle : min bytes.length maxDataSize ≤ 8192 := min_le_right _ _
    change 0 ≤ (Int32.ofNat (min bytes.length maxDataSize)).toInt ∧
      (Int32.ofNat (min bytes.length maxDataSize)).toInt ≤ _
    rw [Int32.toInt_ofNat_of_lt (by omega)]
    omega
  noFailure := ⟨le_rfl, le_rfl, le_rfl⟩

def readA : StoreRequest where
  msg := { Message.zero with operation := .readFile, path := .ofBytes _ [47, 97] }
  os := Os.ok
  sized := nofun
  noFailure := ⟨le_rfl, le_rfl, le_rfl⟩

theorem read_returns_lastStored_writeA :
    (serve (run (fun _ => none) [writeA [104, 105]]).disk readA.os
      readA.msg).1.payload = [104, 105] := by
  have hlast : lastStored (run (fun _ => none) [writeA [104, 105]]).history readA.msg.path.str =
      some [104, 105] := by decide +kernel
  have hok : (serve (run (fun _ => none) [writeA [104, 105]]).disk readA.os
      readA.msg).1.Succeeded := by decide +kernel
  have hspecial : (none : Option FileObject) ≠ some .special := by decide
  exact (read_returns_lastStored [writeA [104, 105]] hspecial rfl hlast hok).1

/-- A payload of the full size is stored, and read back without its last byte. -/
theorem full_write_reads_short :
    ∃ (reqs : List StoreRequest) (req : StoreRequest) (content : List UInt8),
      req.msg.operation = .readFile ∧
      lastStored (run (fun _ => none) reqs).history req.msg.path.str = some content ∧
      (serve (run (fun _ => none) reqs).disk req.os req.msg).1.Succeeded ∧
      (serve (run (fun _ => none) reqs).disk req.os req.msg).1.payload ≠
        content := by
  have hany : (lastStored (run (fun _ => none) [writeA (List.replicate maxDataSize 1)]).history
      readA.msg.path.str).any fun content => content.length = maxDataSize := by decide +kernel
  have hok : (serve (run (fun _ => none)
      [writeA (List.replicate maxDataSize 1)]).disk readA.os readA.msg).1.Succeeded := by
    decide +kernel
  have hspecial : (none : Option FileObject) ≠ some .special := by decide
  obtain ⟨content, hlast, hlen⟩ := (Option.any_eq_true _ _).mp hany
  refine ⟨[writeA (List.replicate maxDataSize 1)], readA, content, rfl, hlast, hok, fun heq => ?_⟩
  have hholds : Holds (run (fun _ => none) [writeA (List.replicate maxDataSize 1)]).disk
    readA.msg.path.str _ := holds_run hspecial _
  rw [hlast] at hholds
  rw [hholds.read rfl rfl hok, (payload_read content).1] at heq
  have hle := congrArg List.length heq
  rw [List.length_take, of_decide_eq_true hlen] at hle
  exact absurd hle (by decide)

end Store
end NetworkFileSystem
