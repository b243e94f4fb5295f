import NetworkFileSystem.SsFileOperations

/-!
# File operations step by step

The operations of `ss_file_operations.c` as sequences of system calls on a file system of names and
objects: open or truncate, transfer in any pieces, close, stat, remove. A stream keeps to its object
and its position; unless a call fails, it is closed when everything has been transferred. Where
nobody else acts on the path, the steps together do what the operation does on the disk at once.
-/

namespace NetworkFileSystem

/-- The objects are at addresses below `fresh`. -/
structure FileSystem where
  names : Path → Option ℕ
  objects : ℕ → FileObject
  fresh : ℕ

inductive FileOperation
  | read
  | write (data : List UInt8)
  | getInfo
  | create (type : FileType)
  | delete

/-- The error code, and what READ_FILE and GET_FILE_INFO report besides. -/
structure FileResult where
  code : ErrorCode
  type : FileType
  data : List UInt8

def FileResult.ofCode (code : ErrorCode) : FileResult := ⟨code, .file, []⟩

/-- The operation in one step. -/
def FileOperation.apply (disk : Disk) (os : Os) (path : Path) : FileOperation → FileResult × Disk
  | read => (⟨(disk.ssRead os path).1, .file, (disk.ssRead os path).2⟩, disk)
  | write data => (.ofCode (disk.ssWrite os path data).1, (disk.ssWrite os path data).2)
  | getInfo =>
    let (code, type, text) := disk.ssGetInfo os path
    (⟨code, type, text⟩, disk)
  | create type => (.ofCode (disk.ssCreate os path type).1, (disk.ssCreate os path type).2)
  | delete => (.ofCode (disk.ssDelete os path).1, (disk.ssDelete os path).2)

/-- How far an operation has got. -/
inductive OpState
  | begun
  /-- The stream is open, and has delivered these bytes. -/
  | reading (i : ℕ) (got : List UInt8)
  /-- The stream is open, and so many of the bytes are in the file. -/
  | writing (i : ℕ) (data : List UInt8) (written : ℕ)
  | creating (i : ℕ)
  /-- `stat` found this object. -/
  | removing (object : FileObject)
  | done (result : FileResult)

theorem Os.Works.ofWritten {os : Os} (h : os.Works) (written : ℕ) :
    Os.Works { os with
      writable := max written os.writable
      flushed := max written os.flushed } := by
  obtain ⟨hlock, hopened, hfound, hlisted, hremoved, hreadable, hwritable, hflushed⟩ := h
  exact ⟨hlock, hopened, hfound, hlisted, hremoved, hreadable,
    hwritable.trans (le_max_right _ _), hflushed.trans (le_max_right _ _)⟩

namespace FileSystem

/-- The disk as the paths see it. -/
def disk (fs : FileSystem) : Disk := fun path => (fs.names path).map fs.objects

/-- Every object has one name at most. -/
structure WellFormed (fs : FileSystem) : Prop where
  allocated : ∀ path i, fs.names path = some i → i < fs.fresh
  oneName : ∀ path path' i, fs.names path = some i → fs.names path' = some i → path = path'

/-- The file `/a`. -/
def onlyA : FileSystem where
  names := fun path => if path = [47, 97] then some 0 else none
  objects := fun _ => .file [104, 105]
  fresh := 1

/-- A new object at the path. -/
def make (fs : FileSystem) (path : Path) (object : FileObject) : FileSystem where
  names := Function.update fs.names path (some fs.fresh)
  objects := Function.update fs.objects fs.fresh object
  fresh := fs.fresh + 1

def change (fs : FileSystem) (i : ℕ) (object : FileObject) : FileSystem :=
  { fs with objects := Function.update fs.objects i object }

def unlink (fs : FileSystem) (path : Path) : FileSystem :=
  { fs with names := Function.update fs.names path none }

/-- `fopen(path, "w")`, with the object of the stream. -/
def openWrite (fs : FileSystem) (os : Os) (path : Path) : Option (FileSystem × ℕ) :=
  match os.opened, fs.names path with
  | true, none => some (fs.make path (.file []), fs.fresh)
  | true, some i =>
    match fs.objects i with
    | .file _ => some (fs.change i (.file []), i)
    | .special => some (fs, i)
    | .dir => none
  | false, _ => none

/-- Bytes written at a position, which may lie behind the end. -/
def overwriteAt (content : List UInt8) (position : ℕ) (piece : List UInt8) : List UInt8 :=
  content.take position ++ List.replicate (position - content.length) 0 ++ piece ++
    content.drop (position + piece.length)

/-- The first system call. -/
def beginStep (fs : FileSystem) (path : Path) (os : Os) : FileOperation → FileSystem × OpState
  | .read =>
    match os.opened, fs.names path with
    | true, some i => (fs, .reading i [])
    | _, _ => (fs, .done (.ofCode .fileNotFound))
  | .write data =>
    match fs.openWrite os path with
    | some (fs, i) => (fs, .writing i data 0)
    | none => (fs, .done (.ofCode .permissionDenied))
  | .getInfo => (fs, .done (FileOperation.getInfo.apply fs.disk os path).1)
  | .create .file =>
    match fs.openWrite os path with
    | some (fs, i) => (fs, .creating i)
    | none => (fs, .done (.ofCode .permissionDenied))
  | .create .dir =>
    if os.opened ∧ fs.names path = none then (fs.make path .dir, .done (.ofCode .success))
    else (fs, .done (.ofCode .permissionDenied))
  | .create _ => (fs, .done (.ofCode .invalidOperation))
  | .delete =>
    match os.found, fs.names path with
    | true, some i => (fs, .removing (fs.objects i))
    | _, _ => (fs, .done (.ofCode .fileNotFound))

/-- The end of a deletion, for the kind of object that `stat` found. -/
def removeStep (fs : FileSystem) (path : Path) (os : Os) : FileObject → FileSystem × ErrorCode
  | .dir =>
    if os.listed ∧ ¬ os.empty then (fs, .permissionDenied)
    else if os.removed ∧ os.empty then (fs.unlink path, .success)
    else (fs, .permissionDenied)
  | .file _ => if os.removed then (fs.unlink path, .success) else (fs, .permissionDenied)
  | .special => (fs, .invalidOperation)

/-- What `fread` has still to deliver of a regular file: it stops at the end of the file, or when
the buffer is full. -/
def unread (object : FileObject) (got : List UInt8) : List UInt8 :=
  match object with
  | .file content => (content.drop got.length).take (maxDataSize - 1 - got.length)
  | _ => []

/-- The first or the last system call of the operation. Only a failure ends a transfer early.
`fwrite` reports at least the bytes that are in the file. -/
def opStep (fs : FileSystem) (path : Path) (os : Os) (op : FileOperation) :
    OpState → Option (FileSystem × OpState)
  | .begun => some (fs.beginStep path os op)
  | .reading i got =>
    if os.Works ∧ unread (fs.objects i) got ≠ [] then none
    else some (fs, .done ⟨.success, .file, got⟩)
  | .writing _ data written =>
    let code := if data.length ≤ max written os.writable then .success else .asyncWriteFailed
    if os.Works ∧ data.drop written ≠ [] then none else some (fs, .done (.ofCode code))
  | .creating _ => some (fs, .done (.ofCode .success))
  | .removing object =>
    some ((fs.removeStep path os object).1, .done (.ofCode (fs.removeStep path os object).2))
  | .done _ => none

/-- The next bytes that a stream opened for reading delivers. -/
def nextPiece (object : FileObject) (got : List UInt8) (os : Os) : List UInt8 :=
  match object with
  | .special => os.specialData.take (min os.readable (maxDataSize - 1 - got.length))
  | _ => (unread object got).take os.readable

/-- A piece of one byte at least is read or written. -/
def transferStep (fs : FileSystem) (os : Os) : OpState → Option (FileSystem × OpState)
  | .reading i got =>
    let piece := nextPiece (fs.objects i) got os
    if piece = [] then none else some (fs, .reading i (got ++ piece))
  | .writing i data written =>
    let piece := (data.drop written).take os.flushed
    let fs' :=
      match fs.objects i with
      | .file content => fs.change i (.file (overwriteAt content written piece))
      | _ => fs
    if piece = [] then none else some (fs', .writing i data (written + piece.length))
  | _ => none

/-! ### The effect of a step -/

variable {fs fs' : FileSystem} {path : Path} {os : Os} {op : FileOperation} {v : Option FileObject}
  {i : ℕ} {object : FileObject} {bytes : List UInt8} {st st' : OpState}

/-- Only the path, and the object that it names, may be different. -/
def Apart (fs fs' : FileSystem) (path : Path) : Prop :=
  ∀ q, q ≠ path → fs'.names q = fs.names q ∧
    ∀ i, fs.names q = some i → fs'.objects i = fs.objects i

theorem Apart.refl (fs : FileSystem) (path : Path) : Apart fs fs path :=
  fun _ _ => ⟨rfl, fun _ _ => rfl⟩

theorem disk_of_names (h : fs.names path = some i) : fs.disk path = some (fs.objects i) := by
  rw [disk, h, Option.map_some]

theorem Apart.disk (h : Apart fs fs' path) {q : Path} (hq : q ≠ path) :
    fs'.disk q = fs.disk q := by
  obtain ⟨hnames, hobjects⟩ := h q hq
  rw [FileSystem.disk, FileSystem.disk, hnames]
  cases hi : fs.names q with
  | none => rfl
  | some i => rw [Option.map_some, Option.map_some, hobjects i hi]

theorem WellFormed.make (hfs : fs.WellFormed) (path : Path) (object : FileObject) :
    (fs.make path object).WellFormed := by
  have hnames : ∀ q i, (fs.make path object).names q = some i →
      q = path ∧ i = fs.fresh ∨ q ≠ path ∧ fs.names q = some i := by
    intro q i hi
    by_cases hq : q = path
    · subst hq
      exact Or.inl ⟨rfl, by simpa [FileSystem.make, eq_comm] using hi⟩
    · exact Or.inr ⟨hq, by simpa [FileSystem.make, hq] using hi⟩
  refine ⟨fun q i hi => ?_, fun q q' i hi hi' => ?_⟩
  · change i < fs.fresh + 1
    rcases hnames q i hi with ⟨-, rfl⟩ | ⟨-, hi⟩
    · exact Nat.lt_succ_self _
    · exact (hfs.allocated q i hi).trans (Nat.lt_succ_self _)
  · rcases hnames q i hi with ⟨rfl, rfl⟩ | ⟨-, hold⟩ <;>
      rcases hnames q' _ hi' with ⟨rfl, h⟩ | ⟨-, hold'⟩
    · rfl
    · exact absurd (hfs.allocated q' _ hold') (lt_irrefl _)
    · exact absurd (hfs.allocated q i hold) (h ▸ lt_irrefl _)
    · exact hfs.oneName q q' i hold hold'

theorem WellFormed.change (hfs : fs.WellFormed) (i : ℕ) (object : FileObject) :
    (fs.change i object).WellFormed := ⟨hfs.allocated, hfs.oneName⟩

theorem WellFormed.unlink (hfs : fs.WellFormed) (path : Path) : (fs.unlink path).WellFormed := by
  have hnames : ∀ q i, (fs.unlink path).names q = some i → fs.names q = some i := by
    intro q i hi
    by_cases hq : q = path
    · subst hq
      simp [FileSystem.unlink] at hi
    · simpa [FileSystem.unlink, hq] using hi
  exact ⟨fun q i hi => hfs.allocated q i (hnames q i hi),
    fun q q' i hi hi' => hfs.oneName q q' i (hnames q i hi) (hnames q' i hi')⟩

theorem WellFormed.apart_make (hfs : fs.WellFormed) (path : Path) (object : FileObject) :
    Apart fs (fs.make path object) path := by
  refine fun q hq => ⟨by simp [FileSystem.make, hq], fun i hi => ?_⟩
  exact Function.update_of_ne (hfs.allocated q i hi).ne _ _

theorem WellFormed.apart_change (hfs : fs.WellFormed) (hi : fs.names path = some i)
    (object : FileObject) : Apart fs (fs.change i object) path := by
  intro q hq
  refine ⟨rfl, fun j hj => Function.update_of_ne ?_ _ _⟩
  rintro rfl
  exact hq (hfs.oneName q path j hj hi)

theorem apart_unlink (fs : FileSystem) (path : Path) : Apart fs (fs.unlink path) path :=
  fun _ hq => ⟨Function.update_of_ne hq _ _, fun _ _ => rfl⟩

/-- The object of a stream opened for writing, where `v` was there before and the bytes have been
written since. -/
def Truncated (v : Option FileObject) (object : FileObject) (bytes : List UInt8) : Prop :=
  v = some .special ∧ object = .special ∨
    (v = none ∨ ∃ content, v = some (.file content)) ∧ object = .file bytes

theorem WellFormed.openWrite (hfs : fs.WellFormed) (h : fs.openWrite os path = some (fs', i)) :
    fs'.WellFormed ∧ Apart fs fs' path ∧ fs'.names path = some i ∧
      Truncated (fs.disk path) (fs'.objects i) [] := by
  rw [FileSystem.openWrite] at h
  split at h
  · next hopened hnone =>
      obtain ⟨rfl, rfl⟩ := Prod.mk.inj (Option.some.inj h)
      refine ⟨hfs.make path _, hfs.apart_make path _, Function.update_self _ _ _,
        Or.inr ⟨Or.inl ?_, Function.update_self _ _ _⟩⟩
      rw [FileSystem.disk, hnone, Option.map_none]
  · next j hopened hj =>
      have hdisk := disk_of_names hj
      split at h
      · next content hfile =>
          obtain ⟨rfl, rfl⟩ := Prod.mk.inj (Option.some.inj h)
          refine ⟨hfs.change j _, hfs.apart_change hj _, hj,
            Or.inr ⟨Or.inr ⟨content, ?_⟩, Function.update_self _ _ _⟩⟩
          rw [hdisk, hfile]
      · next hspecial =>
          obtain ⟨rfl, rfl⟩ := Prod.mk.inj (Option.some.inj h)
          exact ⟨hfs, .refl fs path, hj, Or.inl ⟨by rw [hdisk, hspecial], hspecial⟩⟩
      · cases h
  · cases h

/-- Where the stream is not opened, it is not in one step either. -/
theorem openWrite_eq_none (h : fs.openWrite os path = none) {d : Disk}
    (hd : d path = fs.disk path) : d.openWrite os path = none := by
  rw [FileSystem.openWrite] at h
  rw [Disk.openWrite, hd]
  split at h
  · cases h
  · next j hopened hj =>
      rw [disk_of_names hj]
      split at h
      · cases h
      · cases h
      · next hdir => simp [hdir]
  · next hopened => simp [hopened]

/-- A stream that was opened, written and closed, in one step. -/
theorem Truncated.store (h : Truncated v object bytes) (hopened : os.opened = true) {d : Disk}
    (hd : d path = v) :
    ∃ d', d.openWrite os path = some d' ∧
      d'.store path bytes = Function.update d path (some object) := by
  rcases h with ⟨rfl, rfl⟩ | ⟨hv, rfl⟩
  · refine ⟨d, by simp [Disk.openWrite, hopened, hd], ?_⟩
    rw [← hd, Function.update_eq_self]
    simp [Disk.store, hd]
  · refine ⟨Function.update d path (some (.file [])), ?_, by simp [Disk.store]⟩
    rcases hv with rfl | ⟨content, rfl⟩ <;> simp [Disk.openWrite, hopened, hd]

/-- A stream that was opened, written and closed, as the operation in one step. -/
theorem Truncated.ssWrite {data : List UInt8} {written : ℕ}
    (h : Truncated v object (data.take written)) (hopened : os.opened = true)
    (htake : data.take (min os.writable os.flushed) = data.take written) {d : Disk}
    (hd : d path = v) :
    d.ssWrite os path data =
      (if data.length ≤ os.writable then .success else .asyncWriteFailed,
        Function.update d path (some object)) := by
  obtain ⟨d', hopen, hstore⟩ := h.store hopened hd
  rw [Disk.ssWrite, hopen]
  simp only [htake, hstore]

theorem Truncated.openWrite (h : Truncated v object []) (hopened : os.opened = true) {d : Disk}
    (hd : d path = v) : d.openWrite os path = some (Function.update d path (some object)) := by
  rcases h with ⟨rfl, rfl⟩ | ⟨rfl | ⟨content, rfl⟩, rfl⟩
  · have hself : Function.update d path (some .special) = d := by
      rw [← hd, Function.update_eq_self]
    rw [hself]
    simp [Disk.openWrite, hopened, hd]
  · simp [Disk.openWrite, hopened, hd]
  · simp [Disk.openWrite, hopened, hd]

/-- What a stream opened for reading may have delivered. -/
def Delivered (object : FileObject) (got : List UInt8) : Prop :=
  got.length ≤ maxDataSize - 1 ∧
    match object with
    | .file content => got <+: content
    | .dir => got = []
    | .special => True

/-- An operation has got as far as `st` on a path that held `v` when it began. -/
def Fits (fs : FileSystem) (path : Path) (op : FileOperation) (v : Option FileObject) :
    OpState → Prop
  | .begun | .done _ => fs.disk path = v
  | .reading i got =>
    op = .read ∧ fs.names path = some i ∧ v = some (fs.objects i) ∧ Delivered (fs.objects i) got
  | .writing i data written =>
    op = .write data ∧ fs.names path = some i ∧ written ≤ data.length ∧
      Truncated v (fs.objects i) (data.take written)
  | .creating i => op = .create .file ∧ fs.names path = some i ∧ Truncated v (fs.objects i) []
  | .removing object => op = .delete ∧ fs.disk path = v ∧ v = some object

/-- After a step the operation has got further, or is done: then all its steps together are the
operation in one step, without a failure if the last step did not fail. -/
structure Moved (fs : FileSystem) (path : Path) (os : Os) (op : FileOperation)
    (v : Option FileObject) (fs' : FileSystem) (st' : OpState) : Prop where
  wellFormed : fs'.WellFormed
  apart : Apart fs fs' path
  further : (∀ result, st' ≠ .done result) → fs'.Fits path op v st'
  done : ∀ result, st' = .done result → ∃ os' : Os, (os.Works → os'.Works) ∧
    ∀ d : Disk, d path = v →
      op.apply d os' path = (result, Function.update d path (fs'.disk path))

theorem Moved.of_further (hfs : fs'.WellFormed) (hapart : Apart fs fs' path)
    (hdone : ∀ result, st' ≠ .done result) (hfits : fs'.Fits path op v st') :
    Moved fs path os op v fs' st' :=
  ⟨hfs, hapart, fun _ => hfits, fun result h => absurd h (hdone result)⟩

theorem Moved.of_done {result : FileResult} (hfs : fs'.WellFormed) (hapart : Apart fs fs' path)
    {os' : Os} (hworks : os.Works → os'.Works) (happly : ∀ d : Disk, d path = v →
      op.apply d os' path = (result, Function.update d path (fs'.disk path))) :
    Moved fs path os op v fs' (.done result) :=
  ⟨hfs, hapart, fun h => absurd rfl (h result),
    fun _ h => OpState.done.inj h ▸ ⟨os', hworks, happly⟩⟩

/-- The operation is over and has changed nothing. -/
theorem Moved.of_unchanged {result : FileResult} (hfs : fs.WellFormed) (hv : fs.disk path = v)
    {os' : Os} (hworks : os.Works → os'.Works)
    (happly : ∀ d : Disk, d path = v → op.apply d os' path = (result, d)) :
    Moved fs path os op v fs (.done result) := by
  refine .of_done hfs (.refl fs path) hworks fun d hd => ?_
  rw [happly d hd, hv, ← hd, Function.update_eq_self]

theorem WellFormed.beginStep (hfs : fs.WellFormed) (path : Path) (os : Os) (op : FileOperation) :
    Moved fs path os op (fs.disk path) (fs.beginStep path os op).1
      (fs.beginStep path os op).2 := by
  cases op with
  | read =>
      rw [FileSystem.beginStep]
      split
      · next i hopened hi =>
          refine .of_further hfs (.refl fs path) (by simp) ⟨rfl, hi, disk_of_names hi, ?_⟩
          exact ⟨Nat.zero_le _, by split <;> simp⟩
      · next hnot =>
          refine .of_unchanged hfs rfl id fun d hd => ?_
          have hfail : d.ssRead os path = (.fileNotFound, []) := by
            rw [Disk.ssRead, hd]
            split
            · next object hopened hobject =>
                obtain ⟨i, hi, -⟩ := Option.map_eq_some_iff.mp hobject
                exact absurd hi (hnot i hopened)
            · rfl
          rw [FileOperation.apply, hfail]
          rfl
  | write data =>
      rw [FileSystem.beginStep]
      cases hopen : fs.openWrite os path with
      | some x =>
          obtain ⟨hfs', hapart, hi, htruncated⟩ := hfs.openWrite (i := x.2) hopen
          exact .of_further hfs' hapart (by simp) ⟨rfl, hi, Nat.zero_le _, htruncated⟩
      | none =>
          refine .of_unchanged hfs rfl id fun d hd => ?_
          rw [FileOperation.apply, Disk.ssWrite, openWrite_eq_none hopen hd]
  | getInfo =>
      refine .of_unchanged hfs rfl id fun d hd => ?_
      rw [FileOperation.apply, FileOperation.apply, Disk.ssGetInfo, Disk.ssGetInfo, hd]
  | create type =>
      cases type with
      | file =>
          rw [FileSystem.beginStep]
          cases hopen : fs.openWrite os path with
          | some x =>
              obtain ⟨hfs', hapart, hi, htruncated⟩ := hfs.openWrite (i := x.2) hopen
              exact .of_further hfs' hapart (by simp) ⟨rfl, hi, htruncated⟩
          | none =>
              refine .of_unchanged hfs rfl id fun d hd => ?_
              rw [FileOperation.apply, Disk.ssCreate, openWrite_eq_none hopen hd]
      | dir =>
          rw [FileSystem.beginStep]
          have hnone : fs.names path = none ↔ fs.disk path = none := Option.map_eq_none_iff.symm
          split_ifs with hmk
          · refine .of_done (hfs.make path .dir) (hfs.apart_make path .dir) id fun d hd => ?_
            have hdir : (fs.make path .dir).disk path = some .dir := by
              simp [disk, FileSystem.make]
            rw [FileOperation.apply, Disk.ssCreate, if_pos ⟨hmk.1, hd.trans (hnone.mp hmk.2)⟩, hdir]
          · refine .of_unchanged hfs rfl id fun d hd => ?_
            have hnot : ¬(os.opened ∧ d path = none) := fun h =>
              hmk ⟨h.1, hnone.mpr (hd.symm.trans h.2)⟩
            rw [FileOperation.apply, Disk.ssCreate, if_neg hnot]
      | _ => exact .of_unchanged hfs rfl id fun d hd => rfl
  | delete =>
      rw [FileSystem.beginStep]
      split
      · next i hfound hi =>
          exact .of_further hfs (.refl fs path) (by simp) ⟨rfl, rfl, disk_of_names hi⟩
      · next hnot =>
          refine .of_unchanged hfs rfl id fun d hd => ?_
          have hfail : d.ssDelete os path = (.fileNotFound, d) := by
            rw [Disk.ssDelete, hd]
            cases hfound : os.found with
            | false => rfl
            | true =>
                cases hi : fs.names path with
                | none => simp [disk, hi]
                | some i => exact absurd hi (hnot i hfound)
          rw [FileOperation.apply, hfail]

/-- A stream that was read until nothing was left, in one step. -/
theorem Delivered.ssRead_works {got : List UInt8} (h : Delivered object got)
    (hunread : unread object got = []) (hos : os.Works) {d : Disk} (hd : d path = some object) :
    d.ssRead { os with specialData := got } path = (.success, got) := by
  obtain ⟨hlen, hgot⟩ := h
  obtain ⟨-, hopened, -, -, -, hreadable, -⟩ := hos
  have hmin : min (maxDataSize - 1) os.readable = maxDataSize - 1 :=
    min_eq_left ((Nat.sub_le _ _).trans hreadable)
  simp only [Disk.ssRead, hd, hopened, hmin]
  cases object with
  | file content =>
      obtain ⟨rest, rfl⟩ := hgot
      replace hunread : rest.take (maxDataSize - 1 - got.length) = [] := by
        simpa only [unread, List.drop_left] using hunread
      have htake : (got ++ rest).take (maxDataSize - 1) = got := by
        rw [List.take_append, hunread, List.take_of_length_le hlen, List.append_nil]
      exact congrArg _ htake
  | dir =>
      obtain rfl : got = [] := hgot
      rfl
  | special => exact congrArg _ (List.take_of_length_le hlen)

theorem Delivered.ssRead {got : List UInt8} (h : Delivered object got) (os : Os) {d : Disk}
    (hd : d path = some object) :
    d.ssRead { os with opened := true, readable := got.length, specialData := got } path =
      (.success, got) := by
  obtain ⟨hlen, hgot⟩ := h
  have hmin : min (maxDataSize - 1) got.length = got.length := min_eq_right hlen
  simp only [Disk.ssRead, hd, hmin]
  cases object with
  | file content => exact congrArg _ (List.prefix_iff_eq_take.mp hgot).symm
  | dir =>
      obtain rfl : got = [] := hgot
      rfl
  | special => exact congrArg _ (List.take_length)

theorem WellFormed.removeStep (hfs : fs.WellFormed) (hv : fs.disk path = some object) (os : Os) :
    Moved fs path os .delete (some object) (fs.removeStep path os object).1
      (.done (.ofCode (fs.removeStep path os object).2)) := by
  have hworks : os.Works → Os.Works { os with found := true } := fun h =>
    ⟨h.1, h.2.1, rfl, h.2.2.2⟩
  have hnone : (fs.unlink path).disk path = none := by simp [disk, FileSystem.unlink]
  have hunlinked : ∀ code, (∀ d : Disk, d path = some object →
      d.ssDelete { os with found := true } path = (code, Function.update d path none)) →
      Moved fs path os .delete (some object) (fs.unlink path) (.done (.ofCode code)) := by
    intro code hdelete
    refine .of_done (hfs.unlink path) (apart_unlink fs path) hworks fun d hd => ?_
    rw [FileOperation.apply, hdelete d hd, hnone]
  have hkept : ∀ code, (∀ d : Disk, d path = some object →
      d.ssDelete { os with found := true } path = (code, d)) →
      Moved fs path os .delete (some object) fs (.done (.ofCode code)) := by
    intro code hdelete
    refine .of_unchanged hfs hv hworks fun d hd => ?_
    rw [FileOperation.apply, hdelete d hd]
  cases object with
  | dir =>
      rw [FileSystem.removeStep]
      split_ifs with hlisted hremoved
      · exact hkept _ fun d hd => by simp [Disk.ssDelete, hd, hlisted]
      · exact hunlinked _ fun d hd => by simp [Disk.ssDelete, hd, hremoved]
      · refine hkept _ fun d hd => ?_
        simp only [Disk.ssDelete, hd]
        rw [if_neg hlisted, if_neg hremoved]
  | file content =>
      rw [FileSystem.removeStep]
      split_ifs with hremoved
      · exact hunlinked _ fun d hd => by simp [Disk.ssDelete, hd, hremoved]
      · exact hkept _ fun d hd => by simp [Disk.ssDelete, hd, hremoved]
  | special =>
      rw [FileSystem.removeStep]
      exact hkept _ fun d hd => by simp [Disk.ssDelete, hd]

/-- Where no call fails, a stream can be closed, or has a piece to transfer. -/
theorem isSome_opStep_or_transferStep (hos : os.Works) (hst : ∀ result, st ≠ .done result) :
    (fs.opStep path os op st).isSome ∨ (fs.transferStep os st).isSome := by
  obtain ⟨-, -, -, -, -, hreadable, -, hflushed⟩ := hos
  have hsize : maxDataSize ≠ 0 := by decide
  have htake : ∀ (l : List UInt8) (n : ℕ), l ≠ [] → maxDataSize ≤ n → l.take n ≠ [] := by
    intro l n hl hn htake
    rcases List.take_eq_nil_iff.mp htake with hzero | hnil
    · omega
    · exact hl hnil
  cases st with
  | reading i got =>
      by_cases hunread : unread (fs.objects i) got = []
      · exact Or.inl (by simp [FileSystem.opStep, hunread])
      · have hpiece : nextPiece (fs.objects i) got os ≠ [] := by
          cases hobject : fs.objects i with
          | special => simp [hobject, unread] at hunread
          | _ =>
              rw [hobject] at hunread
              exact htake _ _ hunread hreadable
        exact Or.inr (by simp [FileSystem.transferStep, hpiece])
  | writing i data written =>
      by_cases hall : data.drop written = []
      · exact Or.inl (by simp [FileSystem.opStep, hall])
      · have hpiece := htake _ _ hall hflushed
        exact Or.inr (by simp only [FileSystem.transferStep, if_neg hpiece, Option.isSome_some])
  | done result => exact absurd rfl (hst result)
  | _ => exact Or.inl rfl

/-- The first or the last step. -/
theorem WellFormed.opStep (hfs : fs.WellFormed) (hfits : fs.Fits path op v st)
    (h : fs.opStep path os op st = some (fs', st')) : Moved fs path os op v fs' st' := by
  cases st with
  | begun =>
      obtain rfl : fs.disk path = v := hfits
      have hmoved := hfs.beginStep path os op
      rw [Option.some.inj h] at hmoved
      exact hmoved
  | reading i got =>
      obtain ⟨rfl, hi, rfl, hgot⟩ := hfits
      rw [FileSystem.opStep] at h
      split_ifs at h with hunread
      obtain ⟨rfl, rfl⟩ := Prod.mk.inj (Option.some.inj h)
      by_cases hos : os.Works
      · -- nothing is left
        have hnone : unread (fs.objects i) got = [] := not_not.mp fun hne => hunread ⟨hos, hne⟩
        have hos' : Os.Works { os with specialData := got } := hos
        refine .of_unchanged hfs (disk_of_names hi) (fun _ => hos') fun d hd => ?_
        rw [FileOperation.apply, hgot.ssRead_works hnone hos hd]
      · have hshort : os.Works →
            Os.Works { os with opened := true, readable := got.length, specialData := got } :=
          fun h => absurd h hos
        refine .of_unchanged hfs (disk_of_names hi) hshort fun d hd => ?_
        rw [FileOperation.apply, hgot.ssRead os hd]
  | writing i data written =>
      obtain ⟨rfl, hi, hle, htruncated⟩ := hfits
      simp only [FileSystem.opStep, Option.ite_none_left_eq_some, Option.some.injEq,
        Prod.mk.injEq] at h
      obtain ⟨hunwritten, rfl, rfl⟩ := h
      by_cases hos : os.Works
      · -- all bytes are in the file
        have hall : data.drop written = [] := not_not.mp fun hne => hunwritten ⟨hos, hne⟩
        have hlen : data.length ≤ written := List.drop_eq_nil_iff.mp hall
        have hos' := hos.ofWritten written
        refine .of_done hfs (.refl fs path) (fun _ => hos') fun d hd => ?_
        have htake : data.take (min (max written os.writable) (max written os.flushed)) =
            data.take written := by
          have hmin := le_min (le_max_left written os.writable) (le_max_left written os.flushed)
          rw [List.take_of_length_le (hlen.trans hmin), List.take_of_length_le hlen]
        simp only [FileOperation.apply, htruncated.ssWrite hos'.2.1 htake hd, disk_of_names hi]
      · -- the bytes in the file are those that were written
        let os' : Os :=
          { os with
            opened := true
            writable := max written os.writable
            flushed := written }
        refine .of_done hfs (.refl fs path) (fun h => absurd h hos : os.Works → os'.Works)
          fun d hd => ?_
        have htake : data.take (min os'.writable os'.flushed) = data.take written := by
          rw [min_eq_right (le_max_left _ _)]
        simp only [FileOperation.apply, htruncated.ssWrite rfl htake hd, disk_of_names hi, os']
  | creating i =>
      obtain ⟨rfl, hi, htruncated⟩ := hfits
      obtain ⟨rfl, rfl⟩ := Prod.mk.inj (Option.some.inj h)
      let os' : Os := { os with opened := true }
      have hopened : os'.opened = true := rfl
      have hworks : os.Works → os'.Works := fun h => ⟨h.1, rfl, h.2.2⟩
      refine .of_done hfs (.refl fs path) hworks fun d hd => ?_
      simp only [FileOperation.apply, Disk.ssCreate, htruncated.openWrite hopened hd,
        disk_of_names hi]
  | removing object =>
      obtain ⟨rfl, hv, rfl⟩ := hfits
      obtain ⟨rfl, rfl⟩ := Prod.mk.inj (Option.some.inj h)
      exact hfs.removeStep hv os
  | done result => cases h

theorem overwriteAt_take {data : List UInt8} {n : ℕ} (hn : n ≤ data.length) (m : ℕ) :
    overwriteAt (data.take n) n ((data.drop n).take m) =
      data.take (n + ((data.drop n).take m).length) := by
  have hlen : (data.take n).length = n := List.length_take_of_le hn
  have hpiece : (data.drop n).take ((data.drop n).take m).length = (data.drop n).take m := by
    rw [List.take_eq_take_iff, List.length_take]
    omega
  rw [overwriteAt, hlen, Nat.sub_self, List.replicate_zero, List.append_nil, List.take_take,
    min_self, List.drop_eq_nil_of_le (hlen.le.trans (Nat.le_add_right _ _)), List.append_nil,
    List.take_add, hpiece]

theorem Delivered.append {got : List UInt8} (h : Delivered object got) (os : Os) :
    Delivered object (got ++ nextPiece object got os) := by
  obtain ⟨hlen, hgot⟩ := h
  have hroom : ∀ (l : List UInt8) (n : ℕ), n ≤ maxDataSize - 1 - got.length →
      (got ++ l.take n).length ≤ maxDataSize - 1 := by
    intro l n hn
    have htake := List.length_take_le n l
    rw [List.length_append]
    omega
  cases object with
  | file content =>
      obtain ⟨rest, rfl⟩ := hgot
      simp only [nextPiece, unread, List.drop_left, List.take_take]
      exact ⟨hroom _ _ (min_le_right _ _),
        (List.prefix_append_right_inj got).mpr (List.take_prefix _ _)⟩
  | dir =>
      obtain rfl : got = [] := hgot
      exact ⟨by simp [nextPiece, unread], by simp [nextPiece, unread]⟩
  | special => exact ⟨hroom _ _ (min_le_right _ _), trivial⟩

/-- A piece is read or written. -/
theorem WellFormed.transferStep (hfs : fs.WellFormed) (hfits : fs.Fits path op v st)
    (h : fs.transferStep os st = some (fs', st')) : Moved fs path os op v fs' st' := by
  cases st with
  | reading i got =>
      obtain ⟨rfl, hi, rfl, hgot⟩ := hfits
      simp only [FileSystem.transferStep, Option.ite_none_left_eq_some, Option.some.injEq,
        Prod.mk.injEq] at h
      obtain ⟨-, rfl, rfl⟩ := h
      exact .of_further hfs (.refl fs path) (by simp) ⟨rfl, hi, rfl, hgot.append os⟩
  | writing i data written =>
      obtain ⟨rfl, hi, hle, htruncated⟩ := hfits
      simp only [FileSystem.transferStep, Option.ite_none_left_eq_some, Option.some.injEq,
        Prod.mk.injEq] at h
      obtain ⟨-, rfl, rfl⟩ := h
      have hle' : written + ((data.drop written).take os.flushed).length ≤ data.length := by
        rw [List.length_take, List.length_drop]
        omega
      rcases htruncated with ⟨hv, hspecial⟩ | ⟨hv, hfile⟩
      · simp only [hspecial]
        exact .of_further hfs (.refl fs path) (by simp)
          ⟨rfl, hi, hle', Or.inl ⟨hv, hspecial⟩⟩
      · simp only [hfile, overwriteAt_take hle]
        exact .of_further (hfs.change i _) (hfs.apart_change hi _) (by simp)
          ⟨rfl, hi, hle', Or.inr ⟨hv, Function.update_self _ _ _⟩⟩
  | _ => cases h

end FileSystem
end NetworkFileSystem
