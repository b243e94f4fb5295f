import NetworkFileSystem.Common
import Mathlib.Logic.Function.Basic

/-!
# File operations of a storage server

`ss_file_operations.c` on the disk of one server. What the operating system decides (locks,
permissions, memory, partial reads and writes) is an input of each operation, within what the disk
allows: a directory is never opened for writing, nothing is created over an existing object, and
an object that does not exist is not found.
-/

namespace NetworkFileSystem

/-- An object of the file system; a special file is neither a regular file nor a directory. -/
inductive FileObject
  | file (content : List UInt8)
  | dir
  | special
  deriving DecidableEq

abbrev Disk := Path → Option FileObject

/-- The outcomes of the system calls of one operation. -/
structure Os where
  /-- The lock of the path is acquired. -/
  lock : Bool
  /-- `fopen` or `mkdir` succeeds where the disk allows it. -/
  opened : Bool
  /-- `stat` succeeds on an existing object. -/
  found : Bool
  /-- `opendir` succeeds. -/
  listed : Bool
  /-- The directory has no entry besides itself and its parent. -/
  empty : Bool
  /-- `remove` or `rmdir` succeeds where the disk allows it. -/
  removed : Bool
  /-- `fread` delivers at most so many bytes. -/
  readable : ℕ
  /-- `fwrite` accepts at most so many bytes. -/
  writable : ℕ
  /-- At most so many of the accepted bytes are in the file after `fclose`. -/
  flushed : ℕ
  /-- The bytes that a special file delivers. -/
  specialData : List UInt8
  /-- `st_size` of an object that is not a regular file. -/
  specialSize : ℕ

/-- Every system call succeeds. -/
def Os.ok : Os where
  lock := true
  opened := true
  found := true
  listed := true
  empty := true
  removed := true
  readable := maxDataSize
  writable := maxDataSize
  flushed := maxDataSize
  specialData := []
  specialSize := 0

/-- No system call fails. What a directory or a special file contains is left open. -/
def Os.Works (os : Os) : Prop :=
  os.lock ∧ os.opened ∧ os.found ∧ os.listed ∧ os.removed ∧
    maxDataSize ≤ os.readable ∧ maxDataSize ≤ os.writable ∧ maxDataSize ≤ os.flushed

instance : DecidablePred Os.Works := fun _ => inferInstanceAs (Decidable (_ ∧ _))

namespace Disk

/-- `fopen(path, "w")` truncates a regular file or creates an empty one. -/
def openWrite (disk : Disk) (os : Os) (path : Path) : Option Disk :=
  match os.opened, disk path with
  | true, none | true, some (.file _) => some (Function.update disk path (some (.file [])))
  | true, some .special => some disk
  | _, _ => none

/-- What the stream opened for writing leaves in the file once it is closed. -/
def store (disk : Disk) (path : Path) (content : List UInt8) : Disk :=
  match disk path with
  | some (.file _) => Function.update disk path (some (.file content))
  | _ => disk

def ssCreate (disk : Disk) (os : Os) (path : Path) : FileType → ErrorCode × Disk
  | .file =>
    match disk.openWrite os path with
    | some disk => (.success, disk)
    | none => (.permissionDenied, disk)
  | .dir =>
    if os.opened ∧ disk path = none then (.success, Function.update disk path (some .dir))
    else (.permissionDenied, disk)
  | _ => (.invalidOperation, disk)

/-- A directory that `readdir` finds not empty is left alone, and so does `rmdir`. -/
def ssDelete (disk : Disk) (os : Os) (path : Path) : ErrorCode × Disk :=
  match os.found, disk path with
  | true, some .dir =>
    if os.listed ∧ ¬ os.empty then (.permissionDenied, disk)
    else if os.removed ∧ os.empty then (.success, Function.update disk path none)
    else (.permissionDenied, disk)
  | true, some (.file _) =>
    if os.removed then (.success, Function.update disk path none) else (.permissionDenied, disk)
  | true, some .special => (.invalidOperation, disk)
  | _, _ => (.fileNotFound, disk)

/-- The bytes that a stream opened for reading delivers; `fread` fails on a directory, which
`fopen` opens. -/
def contents (os : Os) : FileObject → List UInt8
  | .file content => content
  | .dir => []
  | .special => os.specialData

/-- One byte of the buffer is kept for a terminating zero. -/
def ssRead (disk : Disk) (os : Os) (path : Path) : ErrorCode × List UInt8 :=
  match os.opened, disk path with
  | true, some object => (.success, (contents os object).take (min (maxDataSize - 1) os.readable))
  | _, _ => (.fileNotFound, [])

/-- The number of bytes that `fwrite` reports decides the result; the result of `fclose` does
not. -/
def ssWrite (disk : Disk) (os : Os) (path : Path) (data : List UInt8) : ErrorCode × Disk :=
  match disk.openWrite os path with
  | none => (.permissionDenied, disk)
  | some disk =>
    (if data.length ≤ os.writable then .success else .asyncWriteFailed,
      disk.store path (data.take (min os.writable os.flushed)))

/-- The file type and the text that GET_FILE_INFO reports. -/
def ssGetInfo (disk : Disk) (os : Os) (path : Path) : ErrorCode × FileType × List UInt8 :=
  let size (n : ℕ) := "Size: ".toUTF8.toList ++ (toString n).toUTF8.toList ++
    " bytes\n".toUTF8.toList
  match os.found, disk path with
  | true, some (.file content) =>
    (.success, .file, size content.length ++ "Type: File\n".toUTF8.toList)
  | true, some .dir => (.success, .dir, size os.specialSize ++ "Type: Directory\n".toUTF8.toList)
  | true, some .special =>
    (.success, .unknown, size os.specialSize ++ "Type: Other\n".toUTF8.toList)
  | _, _ => (.fileNotFound, .file, [])

/-! ### What the operations do to the disk -/

variable {disk : Disk} {os : Os} {path : Path}

theorem openWrite_eq_some {disk' : Disk} (h : disk.openWrite os path = some disk') :
    (disk' path).isSome ∧ ∀ q, q ≠ path → disk' q = disk q := by
  rw [openWrite] at h
  split at h
  · obtain rfl := Option.some.inj h
    exact ⟨by simp, fun q hq => Function.update_of_ne hq _ _⟩
  · obtain rfl := Option.some.inj h
    exact ⟨by simp, fun q hq => Function.update_of_ne hq _ _⟩
  · next hspecial =>
      obtain rfl := Option.some.inj h
      exact ⟨by simp [hspecial], fun _ _ => rfl⟩
  · cases h

theorem isSome_store (content : List UInt8) (q : Path) :
    (disk.store path content q).isSome = (disk q).isSome := by
  rcases h : disk path with _ | _ | _ | _
  case some.file =>
    by_cases hq : q = path
    · subst hq
      simp [store, h]
    · simp [store, h, hq]
  all_goals simp [store, h]

theorem store_of_ne (content : List UInt8) {q : Path} (hq : q ≠ path) :
    disk.store path content q = disk q := by
  rcases h : disk path with _ | _ | _ | _ <;> simp [store, h, hq]

/-- An operation either reports an error and leaves the disk alone, or the object exists after
a creation and no other path is touched. -/
theorem ssCreate_cases (disk : Disk) (os : Os) (path : Path) (type : FileType) :
    (∃ code, code ≠ .success ∧ disk.ssCreate os path type = (code, disk)) ∨
      ∃ disk', disk.ssCreate os path type = (.success, disk') ∧ (disk' path).isSome ∧
        ∀ q, q ≠ path → disk' q = disk q := by
  rcases type with _ | _ | _ | _
  case file =>
    cases hopen : disk.openWrite os path with
    | none => exact Or.inl ⟨.permissionDenied, by decide, by simp [ssCreate, hopen]⟩
    | some disk' => exact Or.inr ⟨disk', by simp [ssCreate, hopen], openWrite_eq_some hopen⟩
  case dir =>
    by_cases hmk : os.opened ∧ disk path = none
    · refine Or.inr ⟨_, if_pos hmk, by simp, fun q hq => Function.update_of_ne hq _ _⟩
    · exact Or.inl ⟨.permissionDenied, by decide, if_neg hmk⟩
  all_goals exact Or.inl ⟨.invalidOperation, by decide, rfl⟩

theorem ssDelete_cases (disk : Disk) (os : Os) (path : Path) :
    (∃ code, code ≠ .success ∧ disk.ssDelete os path = (code, disk)) ∨
      (disk path).isSome ∧ disk.ssDelete os path = (.success, Function.update disk path none) := by
  rw [ssDelete]
  split
  · next hdisk =>
      rw [hdisk]
      split_ifs with hlist hrm
      · exact Or.inl ⟨.permissionDenied, by decide, rfl⟩
      · exact Or.inr ⟨rfl, rfl⟩
      · exact Or.inl ⟨.permissionDenied, by decide, rfl⟩
  · next hdisk =>
      rw [hdisk]
      split_ifs with hrm
      · exact Or.inr ⟨rfl, rfl⟩
      · exact Or.inl ⟨.permissionDenied, by decide, rfl⟩
  · exact Or.inl ⟨.invalidOperation, by decide, rfl⟩
  · exact Or.inl ⟨.fileNotFound, by decide, rfl⟩

theorem ssWrite_cases (disk : Disk) (os : Os) (path : Path) (data : List UInt8) :
    (disk.ssWrite os path data = (.permissionDenied, disk)) ∨
      ∃ code disk', disk.ssWrite os path data = (code, disk') ∧
        (code = .success ∨ code = .asyncWriteFailed) ∧ (disk' path).isSome ∧
        ∀ q, q ≠ path → disk' q = disk q := by
  rw [ssWrite]
  cases hopen : disk.openWrite os path with
  | none => exact Or.inl rfl
  | some disk₁ =>
      obtain ⟨hsome, hother⟩ := openWrite_eq_some hopen
      refine Or.inr ⟨_, _, rfl, ?_, by rwa [isSome_store], fun q hq => ?_⟩
      · split_ifs
        · exact Or.inl rfl
        · exact Or.inr rfl
      · rw [store_of_ne _ hq, hother q hq]

end Disk
end NetworkFileSystem
