import Mathlib.Data.List.TakeWhile
import Mathlib.Data.Vector.Basic

/-!
# Shared definitions of the three programs

The constants, enumerations, error codes and the `Message` structure of `common.h`. A `char`
array is a vector of bytes of exactly the declared length, an `int` is a 32-bit integer, and an
enumeration received from the network may hold any 32-bit code.
-/

namespace NetworkFileSystem

abbrev maxPathLen : ℕ := 1024
abbrev maxDataSize : ℕ := 8192
abbrev maxAccessiblePaths : ℕ := 10
abbrev maxSs : ℕ := 100
abbrev inetAddrStrLen : ℕ := 16

-- The instances that the numerals of `Fin` look for.
instance (priority := 1100) : @NeZero ℕ Zero.ofOfNat0 maxSs := Nat.instNeZeroSucc
instance (priority := 1100) : @NeZero ℕ Zero.ofOfNat0 (maxSs + 1) := Nat.instNeZeroSucc
instance (priority := 1100) : @NeZero ℕ Zero.ofOfNat0 (maxAccessiblePaths + 1) :=
  Nat.instNeZeroSucc

inductive OperationType
  | registerSs | listPaths | readFile | writeFile | createFile | deleteFile | getFileInfo
  | copyFile | ack | nack | stop
  | other (code : UInt32) (h : 11 ≤ code)
  deriving DecidableEq

inductive FileType
  | file | dir | unknown
  | other (code : UInt32) (h : 3 ≤ code)
  deriving DecidableEq

inductive WriteMode
  | sync | async
  | other (code : UInt32) (h : 2 ≤ code)
  deriving DecidableEq

abbrev ErrorCode := Int32

namespace ErrorCode

def success : ErrorCode := 0
def fileNotFound : ErrorCode := 1
def fileInUse : ErrorCode := 2
def permissionDenied : ErrorCode := 3
def ssUnavailable : ErrorCode := 5
def networkError : ErrorCode := 6
def fileExists : ErrorCode := 7
def invalidOperation : ErrorCode := 8
def asyncWriteFailed : ErrorCode := 9

end ErrorCode

/-- The bytes of a C string, without its terminating zero. -/
abbrev CString := List UInt8

abbrev Path := CString

/-- A `char` array of `n` bytes. -/
abbrev CharArray (n : ℕ) := List.Vector UInt8 n

namespace CharArray

/-- The first `n` bytes of `bytes`, filled up with zeros. -/
def ofBytes (n : ℕ) (bytes : List UInt8) : CharArray n :=
  ⟨(bytes ++ List.replicate n 0).take n, by simp⟩

/-- The C string at the start of the array. -/
def str {n : ℕ} (a : CharArray n) : CString := a.toList.takeWhile (· ≠ 0)

theorem str_ofBytes {n : ℕ} {s : CString} (hs : 0 ∉ s) (hn : s.length < n) :
    (ofBytes n s).str = s := by
  change ((s ++ List.replicate n 0).take n).takeWhile (· ≠ 0) = s
  obtain ⟨m, rfl⟩ : ∃ m, n = s.length + (m + 1) := ⟨n - s.length - 1, by omega⟩
  rw [List.take_length_add_append, List.takeWhile_append_of_pos (by
    intro b hb
    simpa using fun h : b = 0 => hs (h ▸ hb))]
  simp [List.take_replicate, List.replicate_succ]

theorem zero_notMem_str {n : ℕ} (a : CharArray n) : 0 ∉ a.str := by
  intro h
  simpa using List.mem_takeWhile_imp h

end CharArray

/-- One request or reply, as the programs exchange it. -/
structure Message where
  operation : OperationType
  path : CharArray maxPathLen
  path2 : CharArray maxPathLen
  data : CharArray maxDataSize
  dataSize : Int32
  errorCode : ErrorCode
  writeMode : WriteMode
  fileType : FileType
  ssIp : CharArray inetAddrStrLen
  ssNmPort : Int32
  ssClientPort : Int32
  destSsIp : CharArray inetAddrStrLen
  destSsClientPort : Int32
  accessiblePaths : List.Vector (CharArray maxPathLen) maxAccessiblePaths
  numAccessiblePaths : Int32
  deriving DecidableEq

namespace Message

/-- The message that `memset(&msg, 0, sizeof(Message))` leaves. -/
def zero : Message where
  operation := .registerSs
  path := .ofBytes _ []
  path2 := .ofBytes _ []
  data := .ofBytes _ []
  dataSize := 0
  errorCode := 0
  writeMode := .sync
  fileType := .file
  ssIp := .ofBytes _ []
  ssNmPort := 0
  ssClientPort := 0
  destSsIp := .ofBytes _ []
  destSsClientPort := 0
  accessiblePaths := .replicate _ (.ofBytes _ [])
  numAccessiblePaths := 0

/-- The test `operation == ACK && error_code == SUCCESS`. -/
def Succeeded (m : Message) : Prop := m.operation = .ack ∧ m.errorCode = .success

instance (m : Message) : Decidable m.Succeeded := inferInstanceAs (Decidable (_ ∧ _))

def ack : Message := { zero with operation := .ack, errorCode := .success }

def nack (code : ErrorCode) : Message := { zero with operation := .nack, errorCode := code }

theorem nack_not_succeeded (code : ErrorCode) : ¬ (nack code).Succeeded := fun h => by
  cases h.1

theorem ack_succeeded : ack.Succeeded := ⟨rfl, rfl⟩

end Message
end NetworkFileSystem
