import NetworkFileSystem.Common
import NetworkFileSystem.Library.Layout
import Mathlib.Tactic.IntervalCases

/-!
# Messages on a byte stream

`send_message` and `receive_message` of `utils.c`. A `Message` is copied to and from the socket as
the bytes of the structure; `send` may accept and `recv` may return fewer bytes than asked, and
both functions report success on any positive count.
-/

namespace NetworkFileSystem

theorem exists_ofNat_of_lt {code bound : UInt32} (h : code < bound) :
    ∃ k < bound.toNat, code = UInt32.ofNat k :=
  ⟨code.toNat, UInt32.lt_iff_toNat_lt.mp h, by simp⟩

namespace OperationType

def toCode : OperationType → UInt32
  | registerSs => 0
  | listPaths => 1
  | readFile => 2
  | writeFile => 3
  | createFile => 4
  | deleteFile => 5
  | getFileInfo => 6
  | copyFile => 7
  | ack => 8
  | nack => 9
  | stop => 10
  | other code _ => code

def ofCode (code : UInt32) : OperationType :=
  if h : 11 ≤ code then other code h
  else match code.toNat with
    | 0 => registerSs
    | 1 => listPaths
    | 2 => readFile
    | 3 => writeFile
    | 4 => createFile
    | 5 => deleteFile
    | 6 => getFileInfo
    | 7 => copyFile
    | 8 => ack
    | 9 => nack
    | _ => stop

theorem ofCode_toCode (o : OperationType) : ofCode o.toCode = o := by
  cases o with
  | other code h => simp [toCode, ofCode, h]
  | _ => rfl

theorem toCode_ofCode (code : UInt32) : (ofCode code).toCode = code := by
  by_cases h : 11 ≤ code
  · simp [ofCode, h, toCode]
  · obtain ⟨k, hk, rfl⟩ := exists_ofNat_of_lt (UInt32.not_le.mp h)
    change k < 11 at hk
    interval_cases k <;> rfl

end OperationType

namespace FileType

def toCode : FileType → UInt32
  | file => 0
  | dir => 1
  | unknown => 2
  | other code _ => code

def ofCode (code : UInt32) : FileType :=
  if h : 3 ≤ code then other code h
  else match code.toNat with
    | 0 => file
    | 1 => dir
    | _ => unknown

theorem ofCode_toCode (t : FileType) : ofCode t.toCode = t := by
  cases t with
  | other code h => simp [toCode, ofCode, h]
  | _ => rfl

theorem toCode_ofCode (code : UInt32) : (ofCode code).toCode = code := by
  by_cases h : 3 ≤ code
  · simp [ofCode, h, toCode]
  · obtain ⟨k, hk, rfl⟩ := exists_ofNat_of_lt (UInt32.not_le.mp h)
    change k < 3 at hk
    interval_cases k <;> rfl

end FileType

namespace WriteMode

def toCode : WriteMode → UInt32
  | sync => 0
  | async => 1
  | other code _ => code

def ofCode (code : UInt32) : WriteMode :=
  if h : 2 ≤ code then other code h
  else if code = 0 then sync else async

theorem ofCode_toCode (w : WriteMode) : ofCode w.toCode = w := by
  cases w with
  | other code h => simp [toCode, ofCode, h]
  | _ => rfl

theorem toCode_ofCode (code : UInt32) : (ofCode code).toCode = code := by
  by_cases h : 2 ≤ code
  · simp [ofCode, h, toCode]
  · obtain ⟨k, hk, rfl⟩ := exists_ofNat_of_lt (UInt32.not_le.mp h)
    change k < 2 at hk
    interval_cases k <;> rfl

end WriteMode

/-- The representation of an `int`. -/
def intLayout : Layout Int32 4 :=
  Equiv.trans ⟨Int32.toUInt32, Int32.ofUInt32, fun _ => rfl, fun _ => rfl⟩ Layout.word

def operationLayout : Layout OperationType 4 :=
  Equiv.trans ⟨_, _, OperationType.ofCode_toCode, OperationType.toCode_ofCode⟩ Layout.word

def fileTypeLayout : Layout FileType 4 :=
  Equiv.trans ⟨_, _, FileType.ofCode_toCode, FileType.toCode_ofCode⟩ Layout.word

def writeModeLayout : Layout WriteMode 4 :=
  Equiv.trans ⟨_, _, WriteMode.ofCode_toCode, WriteMode.toCode_ofCode⟩ Layout.word

def charsLayout (n : ℕ) : Layout (CharArray n) n := Equiv.refl _

namespace Message

/-- The fields in the order of the structure, each following the last without padding. -/
def fields : Message ≃
    OperationType × CharArray maxPathLen × CharArray maxPathLen × CharArray maxDataSize ×
    Int32 × Int32 × WriteMode × FileType × CharArray inetAddrStrLen × Int32 × Int32 ×
    CharArray inetAddrStrLen × Int32 ×
    List.Vector (CharArray maxPathLen) maxAccessiblePaths × Int32 where
  toFun m := (m.operation, m.path, m.path2, m.data, m.dataSize, m.errorCode, m.writeMode,
    m.fileType, m.ssIp, m.ssNmPort, m.ssClientPort, m.destSsIp, m.destSsClientPort,
    m.accessiblePaths, m.numAccessiblePaths)
  invFun := fun (o, p, p2, d, ds, e, w, t, ip, nm, cl, dip, dcl, ps, n) =>
    ⟨o, p, p2, d, ds, e, w, t, ip, nm, cl, dip, dcl, ps, n⟩
  left_inv _ := rfl
  right_inv _ := rfl

def size : ℕ := 20548

def layout : Layout Message size :=
  fields.trans <|
    operationLayout.cons <| (charsLayout maxPathLen).cons <| (charsLayout maxPathLen).cons <|
    (charsLayout maxDataSize).cons <| intLayout.cons <| intLayout.cons <| writeModeLayout.cons <|
    fileTypeLayout.cons <| (charsLayout inetAddrStrLen).cons <| intLayout.cons <|
    intLayout.cons <| (charsLayout inetAddrStrLen).cons <| intLayout.cons <|
    ((charsLayout maxPathLen).array maxAccessiblePaths).cons intLayout

/-- The bytes of the structure. -/
def toBytes (m : Message) : Bytes size := layout m

def ofBytes (b : Bytes size) : Message := layout.symm b

end Message

/-- What one call of `send` does: fail, or accept the given number of bytes. -/
inductive SendOutcome
  | error
  | accepted (n : ℕ)

/-- What one call of `recv` does: fail, find the connection closed, or return so many bytes. -/
inductive RecvOutcome
  | error
  | closed
  | returned (n : ℕ)

/-- `send` accepts a non-empty prefix of the bytes offered. -/
def SendOutcome.Allowed : SendOutcome → Prop
  | error => True
  | accepted n => 0 < n ∧ n ≤ Message.size

/-- `recv` returns a non-empty prefix of the bytes available. -/
def RecvOutcome.Allowed (stream : List UInt8) : RecvOutcome → Prop
  | error => True
  | closed => stream = []
  | returned n => 0 < n ∧ n ≤ Message.size ∧ n ≤ stream.length

/-- The number of bytes that reach the caller's buffer. -/
def RecvOutcome.count : RecvOutcome → ℕ
  | returned n => n
  | _ => 0

/-- The return value and the bytes then in the stream. -/
def sendMessage (stream : List UInt8) (msg : Message) : SendOutcome → ℤ × List UInt8
  | .error => (-1, stream)
  | .accepted n => (0, stream ++ msg.toBytes.toList.take n)

/-- The return value, the caller's structure and the bytes left in the stream. -/
def receiveMessage (stream : List UInt8) (msg : Message) :
    RecvOutcome → ℤ × Message × List UInt8
  | .error => (-1, msg, stream)
  | .closed => (1, msg, stream)
  | .returned n =>
    (0, .ofBytes (Layout.overwrite msg.toBytes (stream.take n)), stream.drop n)

namespace Message

theorem ofBytes_overwrite_eq_iff (m old : Message) {n : ℕ} (hn : n ≤ size) :
    ofBytes (Layout.overwrite old.toBytes (m.toBytes.toList.take n)) = m ↔
      old.toBytes.toList.drop n = m.toBytes.toList.drop n := by
  rw [← Layout.overwrite_take_eq_iff m.toBytes old.toBytes hn]
  exact layout.symm_apply_eq

end Message

/-- A message sent over a fresh connection and reported received is the message that was sent
exactly when the receiver's structure already held the bytes that its one `recv` did not
return. -/
theorem receiveMessage_eq_iff (m old : Message) (so : SendOutcome) (ro : RecvOutcome)
    (hro : ro.Allowed (sendMessage [] m so).2)
    (hsent : (sendMessage [] m so).1 = 0)
    (hrecv : (receiveMessage (sendMessage [] m so).2 old ro).1 = 0) :
    (receiveMessage (sendMessage [] m so).2 old ro).2.1 = m ↔
      old.toBytes.toList.drop ro.count = m.toBytes.toList.drop ro.count := by
  cases so with
  | error => simp [sendMessage] at hsent
  | accepted k =>
      cases ro with
      | error => simp [receiveMessage] at hrecv
      | closed => simp [receiveMessage] at hrecv
      | returned n =>
          obtain ⟨-, hn, hnk⟩ := hro
          have hk : n ≤ k := by
            simp only [sendMessage, List.nil_append, List.length_take] at hnk
            omega
          change Message.ofBytes (Layout.overwrite old.toBytes
            ((m.toBytes.toList.take k).take n)) = m ↔ _
          rw [List.take_take, min_eq_left hk]
          exact Message.ofBytes_overwrite_eq_iff m old hn

theorem Message.path_eq_of_drop_toBytes {m m' : Message}
    (h : m.toBytes.toList.drop 4 = m'.toBytes.toList.drop 4) : m.path = m'.path :=
  congrArg Prod.fst (Layout.snd_eq_of_drop_cons (a := operationLayout) (x := fields m)
    (y := fields m') h)

def createA : Message :=
  { Message.zero with operation := .createFile, path := .ofBytes _ [47, 97] }

theorem receiveMessage_eq_createA :
    (receiveMessage (sendMessage [] createA (.accepted Message.size)).2 .zero
      (.returned Message.size)).2.1 = createA := by
  have hlen : ∀ m : Message, m.toBytes.toList.length = Message.size := fun m =>
    List.Vector.toList_length _
  refine (receiveMessage_eq_iff createA .zero (.accepted Message.size) (.returned Message.size)
    ⟨by decide, le_rfl, ?_⟩ rfl rfl).mpr ?_
  · simp [sendMessage]
  · change _ = List.drop Message.size _
    rw [RecvOutcome.count, List.drop_eq_nil_of_le (hlen _).le, List.drop_eq_nil_of_le (hlen _).le]

/-- The receiver gets the operation alone, and reports success with an empty path. -/
theorem receiveMessage_partial :
    ∃ so ro, so.Allowed ∧ ro.Allowed (sendMessage [] createA so).2 ∧
      (sendMessage [] createA so).1 = 0 ∧
      (receiveMessage (sendMessage [] createA so).2 .zero ro).1 = 0 ∧
      (receiveMessage (sendMessage [] createA so).2 .zero ro).2.1 ≠ createA := by
  refine ⟨.accepted Message.size, .returned 4, ⟨by decide, le_rfl⟩, ⟨by decide, by decide, ?_⟩,
    rfl, rfl, fun h => ?_⟩
  · change 4 ≤ (createA.toBytes.toList.take Message.size).length
    rw [List.length_take, List.Vector.toList_length]
    decide
  · have hsize : 4 ≤ Message.size := by decide
    change Message.ofBytes (Layout.overwrite Message.zero.toBytes
      ((createA.toBytes.toList.take Message.size).take 4)) = createA at h
    rw [List.take_take, min_eq_left hsize] at h
    have hdrop := (Message.ofBytes_overwrite_eq_iff createA .zero hsize).mp h
    have hstr := congrArg CharArray.str (Message.path_eq_of_drop_toBytes hdrop)
    rw [Message.zero, createA, CharArray.str_ofBytes (by decide) (by decide),
      CharArray.str_ofBytes (by decide) (by decide)] at hstr
    cases hstr

end NetworkFileSystem
