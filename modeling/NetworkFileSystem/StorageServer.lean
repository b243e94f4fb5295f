import NetworkFileSystem.SsFileOperations

/-!
# The storage server

The messages of `storage_server.c`, and its file operations under the lock of the path. A reply
starts out as ACK; the result of a file operation only sets its error code.
-/

namespace NetworkFileSystem

namespace Message

/-- The reply of a storage server after a file operation. -/
def result (code : ErrorCode) : Message := { ack with errorCode := code }

def readResult (code : ErrorCode) (bytes : List UInt8) : Message :=
  { result code with data := .ofBytes _ bytes, dataSize := Int32.ofNat bytes.length }

def infoResult (code : ErrorCode) (type : FileType) (text : List UInt8) : Message :=
  { result code with
    fileType := type, data := .ofBytes _ text, dataSize := Int32.ofNat text.length }

/-- The request that the server of the source sends to the server of the destination. -/
def writeRequest (msg : Message) (bytes : List UInt8) : Message :=
  { zero with
    operation := .writeFile
    path := .ofBytes _ msg.path2.str
    data := .ofBytes _ bytes
    dataSize := Int32.ofNat bytes.length
    writeMode := .sync }

/-- The bytes that WRITE_FILE writes, for a `data_size` within the array. -/
def payload (msg : Message) : List UInt8 := msg.data.toList.take msg.dataSize.toInt.toNat

/-- `data_size` is within the array, if the request writes. -/
def Sized (msg : Message) : Prop :=
  msg.operation = .writeFile → 0 ≤ msg.dataSize.toInt ∧ msg.dataSize.toInt ≤ maxDataSize

instance (msg : Message) : Decidable msg.Sized := inferInstanceAs (Decidable (_ → _))

/-- Then WRITE_FILE writes as many bytes. -/
theorem Sized.length_payload {msg : Message} (h : msg.Sized) (hop : msg.operation = .writeFile) :
    (msg.payload.length : ℤ) = msg.dataSize.toInt := by
  obtain ⟨hnonneg, hle⟩ := h hop
  have hlen : msg.data.toList.length = maxDataSize := msg.data.toList_length
  have hmax : maxDataSize = 8192 := rfl
  rw [payload, List.length_take, hlen]
  omega

theorem result_succeeded_iff (code : ErrorCode) : (result code).Succeeded ↔ code = .success :=
  and_iff_right rfl

/-- The bytes put into the data with their number are the payload. -/
theorem payload_of_ofBytes {msg : Message} {bytes : List UInt8}
    (hdata : msg.data = .ofBytes _ bytes) (hsize : msg.dataSize = Int32.ofNat bytes.length)
    (h : bytes.length ≤ maxDataSize - 1) : msg.payload = bytes := by
  have hlen : bytes.length < 8192 := Nat.lt_of_le_sub_one (by decide) h
  have hnat : (Int32.ofNat bytes.length).toInt.toNat = bytes.length := by
    rw [Int32.toInt_ofNat_of_lt (by omega)]
    rfl
  rw [payload, hdata, hsize, hnat]
  change ((bytes ++ List.replicate maxDataSize 0).take maxDataSize).take bytes.length = bytes
  rw [List.take_take, min_eq_left hlen.le, List.take_left' rfl]

theorem payload_writeRequest (msg : Message) {bytes : List UInt8}
    (h : bytes.length ≤ maxDataSize - 1) : (writeRequest msg bytes).payload = bytes :=
  payload_of_ofBytes rfl rfl h

theorem payload_readResult (code : ErrorCode) {bytes : List UInt8}
    (h : bytes.length ≤ maxDataSize - 1) : (readResult code bytes).payload = bytes :=
  payload_of_ofBytes rfl rfl h

theorem dataSize_readResult (code : ErrorCode) {bytes : List UInt8}
    (h : bytes.length ≤ maxDataSize - 1) :
    (readResult code bytes).dataSize.toInt = bytes.length := by
  have hlen : bytes.length < 8192 := Nat.lt_of_le_sub_one (by decide) h
  exact Int32.toInt_ofNat_of_lt (by omega)

theorem path_writeRequest (msg : Message) (bytes : List UInt8)
    (h : msg.path2.str.length < maxPathLen) : (writeRequest msg bytes).path.str = msg.path2.str :=
  CharArray.str_ofBytes msg.path2.zero_notMem_str h

end Message

namespace Disk

def createFile (disk : Disk) (os : Os) (msg : Message) : ErrorCode × Disk :=
  if os.lock then disk.ssCreate os msg.path.str msg.fileType else (.fileInUse, disk)

def deleteFile (disk : Disk) (os : Os) (msg : Message) : ErrorCode × Disk :=
  if os.lock then disk.ssDelete os msg.path.str else (.fileInUse, disk)

def readFile (disk : Disk) (os : Os) (msg : Message) : ErrorCode × List UInt8 :=
  if os.lock then disk.ssRead os msg.path.str else (.fileInUse, [])

def writeFile (disk : Disk) (os : Os) (msg : Message) : ErrorCode × Disk :=
  if os.lock then disk.ssWrite os msg.path.str msg.payload else (.fileInUse, disk)

def getFileInfo (disk : Disk) (os : Os) (msg : Message) : ErrorCode × FileType × List UInt8 :=
  if os.lock then disk.ssGetInfo os msg.path.str else (.fileInUse, .file, [])

/-- The disks agree except that an object may be created or changed at the path, which then
exists. -/
def WrittenAt (disk disk' : Disk) (path : Path) : Prop :=
  (disk' path).isSome ∧ ∀ q, q ≠ path → disk' q = disk q

theorem createFile_cases (disk : Disk) (os : Os) (msg : Message) :
    (∃ code, code ≠ .success ∧ disk.createFile os msg = (code, disk)) ∨
      ∃ disk', disk.createFile os msg = (.success, disk') ∧
        disk.WrittenAt disk' msg.path.str := by
  rw [createFile]
  split_ifs
  · exact ssCreate_cases disk os msg.path.str msg.fileType
  · exact Or.inl ⟨.fileInUse, by decide, rfl⟩

theorem deleteFile_cases (disk : Disk) (os : Os) (msg : Message) :
    (∃ code, code ≠ .success ∧ disk.deleteFile os msg = (code, disk)) ∨
      (disk msg.path.str).isSome ∧
        disk.deleteFile os msg = (.success, Function.update disk msg.path.str none) := by
  rw [deleteFile]
  split_ifs
  · exact ssDelete_cases disk os msg.path.str
  · exact Or.inl ⟨.fileInUse, by decide, rfl⟩

theorem writeFile_cases (disk : Disk) (os : Os) (msg : Message) :
    (∃ code, code ≠ .success ∧ code ≠ .asyncWriteFailed ∧
        disk.writeFile os msg = (code, disk)) ∨
      ∃ code disk', disk.writeFile os msg = (code, disk') ∧
        (code = .success ∨ code = .asyncWriteFailed) ∧ disk.WrittenAt disk' msg.path.str := by
  rw [writeFile]
  split_ifs
  · rcases ssWrite_cases disk os msg.path.str msg.payload with h | h
    · exact Or.inl ⟨.permissionDenied, by decide, by decide, h⟩
    · exact Or.inr h
  · exact Or.inl ⟨.fileInUse, by decide, by decide, rfl⟩

theorem length_readFile_le (disk : Disk) (os : Os) (msg : Message) :
    (disk.readFile os msg).2.length ≤ maxDataSize - 1 := by
  rw [readFile, ssRead]
  split_ifs
  · split
    · exact (List.length_take_le _ _).trans (Nat.min_le_left _ _)
    · exact Nat.zero_le _
  · exact Nat.zero_le _

end Disk
end NetworkFileSystem
