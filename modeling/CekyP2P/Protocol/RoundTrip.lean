import CekyP2P.Dht.Storage
import CekyP2P.Protocol.Dht
import CekyP2P.Protocol.TransferCodec

/-!
# Round trips of payloads

What a node encodes, the decoder of the same message reads back: every transfer message, a
lookup request and a stored entry. In the other direction a decoded offer need not be one that
the constructor returns, since the decoder takes the chunk count from the payload.
-/

namespace CekyP2P.Protocol

open Reader Dht

/-- A message is decoded if its fields are read from what follows the transfer identifier. -/
theorem parse_readMessage {α : Type} {fieldsLen : Nat}
    {fields : TransferId → Reader TransferError α} {transferId : TransferId}
    {buf : List UInt8} {a : α} (rest : List UInt8) (hlen : fieldsLen ≤ buf.length)
    (hfields : fields transferId buf = .ok a rest) :
    (readMessage fieldsLen fields).parse
      (transferVersion :: (transferId.bytes.toList ++ buf)) = .ok a := by
  rw [parse_eq_ok]
  refine ⟨rest, ?_⟩
  rw [readMessage, ensureRemaining_bind_eq_ok]
  refine ⟨by simp; omega, ?_⟩
  refine Exec.bind_eq_ok.mpr ⟨transferVersion, _, getU8_eq_ok.mpr rfl, ?_⟩
  rw [if_neg (not_not.mpr rfl)]
  exact Exec.bind_eq_ok.mpr ⟨transferId, _, readTransferId_eq_ok.mpr rfl, hfields⟩

/-- What the constructor returns has a chunk size, a short name and the count of its file. -/
theorem FileOffer.new_eq_ok {transferId : TransferId} {fileName : String} {fileSize : UInt64}
    {chunkSize : UInt32} {fileHash : Vector UInt8 32} {offer : FileOffer} :
    FileOffer.new transferId fileName fileSize chunkSize fileHash = .ok offer ↔
      chunkSize ≠ 0 ∧ fileName.utf8ByteSize ≤ maxFileNameLen ∧
        offer = { transferId, fileName, fileSize, chunkSize, fileHash,
                  totalChunks := computeTotalChunks fileSize chunkSize } := by
  rw [FileOffer.new]
  by_cases hzero : chunkSize = 0
  · simp [hzero]
  · by_cases hname : maxFileNameLen < fileName.utf8ByteSize
    · simp [hzero, hname]
    · simp [hzero, hname, Nat.le_of_not_lt hname, eq_comm]

/-- An offer is read back, if it is one that can be made. -/
theorem FileOffer.decode_encode {offer : FileOffer} (hchunk : offer.chunkSize ≠ 0)
    (hname : offer.fileName.utf8ByteSize ≤ maxFileNameLen) :
    FileOffer.decode offer.encode = .ok offer :=
  FileOffer.decode_eq_ok.mpr ⟨⟨[], (List.append_nil _).symm⟩, hname, hchunk⟩

/-- An acceptance is read back, if its bitmap is not too long. -/
theorem FileAccept.decode_encode_new (transferId : TransferId) {missingBitmap : List UInt8}
    (hshort : missingBitmap.length < 2 ^ 32) :
    FileAccept.decode (FileAccept.new transferId missingBitmap).encode =
      .ok (FileAccept.new transferId missingBitmap) := by
  have hlen : (UInt32.ofNat missingBitmap.length).toNat = missingBitmap.length :=
    UInt32.toNat_ofNat_of_lt' hshort
  have hresume : ((!missingBitmap.isEmpty).toUInt8 != 0) = !missingBitmap.isEmpty := by
    cases missingBitmap.isEmpty <;> rfl
  have hcheck : ¬((!(!missingBitmap.isEmpty)) = true ∧ UInt32.ofNat missingBitmap.length ≠ 0) := by
    rintro ⟨hempty, hne⟩
    rw [Bool.not_not, List.isEmpty_iff] at hempty
    rw [hempty] at hne
    exact hne rfl
  simp only [FileAccept.encode, FileAccept.new, List.append_assoc, List.singleton_append]
  refine parse_readMessage [] (by simp) ?_
  refine Exec.bind_eq_ok.mpr ⟨_, _, getU8_eq_ok.mpr rfl, ?_⟩
  refine Exec.bind_eq_ok.mpr ⟨_, _, getU32_eq_ok.mpr rfl, ?_⟩
  rw [hresume, if_neg hcheck, ensureRemaining_bind_eq_ok]
  refine ⟨Nat.le_of_eq hlen, ?_⟩
  exact Exec.bind_eq_ok.mpr ⟨missingBitmap, [],
    copyToBytes_eq_ok.mpr ⟨(List.append_nil _).symm, hlen.symm⟩, rfl⟩

/-- A reason is read back from its byte. -/
theorem FileRejectReason.fromByte_asByte (reason : FileRejectReason) :
    FileRejectReason.fromByte reason.asByte = .ok reason := by
  cases reason <;> rfl

/-- A rejection is read back. -/
theorem FileReject.decode_encode (reject : FileReject) :
    FileReject.decode reject.encode = .ok reject := by
  simp only [FileReject.encode, List.singleton_append]
  refine parse_readMessage [] (by simp) ?_
  refine Exec.bind_eq_ok.mpr ⟨_, _, getU8_eq_ok.mpr rfl, ?_⟩
  rw [FileRejectReason.fromByte_asByte]
  rfl

/-- A chunk is read back. -/
theorem FileChunk.decode_encode (chunk : FileChunk) :
    FileChunk.decode chunk.encode = .ok chunk := by
  simp only [FileChunk.encode, List.append_assoc, List.singleton_append]
  refine parse_readMessage [] (by simp; omega) ?_
  refine Exec.bind_eq_ok.mpr ⟨_, _, getU32_eq_ok.mpr rfl, ?_⟩
  refine Exec.bind_eq_ok.mpr ⟨_, _, readFixed_eq_ok.mpr rfl, ?_⟩
  rw [Exec.get_bind_apply]
  exact Exec.bind_eq_ok.mpr ⟨chunk.data, [],
    copyToBytes_eq_ok.mpr ⟨(List.append_nil _).symm, rfl⟩, rfl⟩

/-- A status is read back from its byte. -/
theorem ChunkAckStatus.fromByte_asByte (status : ChunkAckStatus) :
    ChunkAckStatus.fromByte status.asByte = .ok status := by
  cases status <;> rfl

/-- An acknowledgement is read back. -/
theorem FileChunkAck.decode_encode (ack : FileChunkAck) :
    FileChunkAck.decode ack.encode = .ok ack := by
  simp only [FileChunkAck.encode, List.append_assoc, List.singleton_append]
  refine parse_readMessage [] (by simp) ?_
  refine Exec.bind_eq_ok.mpr ⟨_, _, getU32_eq_ok.mpr rfl, ?_⟩
  refine Exec.bind_eq_ok.mpr ⟨_, _, getU8_eq_ok.mpr rfl, ?_⟩
  rw [ChunkAckStatus.fromByte_asByte]
  rfl

/-- The end of a transfer is read back. -/
theorem FileComplete.decode_encode (complete : FileComplete) :
    FileComplete.decode complete.encode = .ok complete := by
  simp only [FileComplete.encode, List.singleton_append]
  refine parse_readMessage [] (by simp) ?_
  exact Exec.bind_eq_ok.mpr ⟨complete.fileHash, [],
    readFixed_eq_ok.mpr (List.append_nil _).symm, rfl⟩

/-- A reason is read back from its byte. -/
theorem FileCancelReason.fromByte_asByte (reason : FileCancelReason) :
    FileCancelReason.fromByte reason.asByte = .ok reason := by
  cases reason <;> rfl

/-- A cancellation is read back. -/
theorem FileCancel.decode_encode (cancel : FileCancel) :
    FileCancel.decode cancel.encode = .ok cancel := by
  simp only [FileCancel.encode, List.singleton_append]
  refine parse_readMessage [] (by simp) ?_
  refine Exec.bind_eq_ok.mpr ⟨_, _, getU8_eq_ok.mpr rfl, ?_⟩
  rw [FileCancelReason.fromByte_asByte]
  rfl

/-- A request is read back. -/
theorem FindNode.decode_encode (request : FindNode) :
    FindNode.decode request.encode = .ok request := by
  rw [FindNode.decode, parse_eq_ok]
  refine ⟨[], ?_⟩
  rw [FindNode.read, ensureRemaining_bind_eq_ok]
  refine ⟨by simp [FindNode.encode], ?_⟩
  refine Exec.bind_eq_ok.mpr ⟨dhtVersion, _, getU8_eq_ok.mpr rfl, ?_⟩
  rw [if_neg (not_not.mpr rfl)]
  exact Exec.bind_eq_ok.mpr ⟨request.target, [],
    readPeerId_eq_ok.mpr (List.append_nil _).symm, rfl⟩

/-- Every message that a node builds is read back from its own encoding. -/
theorem payloads_round_trip :
    (∀ transferId fileName fileSize chunkSize fileHash offer,
      FileOffer.new transferId fileName fileSize chunkSize fileHash = .ok offer →
        FileOffer.decode offer.encode = .ok offer) ∧
    (∀ transferId (missingBitmap : List UInt8), missingBitmap.length < 2 ^ 32 →
      FileAccept.decode (FileAccept.new transferId missingBitmap).encode =
        .ok (FileAccept.new transferId missingBitmap)) ∧
    (∀ reject : FileReject, FileReject.decode reject.encode = .ok reject) ∧
    (∀ chunk : FileChunk, FileChunk.decode chunk.encode = .ok chunk) ∧
    (∀ ack : FileChunkAck, FileChunkAck.decode ack.encode = .ok ack) ∧
    (∀ complete : FileComplete, FileComplete.decode complete.encode = .ok complete) ∧
    (∀ cancel : FileCancel, FileCancel.decode cancel.encode = .ok cancel) ∧
    (∀ request : FindNode, FindNode.decode request.encode = .ok request) ∧
    (∀ entry : StoredEntry, entry.value.length < 2 ^ 32 →
      StoredEntry.decode entry.encode = .ok entry) := by
  refine ⟨?_, fun transferId _ => FileAccept.decode_encode_new transferId,
    FileReject.decode_encode, FileChunk.decode_encode, FileChunkAck.decode_encode,
    FileComplete.decode_encode, FileCancel.decode_encode, FindNode.decode_encode, ?_⟩
  · intro transferId fileName fileSize chunkSize fileHash offer hnew
    obtain ⟨hchunk, hname, rfl⟩ := FileOffer.new_eq_ok.mp hnew
    exact FileOffer.decode_encode hchunk hname
  · intro entry hshort
    rw [StoredEntry.decode_encode, StoredEntry.truncated_eq hshort]

/-! ## Decoded offers -/

/-- The big-endian word at a position of a payload. -/
def wordAt (payload : List UInt8) (start width : Nat) : Nat :=
  ofBeBytes ((payload.drop start).take width)

/-- A number behind other data. -/
theorem wordAt_append {pre post : List UInt8} {start width v : Nat} (hpre : pre.length = start)
    (hv : v < 256 ^ width) : wordAt (pre ++ (toBeBytes width v ++ post)) start width = v := by
  rw [wordAt, List.drop_left' hpre, List.take_left' (length_toBeBytes _ _), ofBeBytes_toBeBytes,
    Nat.mod_eq_of_lt hv]

namespace FileOffer

/-- The file size in the payload of an offer. -/
def fileSizeField (payload : List UInt8) : UInt64 := UInt64.ofNat (wordAt payload 17 8)

/-- The chunk size in the payload of an offer. -/
def chunkSizeField (payload : List UInt8) : UInt32 := UInt32.ofNat (wordAt payload 25 4)

/-- The number of chunks in the payload of an offer. -/
def totalChunksField (payload : List UInt8) : UInt32 := UInt32.ofNat (wordAt payload 29 4)

/-- Where the file size stands. -/
theorem fileSizeField_encode (offer : FileOffer) (rest : List UInt8) :
    fileSizeField (offer.encode ++ rest) = offer.fileSize := by
  simp only [encode, List.append_assoc]
  rw [fileSizeField, ← List.append_assoc, wordAt_append (by simp) offer.fileSize.toNat_lt,
    UInt64.ofNat_toNat]

/-- Where the chunk size stands. -/
theorem chunkSizeField_encode (offer : FileOffer) (rest : List UInt8) :
    chunkSizeField (offer.encode ++ rest) = offer.chunkSize := by
  simp only [encode, List.append_assoc]
  rw [chunkSizeField, ← List.append_assoc, ← List.append_assoc,
    wordAt_append (by simp) offer.chunkSize.toNat_lt, UInt32.ofNat_toNat]

/-- Where the number of chunks stands. -/
theorem totalChunksField_encode (offer : FileOffer) (rest : List UInt8) :
    totalChunksField (offer.encode ++ rest) = offer.totalChunks := by
  simp only [encode, List.append_assoc]
  rw [totalChunksField, ← List.append_assoc, ← List.append_assoc, ← List.append_assoc,
    wordAt_append (by simp) offer.totalChunks.toNat_lt, UInt32.ofNat_toNat]

/-- An accepted offer always has a chunk size and a short name, and it is the one that the
constructor makes of its fields exactly when the count in the payload is the chunk count of the
sizes in the payload. -/
theorem new_of_decode_iff {payload : List UInt8} {offer : FileOffer}
    (haccepted : decode payload = .ok offer) :
    offer.chunkSize ≠ 0 ∧ offer.fileName.utf8ByteSize ≤ maxFileNameLen ∧
      (FileOffer.new offer.transferId offer.fileName offer.fileSize offer.chunkSize offer.fileHash =
          .ok offer ↔
        totalChunksField payload =
          computeTotalChunks (fileSizeField payload) (chunkSizeField payload)) := by
  obtain ⟨⟨rest, rfl⟩, hname, hchunk⟩ := decode_eq_ok.mp haccepted
  refine ⟨hchunk, hname, ?_⟩
  rw [totalChunksField_encode, fileSizeField_encode, chunkSizeField_encode, new_eq_ok,
    and_iff_right hchunk, and_iff_right hname]
  obtain ⟨transferId, fileName, fileSize, chunkSize, totalChunks, fileHash⟩ := offer
  simp

/-- One byte in one chunk. -/
def singleByte : FileOffer where
  transferId := ⟨Vector.replicate 16 7⟩
  fileName := "a"
  fileSize := 1
  chunkSize := 1
  totalChunks := 1
  fileHash := Vector.replicate 32 0

/-- The same file, said to have two chunks. -/
def overcounted : FileOffer := { singleByte with totalChunks := 2 }

/-- The offer of a single byte is decoded and can be made. -/
theorem new_of_decode_singleByte : decode singleByte.encode = .ok singleByte ∧
    FileOffer.new singleByte.transferId singleByte.fileName singleByte.fileSize
      singleByte.chunkSize singleByte.fileHash = .ok singleByte := by
  have haccepted : decode singleByte.encode = .ok singleByte :=
    decode_encode (by decide) (by decide)
  exact ⟨haccepted, (new_of_decode_iff haccepted).2.2.mpr (by decide +kernel)⟩

/-- The decoder accepts an offer with a count that its file does not have. -/
theorem decode_overcounted : decode overcounted.encode = .ok overcounted ∧
    FileOffer.new overcounted.transferId overcounted.fileName overcounted.fileSize
      overcounted.chunkSize overcounted.fileHash ≠ .ok overcounted := by
  refine ⟨decode_encode (by decide) (by decide), ?_⟩
  rw [Ne, new_eq_ok]
  rintro ⟨-, -, heq⟩
  have hcount : (2 : UInt32) = computeTotalChunks 1 1 := congrArg FileOffer.totalChunks heq
  exact absurd hcount (by decide)

end FileOffer

end CekyP2P.Protocol
