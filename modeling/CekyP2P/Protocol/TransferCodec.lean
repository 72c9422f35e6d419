import CekyP2P.Core.Buf
import CekyP2P.Protocol.Frame
import CekyP2P.Protocol.Transfer

/-!
# Encoding of transfer messages

The decoder of an offer accepts exactly the encodings of offers with a chunk size and a
name of at most 255 bytes, whatever follows them. It does not look at the name. Only offers,
bitmaps and chunks have encodings of variable length.
-/

namespace CekyP2P.Protocol

open Reader

/-- `TRANSFER_VERSION`. -/
def transferVersion : UInt8 := 1

/-- The UTF-8 bytes of a string. -/
def utf8Bytes (s : String) : List UInt8 := s.toByteArray.data.toList

/-- A text is as long as its bytes. -/
theorem length_utf8Bytes (s : String) : (utf8Bytes s).length = s.utf8ByteSize := rfl

/-- Bytes are read as the text that they encode. -/
theorem fromUTF8?_eq_some {bytes : List UInt8} {s : String} :
    String.fromUTF8? ⟨bytes.toArray⟩ = some s ↔ bytes = utf8Bytes s := by
  rw [String.fromUTF8?, Option.dite_none_right_eq_some]
  constructor
  · rintro ⟨hvalid, hs⟩
    cases hs
    rfl
  · rintro rfl
    exact ⟨s.isValidUTF8, rfl⟩

/-- Read the identifier of a transfer. -/
def readTransferId : Reader TransferError TransferId := do
  ensureRemaining .bufferTooShort 16
  let id ← copyToSlice 16
  pure ⟨id⟩

/-- Read some bytes. -/
def readFixed (n : Nat) : Reader TransferError (Vector UInt8 n) := do
  ensureRemaining .bufferTooShort n
  copyToSlice n

/-- The bytes of an offer. -/
def FileOffer.encode (offer : FileOffer) : List UInt8 :=
  let nameBytes := utf8Bytes offer.fileName
  [transferVersion] ++ offer.transferId.bytes.toList ++ toBeBytes 8 offer.fileSize.toNat ++
    toBeBytes 4 offer.chunkSize.toNat ++ toBeBytes 4 offer.totalChunks.toNat ++
    offer.fileHash.toList ++ toBeBytes 2 (UInt16.ofNat nameBytes.length).toNat ++ nameBytes

/-- The fields of an offer, in the order in which they are read and checked. -/
def FileOffer.read : Reader TransferError FileOffer := do
  ensureRemaining .bufferTooShort (1 + 16 + 8 + 4 + 4 + 32 + 2)
  let version ← getU8
  if version ≠ transferVersion then throw (.error (.unsupportedVersion version))
  else do
    let transferId ← readTransferId
    let fileSize ← getU64
    let chunkSize ← getU32
    let totalChunks ← getU32
    let fileHash ← readFixed 32
    let nameLen ← getU16
    if maxFileNameLen < nameLen.toNat then throw (.error (.invalidField "file_name"))
    else do
      ensureRemaining .bufferTooShort nameLen.toNat
      let nameBytes ← copyToBytes nameLen.toNat
      let fileName ← Exec.orError .invalidFileName (String.fromUTF8? ⟨nameBytes.toArray⟩)
      if chunkSize = 0 then throw (.error (.invalidField "chunk_size"))
      else pure { transferId, fileName, fileSize, chunkSize, totalChunks, fileHash }

/-- The offer in a payload. -/
def FileOffer.decode (payload : List UInt8) : Except (Stop TransferError) FileOffer :=
  FileOffer.read.parse payload

section

variable {buf rest : List UInt8}

/-- Bytes are read where the buffer begins with them. -/
theorem readFixed_eq_ok {n : Nat} {v : Vector UInt8 n} :
    readFixed n buf = .ok v rest ↔ buf = v.toList ++ rest := by
  rw [readFixed, ensureRemaining_bind_eq_ok, copyToSlice_eq_ok, and_iff_right_iff_imp]
  rintro rfl
  simp

/-- An identifier is read where the buffer begins with it. -/
theorem readTransferId_eq_ok {id : TransferId} :
    readTransferId buf = .ok id rest ↔ buf = id.bytes.toList ++ rest := by
  rw [readTransferId, ensureRemaining_bind_eq_ok]
  constructor
  · rintro ⟨-, h⟩
    obtain ⟨v, _, hv, h⟩ := Exec.bind_eq_ok.mp h
    cases h
    exact copyToSlice_eq_ok.mp hv
  · rintro rfl
    exact ⟨by simp, Exec.bind_eq_ok.mpr ⟨_, _, copyToSlice_eq_ok.mpr rfl, rfl⟩⟩

/-- What is read is an encoded offer with a chunk size and a name that is short enough. -/
theorem FileOffer.encode_of_read {offer : FileOffer} (h : FileOffer.read buf = .ok offer rest) :
    buf = offer.encode ++ rest ∧ offer.fileName.utf8ByteSize ≤ maxFileNameLen ∧
      offer.chunkSize ≠ 0 := by
  rw [FileOffer.read, ensureRemaining_bind_eq_ok] at h
  obtain ⟨version, _, hversion, h⟩ := Exec.bind_eq_ok.mp h.2
  split at h
  case isTrue => cases h
  case isFalse heq =>
    obtain ⟨transferId, _, hid, h⟩ := Exec.bind_eq_ok.mp h
    obtain ⟨fileSize, _, hsize, h⟩ := Exec.bind_eq_ok.mp h
    obtain ⟨chunkSize, _, hchunk, h⟩ := Exec.bind_eq_ok.mp h
    obtain ⟨totalChunks, _, htotal, h⟩ := Exec.bind_eq_ok.mp h
    obtain ⟨fileHash, _, hhash, h⟩ := Exec.bind_eq_ok.mp h
    obtain ⟨nameLen, _, hnameLen, h⟩ := Exec.bind_eq_ok.mp h
    split at h
    case isTrue => cases h
    case isFalse hmax =>
      rw [ensureRemaining_bind_eq_ok] at h
      obtain ⟨nameBytes, _, hname, h⟩ := Exec.bind_eq_ok.mp h.2
      obtain ⟨fileName, _, hdecoded, h⟩ := Exec.bind_eq_ok.mp h
      split at h
      case isTrue => cases h
      case isFalse hzero =>
        cases h
        obtain ⟨rfl, hlen⟩ := copyToBytes_eq_ok.mp hname
        obtain ⟨hutf8, rfl⟩ := Exec.orError_eq_ok.mp hdecoded
        obtain rfl := fromUTF8?_eq_some.mp hutf8
        rw [getU8_eq_ok.mp hversion, not_not.mp heq, readTransferId_eq_ok.mp hid,
          getU64_eq_ok.mp hsize, getU32_eq_ok.mp hchunk, getU32_eq_ok.mp htotal,
          readFixed_eq_ok.mp hhash, getU16_eq_ok.mp hnameLen]
        refine ⟨?_, ?_, hzero⟩
        · simp [FileOffer.encode, hlen]
        · rw [← length_utf8Bytes, hlen]
          exact Nat.le_of_not_lt hmax

/-- Every such offer is read back. -/
theorem FileOffer.read_encode {offer : FileOffer}
    (hname : offer.fileName.utf8ByteSize ≤ maxFileNameLen) (hchunk : offer.chunkSize ≠ 0)
    (rest : List UInt8) : FileOffer.read (offer.encode ++ rest) = .ok offer rest := by
  have hlen : (UInt16.ofNat (utf8Bytes offer.fileName).length).toNat =
      (utf8Bytes offer.fileName).length := by
    have hlt : (utf8Bytes offer.fileName).length < 2 ^ 16 :=
      (hname.trans_lt (by decide) : offer.fileName.utf8ByteSize < 2 ^ 16)
    exact UInt16.toNat_ofNat_of_lt' hlt
  have hmax : ¬maxFileNameLen < (UInt16.ofNat (utf8Bytes offer.fileName).length).toNat := by
    rw [hlen]
    exact Nat.not_lt.mpr hname
  simp only [FileOffer.encode, List.append_assoc, List.singleton_append]
  rw [FileOffer.read, ensureRemaining_bind_eq_ok]
  refine ⟨by simp; omega, Exec.bind_eq_ok.mpr ⟨_, _, getU8_eq_ok.mpr rfl, ?_⟩⟩
  rw [if_neg (not_not.mpr rfl)]
  refine Exec.bind_eq_ok.mpr ⟨_, _, readTransferId_eq_ok.mpr rfl, ?_⟩
  refine Exec.bind_eq_ok.mpr ⟨_, _, getU64_eq_ok.mpr rfl, ?_⟩
  refine Exec.bind_eq_ok.mpr ⟨_, _, getU32_eq_ok.mpr rfl, ?_⟩
  refine Exec.bind_eq_ok.mpr ⟨_, _, getU32_eq_ok.mpr rfl, ?_⟩
  refine Exec.bind_eq_ok.mpr ⟨_, _, readFixed_eq_ok.mpr rfl, ?_⟩
  refine Exec.bind_eq_ok.mpr ⟨_, _, getU16_eq_ok.mpr rfl, ?_⟩
  rw [if_neg hmax, ensureRemaining_bind_eq_ok]
  refine ⟨by rw [hlen]; simp, Exec.bind_eq_ok.mpr
    ⟨_, _, copyToBytes_eq_ok.mpr ⟨rfl, hlen.symm⟩, ?_⟩⟩
  refine Exec.bind_eq_ok.mpr ⟨_, _, Exec.orError_eq_ok.mpr ⟨fromUTF8?_eq_some.mpr rfl, rfl⟩, ?_⟩
  rw [if_neg hchunk]
  rfl

end

/-- The payloads that are accepted as an offer. -/
theorem FileOffer.decode_eq_ok {payload : List UInt8} {offer : FileOffer} :
    FileOffer.decode payload = .ok offer ↔ (∃ rest, payload = offer.encode ++ rest) ∧
      offer.fileName.utf8ByteSize ≤ maxFileNameLen ∧ offer.chunkSize ≠ 0 := by
  rw [FileOffer.decode, parse_eq_ok]
  constructor
  · rintro ⟨rest, hread⟩
    obtain ⟨hpayload, hname, hchunk⟩ := FileOffer.encode_of_read hread
    exact ⟨⟨rest, hpayload⟩, hname, hchunk⟩
  · rintro ⟨⟨rest, rfl⟩, hname, hchunk⟩
    exact ⟨rest, FileOffer.read_encode hname hchunk rest⟩

/-- The length of an offer depends on its name. -/
theorem FileOffer.length_encode (offer : FileOffer) :
    offer.encode.length = 67 + (utf8Bytes offer.fileName).length := by
  simp only [FileOffer.encode, List.length_append, List.length_singleton, Vector.length_toList,
    length_toBeBytes]

/-! ## The other messages -/

/-- The bytes of an acceptance. -/
def FileAccept.encode (accept : FileAccept) : List UInt8 :=
  [transferVersion] ++ accept.transferId.bytes.toList ++ [accept.resume.toUInt8] ++
    toBeBytes 4 (UInt32.ofNat accept.missingBitmap.length).toNat ++ accept.missingBitmap

/-- The bytes of a chunk. -/
def FileChunk.encode (chunk : FileChunk) : List UInt8 :=
  [transferVersion] ++ chunk.transferId.bytes.toList ++ toBeBytes 4 chunk.chunkIndex.toNat ++
    chunk.chunkHash.toList ++ chunk.data

/-- The discriminants. -/
def ChunkAckStatus.asByte : ChunkAckStatus → UInt8
  | ok => 0
  | badHash => 1
  | cancelled => 2

/-- The bytes of an acknowledgement. -/
def FileChunkAck.encode (ack : FileChunkAck) : List UInt8 :=
  [transferVersion] ++ ack.transferId.bytes.toList ++ toBeBytes 4 ack.chunkIndex.toNat ++
    [ack.status.asByte]

/-- The bytes of the end of a transfer. -/
def FileComplete.encode (complete : FileComplete) : List UInt8 :=
  [transferVersion] ++ complete.transferId.bytes.toList ++ complete.fileHash.toList

/-- The discriminants. -/
def FileRejectReason.asByte : FileRejectReason → UInt8
  | declined => 1
  | busy => 2
  | notFound => 3
  | protocol => 4
  | internal => 5

/-- The bytes of a rejection. -/
def FileReject.encode (reject : FileReject) : List UInt8 :=
  [transferVersion] ++ reject.transferId.bytes.toList ++ [reject.reason.asByte]

/-- The discriminants. -/
def FileCancelReason.asByte : FileCancelReason → UInt8
  | user => 1
  | error => 2
  | timeout => 3

/-- The bytes of a cancellation. -/
def FileCancel.encode (cancel : FileCancel) : List UInt8 :=
  [transferVersion] ++ cancel.transferId.bytes.toList ++ [cancel.reason.asByte]

/-- The payload of a credit update; the count is little-endian. -/
def encodeCreditUpdate (transferId : TransferId) (credits : UInt32) : List UInt8 :=
  transferId.bytes.toList ++ (toBeBytes 4 credits.toNat).reverse

/-! ## Decoders -/

/-- The reason in a byte. -/
def FileRejectReason.fromByte (value : UInt8) : Except (Stop TransferError) FileRejectReason :=
  match value with
  | 1 => .ok .declined
  | 2 => .ok .busy
  | 3 => .ok .notFound
  | 4 => .ok .protocol
  | 5 => .ok .internal
  | other => .error (.error (.unknownEnum "FileRejectReason" other))

/-- The status in a byte. -/
def ChunkAckStatus.fromByte (value : UInt8) : Except (Stop TransferError) ChunkAckStatus :=
  match value with
  | 0 => .ok .ok
  | 1 => .ok .badHash
  | 2 => .ok .cancelled
  | other => .error (.error (.unknownEnum "ChunkAckStatus" other))

/-- The reason in a byte. -/
def FileCancelReason.fromByte (value : UInt8) : Except (Stop TransferError) FileCancelReason :=
  match value with
  | 1 => .ok .user
  | 2 => .ok .error
  | 3 => .ok .timeout
  | other => .error (.error (.unknownEnum "FileCancelReason" other))

/-- The beginning of every message: `fieldsLen` is the length of the fields that are always
there. -/
def readMessage {α : Type} (fieldsLen : Nat) (fields : TransferId → Reader TransferError α) :
    Reader TransferError α := do
  ensureRemaining .bufferTooShort (1 + 16 + fieldsLen)
  let version ← getU8
  if version ≠ transferVersion then throw (.error (.unsupportedVersion version))
  else do
    let transferId ← readTransferId
    fields transferId

/-- The acceptance in a payload. One that does not resume has no bitmap. -/
def FileAccept.decode (payload : List UInt8) : Except (Stop TransferError) FileAccept :=
  (readMessage (1 + 4) fun transferId => do
    let resume := (← getU8) != 0
    let bitmapLen ← getU32
    if !resume ∧ bitmapLen ≠ 0 then throw (.error (.invalidField "missing_bitmap"))
    else do
      ensureRemaining .bufferTooShort bitmapLen.toNat
      let missingBitmap ← copyToBytes bitmapLen.toNat
      pure { transferId, resume, missingBitmap }).parse payload

/-- The rejection in a payload. -/
def FileReject.decode (payload : List UInt8) : Except (Stop TransferError) FileReject :=
  (readMessage 1 fun transferId => do
    let reason ← getU8
    let reason ← Exec.ofExcept (FileRejectReason.fromByte reason)
    pure { transferId, reason }).parse payload

/-- The data are all that is left. -/
def FileChunk.decode (payload : List UInt8) : Except (Stop TransferError) FileChunk :=
  (readMessage (4 + 32) fun transferId => do
    let chunkIndex ← getU32
    let chunkHash ← readFixed 32
    let remaining ← get
    let data ← copyToBytes remaining.length
    pure { transferId, chunkIndex, chunkHash, data }).parse payload

/-- The acknowledgement in a payload. -/
def FileChunkAck.decode (payload : List UInt8) : Except (Stop TransferError) FileChunkAck :=
  (readMessage (4 + 1) fun transferId => do
    let chunkIndex ← getU32
    let status ← getU8
    let status ← Exec.ofExcept (ChunkAckStatus.fromByte status)
    pure { transferId, chunkIndex, status }).parse payload

/-- The end of a transfer in a payload. -/
def FileComplete.decode (payload : List UInt8) : Except (Stop TransferError) FileComplete :=
  (readMessage 32 fun transferId => do
    let fileHash ← readFixed 32
    pure { transferId, fileHash }).parse payload

/-- The cancellation in a payload. -/
def FileCancel.decode (payload : List UInt8) : Except (Stop TransferError) FileCancel :=
  (readMessage 1 fun transferId => do
    let reason ← getU8
    let reason ← Exec.ofExcept (FileCancelReason.fromByte reason)
    pure { transferId, reason }).parse payload

/-- Bytes are read as many as they are. -/
theorem fits_readFixed (n : Nat) : Fits n (readFixed n) := (fits_copyToSlice n).ensured _ _

/-- An identifier is read in sixteen bytes. -/
theorem fits_readTransferId : Fits 16 readTransferId :=
  ((fits_copyToSlice 16).bind fun _ => fits_pure _).ensured _ _

/-- A message is decoded without a panic if the length that is checked covers its fields. -/
theorem safe_readMessage {α : Type} {fieldsLen : Nat} {fields : TransferId → Reader TransferError α}
    (h : ∀ transferId, Safe fieldsLen (fields transferId)) :
    Safe 0 (readMessage fieldsLen fields) := by
  refine Safe.ensured ?_ _
  rw [Nat.add_assoc]
  exact fits_getU8.bind_safe fun _ => .check _ fun _ => fits_readTransferId.bind_safe h

/-- Decoding an offer never panics. -/
theorem FileOffer.decode_answered (payload : List UInt8) : Answered (FileOffer.decode payload) := by
  refine (Safe.ensured (n := 1 + (16 + (8 + (4 + (4 + (32 + (2 + 0))))))) ?_ _).parse
    (Nat.zero_le _)
  refine fits_getU8.bind_safe fun _ => .check _ fun _ => ?_
  refine fits_readTransferId.bind_safe fun _ => fits_getU64.bind_safe fun _ => ?_
  refine fits_getU32.bind_safe fun _ => fits_getU32.bind_safe fun _ => ?_
  refine (fits_readFixed 32).bind_safe fun _ => fits_getU16.bind_safe fun nameLen => ?_
  refine .check _ fun _ => .ensured ?_ _
  refine (fits_copyToBytes nameLen.toNat).safe.bind fun _ => ?_
  exact (fits_orError _ _).safe.bind fun _ => .check _ fun _ => (fits_pure _).safe

/-- Decoding an acceptance never panics. -/
theorem FileAccept.decode_answered (payload : List UInt8) :
    Answered (FileAccept.decode payload) := by
  refine (safe_readMessage fun _ => ?_).parse (Nat.zero_le _)
  refine fits_getU8.bind_safe fun _ => fits_getU32.safe.bind fun bitmapLen => ?_
  refine .check _ fun _ => .ensured ?_ _
  exact (fits_copyToBytes bitmapLen.toNat).safe.bind fun _ => (fits_pure _).safe

/-- Decoding a rejection never panics. -/
theorem FileReject.decode_answered (payload : List UInt8) :
    Answered (FileReject.decode payload) := by
  refine (safe_readMessage fun _ => ?_).parse (Nat.zero_le _)
  refine fits_getU8.safe.bind fun reason => (fits_ofExcept ?_).safe.bind fun _ => (fits_pure _).safe
  unfold FileRejectReason.fromByte
  split <;> simp [Answered]

/-- Decoding a chunk never panics. -/
theorem FileChunk.decode_answered (payload : List UInt8) : Answered (FileChunk.decode payload) := by
  refine (safe_readMessage fun _ => ?_).parse (Nat.zero_le _)
  refine fits_getU32.bind_safe fun _ => (fits_readFixed 32).safe.bind fun _ => ?_
  intro remaining _
  exact ((fits_copyToBytes remaining.length).bind fun _ => fits_pure _).safe remaining
    (Nat.le_refl _)

/-- Decoding an acknowledgement never panics. -/
theorem FileChunkAck.decode_answered (payload : List UInt8) :
    Answered (FileChunkAck.decode payload) := by
  refine (safe_readMessage fun _ => ?_).parse (Nat.zero_le _)
  refine fits_getU32.bind_safe fun _ => fits_getU8.safe.bind fun status => ?_
  refine (fits_ofExcept ?_).safe.bind fun _ => (fits_pure _).safe
  unfold ChunkAckStatus.fromByte
  split <;> simp [Answered]

/-- Decoding the end of a transfer never panics. -/
theorem FileComplete.decode_answered (payload : List UInt8) :
    Answered (FileComplete.decode payload) :=
  (safe_readMessage fun _ => (fits_readFixed 32).safe.bind fun _ => (fits_pure _).safe).parse
    (Nat.zero_le _)

/-- Decoding a cancellation never panics. -/
theorem FileCancel.decode_answered (payload : List UInt8) :
    Answered (FileCancel.decode payload) := by
  refine (safe_readMessage fun _ => ?_).parse (Nat.zero_le _)
  refine fits_getU8.safe.bind fun reason => (fits_ofExcept ?_).safe.bind fun _ => (fits_pure _).safe
  unfold FileCancelReason.fromByte
  split <;> simp [Answered]

namespace Payload

/-- The bytes of a payload. -/
def encode : Payload → List UInt8
  | fileOffer offer => offer.encode
  | fileAccept accept => accept.encode
  | creditUpdate transferId credits => encodeCreditUpdate transferId credits
  | fileChunk chunk => chunk.encode
  | fileChunkAck ack => ack.encode
  | fileComplete complete => complete.encode

/-- The type under which a payload is sent. -/
def msgType : Payload → MessageType
  | fileOffer _ => .fileOffer
  | fileAccept _ => .fileAccept
  | creditUpdate _ _ => .creditUpdate
  | fileChunk _ => .fileChunk
  | fileChunkAck _ => .fileChunkAck
  | fileComplete _ => .fileComplete

/-- The length of the encoding without its variable part. -/
def fixedLen : Payload → Nat
  | fileOffer _ => 67
  | fileAccept _ => 22
  | creditUpdate _ _ => 20
  | fileChunk _ => 53
  | fileChunkAck _ => 22
  | fileComplete _ => 49

/-- The name, the bitmap or the data. -/
def variablePart : Payload → List UInt8
  | fileOffer offer => utf8Bytes offer.fileName
  | fileAccept accept => accept.missingBitmap
  | fileChunk chunk => chunk.data
  | _ => []

/-- Every payload has a fixed part and a variable one. -/
theorem length_encode (payload : Payload) :
    payload.encode.length = payload.fixedLen + payload.variablePart.length := by
  cases payload with
  | fileOffer offer => exact offer.length_encode
  | fileAccept accept =>
    simp only [encode, FileAccept.encode, List.length_append, List.length_singleton,
      Vector.length_toList, length_toBeBytes]
    rfl
  | creditUpdate transferId credits => simp [encode, encodeCreditUpdate, fixedLen, variablePart]
  | fileChunk chunk =>
    simp only [encode, FileChunk.encode, List.length_append, List.length_singleton,
      Vector.length_toList, length_toBeBytes]
    rfl
  | fileChunkAck ack => simp [encode, FileChunkAck.encode, fixedLen, variablePart]
  | fileComplete complete => simp [encode, FileComplete.encode, fixedLen, variablePart]

end Payload

end CekyP2P.Protocol
