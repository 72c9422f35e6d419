import Mathlib.Data.UInt
import Mathlib.Data.Nat.Notation

/-!
# File transfer messages

The messages of a transfer as values, with the helpers both sides share: the chunk
count of a file and the bitmap of missing chunks. Integers are machine words, so
the narrowing of the chunk count is visible.
-/

namespace CekyP2P.Protocol

/-- `MAX_FILE_NAME_LEN`. -/
def maxFileNameLen : Nat := 255

/-- The identifier of a transfer. -/
structure TransferId where
  bytes : Vector UInt8 16
  deriving DecidableEq

/-- The errors of the message constructors and decoders. -/
inductive TransferError
  | unsupportedVersion (version : UInt8)
  | bufferTooShort (needed got : Nat)
  | invalidField (field : String)
  | invalidFileName
  | unknownEnum (field : String) (value : UInt8)
  deriving DecidableEq

/-- Number of chunks of a file, narrowed to 32 bits. -/
def computeTotalChunks (fileSize : UInt64) (chunkSize : UInt32) : UInt32 :=
  if fileSize = 0 ∨ chunkSize = 0 then 0
  else ((fileSize - 1) / chunkSize.toUInt64 + 1).toUInt32

/-- A file is offered. -/
structure FileOffer where
  transferId : TransferId
  fileName : String
  fileSize : UInt64
  chunkSize : UInt32
  totalChunks : UInt32
  fileHash : Vector UInt8 32
  deriving DecidableEq

/-- An offer with the number of chunks that the sizes give. -/
def FileOffer.new (transferId : TransferId) (fileName : String) (fileSize : UInt64)
    (chunkSize : UInt32) (fileHash : Vector UInt8 32) : Except TransferError FileOffer :=
  if chunkSize = 0 then .error (.invalidField "chunk_size")
  else if maxFileNameLen < fileName.utf8ByteSize then .error (.invalidField "file_name")
  else .ok
    { transferId, fileName, fileSize, chunkSize
      totalChunks := computeTotalChunks fileSize chunkSize
      fileHash }

/-- An offer is accepted, with the chunks that are missing. -/
structure FileAccept where
  transferId : TransferId
  resume : Bool
  missingBitmap : List UInt8
  deriving DecidableEq

/-- An acceptance resumes a transfer if it has a bitmap. -/
def FileAccept.new (transferId : TransferId) (missingBitmap : List UInt8) : FileAccept where
  transferId := transferId
  resume := !missingBitmap.isEmpty
  missingBitmap := missingBitmap

/-- Why an offer is rejected. -/
inductive FileRejectReason
  | declined
  | busy
  | notFound
  | protocol
  | internal
  deriving DecidableEq

/-- An offer is rejected. -/
structure FileReject where
  transferId : TransferId
  reason : FileRejectReason
  deriving DecidableEq

/-- A piece of a file. -/
structure FileChunk where
  transferId : TransferId
  chunkIndex : UInt32
  chunkHash : Vector UInt8 32
  data : List UInt8
  deriving DecidableEq

/-- What became of a chunk. -/
inductive ChunkAckStatus
  | ok
  | badHash
  | cancelled
  deriving DecidableEq

/-- A chunk is acknowledged. -/
structure FileChunkAck where
  transferId : TransferId
  chunkIndex : UInt32
  status : ChunkAckStatus
  deriving DecidableEq

/-- A file is complete. -/
structure FileComplete where
  transferId : TransferId
  fileHash : Vector UInt8 32
  deriving DecidableEq

/-- Why a transfer is cancelled. -/
inductive FileCancelReason
  | user
  | error
  | timeout
  deriving DecidableEq

/-- A transfer is cancelled. -/
structure FileCancel where
  transferId : TransferId
  reason : FileCancelReason
  deriving DecidableEq

/-- The payload of a transfer frame; a credit update carries an id and a count. -/
inductive Payload
  | fileOffer (offer : FileOffer)
  | fileAccept (accept : FileAccept)
  | creditUpdate (transferId : TransferId) (credits : UInt32)
  | fileChunk (chunk : FileChunk)
  | fileChunkAck (ack : FileChunkAck)
  | fileComplete (complete : FileComplete)
  deriving DecidableEq

/-! ## Bitmap of missing chunks -/

/-- The bytes that a bitmap needs. -/
def bitmapLen (chunkCount : UInt32) : Nat := (chunkCount.toNat + 7) / 8

/-- The bit of a chunk. Bits behind the end are not set. -/
def bitmapIsMissing (bitmap : List UInt8) (chunkIndex : UInt32) : Bool :=
  match bitmap[chunkIndex.toNat / 8]? with
  | none => false
  | some byte => (byte &&& ((1 : UInt8) <<< (chunkIndex % 8).toUInt8)) != 0

/-- Set or clear the bit of a chunk. A bitmap that is too short is left as it is. -/
def bitmapSetMissing (bitmap : List UInt8) (chunkIndex : UInt32) (missing : Bool) : List UInt8 :=
  match bitmap[chunkIndex.toNat / 8]? with
  | none => bitmap
  | some byte =>
    let mask := (1 : UInt8) <<< (chunkIndex % 8).toUInt8
    bitmap.set (chunkIndex.toNat / 8) (if missing then byte ||| mask else byte &&& ~~~mask)

/-- The bitmap made for an offer: every chunk is missing. -/
def allMissing (chunkCount : UInt32) : List UInt8 := List.replicate (bitmapLen chunkCount) 0xff

/-- In a full bitmap, every chunk is missing. -/
theorem bitmapIsMissing_allMissing {chunkCount index : UInt32} (h : index < chunkCount) :
    bitmapIsMissing (allMissing chunkCount) index = true := by
  have hlt : index.toNat / 8 < bitmapLen chunkCount := by
    have := UInt32.lt_iff_toNat_lt.mp h
    unfold bitmapLen
    omega
  have hmask : ∀ b : Fin 8, ((0xff : UInt8) &&& ((1 : UInt8) <<< UInt8.ofNat b.val)) ≠ 0 := by
    decide
  have hbit : (index % 8).toUInt8 = UInt8.ofNat (index.toNat % 8) := by
    apply UInt8.toNat_inj.mp
    simp
  rw [bitmapIsMissing, allMissing, List.getElem?_replicate_of_lt hlt]
  simpa [hbit] using hmask ⟨index.toNat % 8, Nat.mod_lt _ (by decide)⟩

/-- The mask of a chunk has one bit. -/
theorem toBitVec_mask (index : UInt32) :
    ((1 : UInt8) <<< (index % 8).toUInt8).toBitVec = BitVec.twoPow 8 (index.toNat % 8) := by
  apply BitVec.eq_of_toNat_eq
  simp [UInt8.toBitVec_shiftLeft, BitVec.toNat_twoPow, Nat.shiftLeft_eq]

/-- The bit of an index: bit `index % 8` of byte `index / 8`. -/
theorem bitmapIsMissing_eq (bitmap : List UInt8) (index : UInt32) :
    bitmapIsMissing bitmap index = (bitmap[index.toNat / 8]?).any
      fun byte => byte.toBitVec.getLsbD (index.toNat % 8) := by
  rw [bitmapIsMissing]
  cases hbyte : bitmap[index.toNat / 8]? with
  | none => rfl
  | some byte =>
    have hne : BitVec.twoPow 8 (index.toNat % 8) ≠ 0#8 := by
      intro hzero
      have hbit := congrArg (·.getLsbD (index.toNat % 8)) hzero
      have hlt : index.toNat % 8 < 8 := Nat.mod_lt _ (by decide)
      simp [hlt] at hbit
    rw [Option.any_some, Bool.eq_iff_iff, bne_iff_ne, Ne, ← UInt8.toBitVec_inj,
      UInt8.toBitVec_and, toBitVec_mask, BitVec.and_twoPow]
    cases byte.toBitVec.getLsbD (index.toNat % 8) with
    | false => simp
    | true => simpa using hne

/-- Marking a chunk leaves the bits of all others. -/
theorem bitmapIsMissing_set_of_ne (bitmap : List UInt8) {index other : UInt32}
    (hne : other ≠ index) (missing : Bool) :
    bitmapIsMissing (bitmapSetMissing bitmap index missing) other =
      bitmapIsMissing bitmap other := by
  rw [bitmapIsMissing_eq, bitmapIsMissing_eq, bitmapSetMissing]
  cases hbyte : bitmap[index.toNat / 8]? with
  | none => rfl
  | some byte =>
    have hlt := (List.getElem?_eq_some_iff.mp hbyte).1
    by_cases hdiv : index.toNat / 8 = other.toNat / 8
    · have hbit : index.toNat % 8 ≠ other.toNat % 8 := by
        rw [Ne, ← UInt32.toNat_inj] at hne
        omega
      rw [← hdiv, hbyte, List.getElem?_set_self hlt]
      have hmod : other.toNat % 8 < 8 := Nat.mod_lt _ (by decide)
      cases missing with
      | true =>
        rw [if_pos rfl, Option.any_some, Option.any_some, UInt8.toBitVec_or, toBitVec_mask,
          BitVec.getLsbD_or, BitVec.getLsbD_twoPow]
        simp [hbit]
      | false =>
        rw [if_neg Bool.false_ne_true, Option.any_some, Option.any_some, UInt8.toBitVec_and,
          UInt8.toBitVec_not, toBitVec_mask, BitVec.getLsbD_and, BitVec.getLsbD_not,
          BitVec.getLsbD_twoPow]
        simp [hbit, hmod]
    · rw [List.getElem?_set_ne hdiv]

/-- A chunk whose bit lies in the bitmap is as it was marked. -/
theorem bitmapIsMissing_set_self {bitmap : List UInt8} {index : UInt32}
    (hindex : index.toNat / 8 < bitmap.length) (missing : Bool) :
    bitmapIsMissing (bitmapSetMissing bitmap index missing) index = missing := by
  have hmod : index.toNat % 8 < 8 := Nat.mod_lt _ (by decide)
  rw [bitmapIsMissing_eq, bitmapSetMissing, List.getElem?_eq_getElem hindex]
  cases missing with
  | true => simp [List.getElem?_set_self hindex, hmod]
  | false => simp [List.getElem?_set_self hindex, hmod]

/-- A bitmap for some chunks has a bit for each of them. -/
theorem div_lt_length_of_lt {chunkCount index : UInt32} {bitmap : List UInt8}
    (hlength : bitmapLen chunkCount ≤ bitmap.length) (hindex : index < chunkCount) :
    index.toNat / 8 < bitmap.length := by
  have hlt : index.toNat < chunkCount.toNat := UInt32.lt_iff_toNat_lt.mp hindex
  rw [bitmapLen] at hlength
  omega

/-- Marking a chunk as received clears its bit and no other. -/
theorem bitmapIsMissing_set_false (bitmap : List UInt8) (index other : UInt32) :
    bitmapIsMissing (bitmapSetMissing bitmap index false) other =
      (bitmapIsMissing bitmap other && decide (other ≠ index)) := by
  by_cases heq : other = index
  · subst heq
    by_cases hlt : other.toNat / 8 < bitmap.length
    · simp [bitmapIsMissing_set_self hlt]
    · have hnone : bitmap[other.toNat / 8]? = none := List.getElem?_eq_none (Nat.not_lt.mp hlt)
      simp [bitmapSetMissing, bitmapIsMissing, hnone]
  · simp [bitmapIsMissing_set_of_ne bitmap heq, heq]

end CekyP2P.Protocol
