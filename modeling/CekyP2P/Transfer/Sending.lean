import CekyP2P.Transfer.Guards
import CekyP2P.Transfer.Receiving

/-!
# The sending side of one transfer

A sender whose peer reports nothing but missing chunks and good hashes is described by
two numbers: its credits and its cursor. The frames it has emitted are the offer and
the chunks below the cursor, in order.
-/

namespace CekyP2P.Transfer

open Protocol TransferManager

/-- The frames with which a receiver answers. -/
inductive Answer (id : TransferId) : Payload → Prop
  | accept (accept : FileAccept) (h : accept.transferId = id) : Answer id (.fileAccept accept)
  | credit (credits : UInt32) : Answer id (.creditUpdate id credits)
  | ack (ack : FileChunkAck) (h : ack.transferId = id) : Answer id (.fileChunkAck ack)
  | complete (complete : FileComplete) : Answer id (.fileComplete complete)

/-- A file and the two nodes between which it is sent. -/
structure Exchange where
  file : List UInt8
  fileName : String
  chunkSize : UInt32
  id : TransferId
  senderAddr : SocketAddr
  receiverAddr : SocketAddr
  senderDir : PathBuf
  receiverDir : PathBuf
  size_lt : file.length < 2 ^ 64
  chunkSize_ne_zero : chunkSize ≠ 0
  name_le : fileName.utf8ByteSize ≤ maxFileNameLen

namespace Exchange

variable (E : Exchange) (sha256 : List UInt8 → Vector UInt8 32)

/-- The size of the file. -/
def fileSize : UInt64 := UInt64.ofNat E.file.length

/-- The count that both sides use. -/
def totalChunks : UInt32 := computeTotalChunks E.fileSize E.chunkSize

/-- Where the receiver keeps the file. -/
def path : PathBuf := E.receiverDir.join E.fileName

/-- The offer of the file. -/
def offer : FileOffer where
  transferId := E.id
  fileName := E.fileName
  fileSize := E.fileSize
  chunkSize := E.chunkSize
  totalChunks := E.totalChunks
  fileHash := calculateFileHash sha256 E.file E.chunkSize

/-- The chunk that the pump cuts at a cursor. -/
def chunk (i : UInt32) : FileChunk :=
  let data := (E.file.take (chunkEnd E.file.length i E.chunkSize)).drop (chunkStart i E.chunkSize)
  ⟨E.id, i, hashChunk sha256 data, data⟩

/-- The frame of a chunk. -/
def chunkFrame (i : Nat) : Payload := .fileChunk (E.chunk sha256 (UInt32.ofNat i))

/-- The state of the sender with some credits, at some chunk. -/
def sendingState (credits cursor : UInt32) : SendingState :=
  { offered E.receiverAddr E.file E.chunkSize with credits := credits, currentChunkIdx := cursor }

/-- The sender with given credits and cursor. -/
def sender (credits cursor : UInt32) : TransferManager :=
  ((TransferManager.new E.senderDir).withEntry E.id
    (.sending (E.sendingState credits cursor))).withSent E.receiverAddr
      (.fileOffer (E.offer sha256) :: (List.range cursor.toNat).map (E.chunkFrame sha256))

/-- The size fits into 64 bits. -/
theorem toNat_fileSize : E.fileSize.toNat = E.file.length := by
  rw [fileSize, UInt64.toNat_ofNat', Nat.mod_eq_of_lt E.size_lt]

/-- The offer can be made. -/
theorem offer_new : FileOffer.new E.id E.fileName E.fileSize E.chunkSize
    (calculateFileHash sha256 E.file E.chunkSize) = .ok (E.offer sha256) := by
  rw [FileOffer.new, if_neg E.chunkSize_ne_zero, if_neg (Nat.not_lt.mpr E.name_le)]
  rfl

/-- `offer_file` starts without credits, at the first chunk. -/
theorem offerFile_eq : offerFile sha256 .plain E.receiverAddr E.fileName (some E.file) E.id
    E.chunkSize (.new E.senderDir) = .ok E.id (E.sender sha256 0 0) :=
  offerFile_of_ok sha256 E.receiverAddr E.fileName E.chunkSize Guards.not_plain_blocks
    (E.offer_new sha256)

/-- The transfer of the sender. -/
theorem sender_entry (credits cursor : UInt32) : (E.sender sha256 credits cursor).activeTransfers
    E.id = some (.sending (E.sendingState credits cursor)) := by
  simp [sender]

/-- The sender is given credits. -/
theorem sender_withEntry (credits credits' cursor : UInt32) :
    (E.sender sha256 credits cursor).withEntry E.id (.sending (E.sendingState credits' cursor)) =
      E.sender sha256 credits' cursor := by
  simp [sender, withEntry, withSent]

/-- The sender sends the next chunks. -/
theorem sender_withSent (credits credits' : UInt32) {cursor cursor' : UInt32} {n : Nat}
    (hcursor : cursor'.toNat = cursor.toNat + n) :
    ((E.sender sha256 credits cursor).withEntry E.id
        (.sending (E.sendingState credits' cursor'))).withSent E.receiverAddr
          ((List.range' cursor.toNat n).map (E.chunkFrame sha256)) =
      E.sender sha256 credits' cursor' := by
  have hrange : List.range cursor'.toNat =
      List.range cursor.toNat ++ List.range' cursor.toNat n := by
    have happend : List.range' 0 cursor.toNat ++ List.range' (0 + cursor.toNat) n =
        List.range' 0 (cursor.toNat + n) := List.range'_append_1
    rw [Nat.zero_add] at happend
    rw [hcursor, List.range_eq_range', List.range_eq_range', happend]
  simp [sender, withEntry, withSent, hrange]

/-- Position `i + 1` of the sender's frames holds chunk `i`, and position 0 the offer. -/
theorem sender_outbox_cases {credits cursor : UInt32} {p : Nat} {addr : SocketAddr}
    {frame : Payload} (h : (E.sender sha256 credits cursor).outbox[p]? = some (addr, frame)) :
    p = 0 ∧ frame = .fileOffer (E.offer sha256) ∨
      ∃ i < cursor.toNat, p = i + 1 ∧ frame = E.chunkFrame sha256 i := by
  cases p with
  | zero =>
    simp only [sender, withSent_outbox, withEntry_outbox, TransferManager.new, List.nil_append,
      List.map_cons, List.getElem?_cons_zero, Option.some.injEq, Prod.mk.injEq] at h
    exact Or.inl ⟨rfl, h.2.symm⟩
  | succ i =>
    simp only [sender, withSent_outbox, withEntry_outbox, TransferManager.new, List.nil_append,
      List.map_cons, List.map_map, List.getElem?_cons_succ, List.getElem?_map,
      Option.map_eq_some_iff, Function.comp_apply, Prod.mk.injEq] at h
    obtain ⟨j, hj, -, rfl⟩ := h
    obtain ⟨hlt, rfl⟩ := List.getElem?_eq_some_iff.mp hj
    rw [List.getElem_range]
    exact Or.inr ⟨i, by simpa using hlt, rfl, rfl⟩

/-- The offer is sent first. -/
theorem sender_outbox_zero (credits cursor : UInt32) :
    (E.sender sha256 credits cursor).outbox[0]? =
      some (E.receiverAddr, .fileOffer (E.offer sha256)) := rfl

/-- The chunks follow in order. -/
theorem sender_outbox_succ (credits : UInt32) {cursor : UInt32} {i : Nat} (hi : i < cursor.toNat) :
    (E.sender sha256 credits cursor).outbox[i + 1]? =
      some (E.receiverAddr, E.chunkFrame sha256 i) := by
  simp [sender, TransferManager.new, List.getElem?_range hi]

/-! ## The pump -/

/-- The state of the sender fits. -/
theorem fits_sendingState (credits cursor : UInt32) : (E.sendingState credits cursor).Fits := by
  intro i hi
  have hlt : chunkStart i E.chunkSize < E.fileSize.toNat := chunkStart_lt hi
  rw [E.toNat_fileSize] at hlt
  exact hlt.le

/-- Nothing was reported as received. -/
theorem missing_sendingState (credits cursor : UInt32) :
    (E.sendingState credits cursor).missing = (E.sendingState credits cursor).remaining :=
  List.filter_eq_self.mpr fun _ hi =>
    bitmapIsMissing_allMissing (SendingState.mem_remaining.mp hi).2

/-- The pump sends one chunk for each credit, until the chunks are used up. -/
theorem pumpSend_sender (credits cursor : UInt32) {n : Nat}
    (hn : n = min credits.toNat (E.totalChunks.toNat - cursor.toNat)) :
    ∃ credits' cursor' : UInt32, credits'.toNat = credits.toNat - n ∧
      cursor'.toNat = cursor.toNat + n ∧
      pumpSend sha256 .plain E.id (E.sender sha256 credits cursor) =
        .ok () (E.sender sha256 credits' cursor') := by
  have hall := E.missing_sendingState credits cursor
  have hlength : (E.sendingState credits cursor).pumped.length = n :=
    (SendingState.length_pumped_of_all_missing hall).trans hn.symm
  have hspent : (credits - UInt32.ofNat n).toNat = credits.toNat - n := by
    have hbound := credits.toNat_lt
    have hcount : (UInt32.ofNat n).toNat = n := by
      rw [UInt32.toNat_ofNat', Nat.mod_eq_of_lt (by omega)]
    rw [UInt32.toNat_sub_of_le _ _ (UInt32.le_iff_toNat_le.mpr (by omega)), hcount]
  have hmoved : (E.sendingState credits cursor).stopIdx.toNat = cursor.toNat + n := by
    rw [SendingState.toNat_stopIdx_of_all_missing hall, hlength]
    rfl
  have hsent : (E.sendingState credits cursor).pumped.map
      ((E.sendingState credits cursor).chunkFrame sha256 E.id) =
        (List.range' cursor.toNat n).map (E.chunkFrame sha256) := by
    rw [SendingState.pumped_of_all_missing hall, List.map_map, hn]
    rfl
  refine ⟨_, _, hspent, hmoved, ?_⟩
  have hafter : (E.sendingState credits cursor).afterPump =
      E.sendingState (credits - UInt32.ofNat n) (E.sendingState credits cursor).stopIdx := by
    rw [SendingState.afterPump, hlength]
    rfl
  have hloop := pumpLoop_eq sha256 E.id (E.fits_sendingState credits cursor) (Nat.le_refl _)
  rw [hafter, hsent] at hloop
  rw [pumpSend_of_sending Guards.not_plain_blocks (E.sender_entry sha256 credits cursor) hloop]
  exact congrArg _ (E.sender_withSent sha256 credits _ hmoved)

/-! ## Replies -/

/-- A frame that reports nothing but missing chunks and good hashes. -/
def Good : Payload → Prop
  | .fileAccept accept => accept.missingBitmap = allMissing E.totalChunks
  | .fileChunkAck ack => ack.status = .ok
  | _ => True

/-- The frames with which a receiver of intact pieces answers. -/
def Reply (frame : Payload) : Prop := Answer E.id frame ∧ E.Good frame

variable {E} in
/-- A sender that is told that all chunks are missing is as it was. -/
theorem handleAccept_sender {accept : FileAccept} (hid : accept.transferId = E.id)
    (hgood : E.Good (.fileAccept accept)) (credits cursor : UInt32) :
    handleAccept .plain accept (E.sender sha256 credits cursor) =
      .ok () (E.sender sha256 credits cursor) := by
  obtain ⟨id, resume, bitmap⟩ := accept
  cases hid
  cases hgood
  rw [handleAccept_of_sending Guards.not_plain_blocks (E.sender_entry sha256 credits cursor)]
  exact congrArg _ (E.sender_withEntry sha256 credits credits cursor)

/-- Credits are added before the pump runs. -/
theorem handleCreditUpdate_sender (credits cursor granted : UInt32) :
    handleCreditUpdate sha256 .plain E.id granted (E.sender sha256 credits cursor) =
      pumpSend sha256 .plain E.id (E.sender sha256 (credits + granted) cursor) := by
  rw [handleCreditUpdate_of_sending Guards.not_plain_blocks
    (E.sender_entry sha256 credits cursor)]
  exact congrArg _ (E.sender_withEntry sha256 credits (credits + granted) cursor)

variable {E} in
/-- A good hash changes nothing before the pump runs. -/
theorem handleChunkAck_sender {ack : FileChunkAck} (hid : ack.transferId = E.id)
    (hgood : E.Good (.fileChunkAck ack)) (credits cursor : UInt32) :
    handleChunkAck sha256 .plain ack (E.sender sha256 credits cursor) =
      pumpSend sha256 .plain E.id (E.sender sha256 credits cursor) := by
  obtain ⟨id, i, status⟩ := ack
  cases hid
  cases hgood
  rw [handleChunkAck_of_sending Guards.not_plain_blocks (E.sender_entry sha256 credits cursor)]
  exact congrArg _ (E.sender_withEntry sha256 credits credits cursor)

end Exchange

end CekyP2P.Transfer
