import CekyP2P.Transfer.Manager

/-!
# What each handler does

One lemma for each handler and each kind of entry it finds, for any guards that
do not already hold the entry. Callers never unfold a handler again.
-/

namespace CekyP2P.Transfer

open Protocol

/-- Plain references to the entries never block. -/
theorem Guards.not_plain_blocks {id : TransferId} : ¬Guards.plain.Blocks id := fun h => h

namespace TransferManager

variable {sha256 : List UInt8 → Vector UInt8 32} {α : Type} {g : Guards} {id : TransferId}
  {m : TransferManager}

/-! ## Pure counterparts of the writes -/

/-- The manager with an entry written. -/
def withEntry (m : TransferManager) (id : TransferId) (transfer : TransferState) :
    TransferManager :=
  { m with activeTransfers := Function.update m.activeTransfers id (some transfer) }

/-- The manager with an entry removed. -/
def without (m : TransferManager) (id : TransferId) : TransferManager :=
  { m with activeTransfers := Function.update m.activeTransfers id none }

/-- The manager with frames handed to the channel. -/
def withSent (m : TransferManager) (peer : SocketAddr) (frames : List Payload) :
    TransferManager :=
  { m with outbox := m.outbox ++ frames.map (peer, ·) }

section

variable (m : TransferManager) (id : TransferId) (transfer : TransferState) (peer : SocketAddr)
  (frames : List Payload)

@[simp] theorem withEntry_activeTransfers : (m.withEntry id transfer).activeTransfers =
    Function.update m.activeTransfers id (some transfer) := rfl
@[simp] theorem withEntry_outbox : (m.withEntry id transfer).outbox = m.outbox := rfl
@[simp] theorem without_activeTransfers : (m.without id).activeTransfers =
    Function.update m.activeTransfers id none := rfl
@[simp] theorem withSent_activeTransfers :
    (m.withSent peer frames).activeTransfers = m.activeTransfers := rfl
@[simp] theorem withSent_outbox :
    (m.withSent peer frames).outbox = m.outbox ++ frames.map (peer, ·) := rfl

/-- No frames leave the outbox as it is. -/
theorem withSent_nil : m.withSent peer [] = m := by
  rw [withSent, List.map_nil, List.append_nil]

/-- The last entry counts. -/
theorem withEntry_withEntry (transfer' : TransferState) :
    (m.withEntry id transfer).withEntry id transfer' = m.withEntry id transfer' := by
  rw [withEntry, withEntry, withEntry, Function.update_idem]

@[simp] theorem setEntry_apply : setEntry id transfer m = .ok () (m.withEntry id transfer) := rfl

@[simp] theorem send_apply : send peer frames m = .ok () (m.withSent peer frames) := rfl

end

/-- An insertion that no lock delays. -/
theorem insert_of_not_blocks (hg : ¬g.Blocks id) (transfer : TransferState) :
    insert g id transfer m = .ok () (m.withEntry id transfer) := by
  rw [insert, if_neg hg, setEntry_apply]

/-- A removal that no lock delays. -/
theorem remove_of_not_blocks (hg : ¬g.Blocks id) : remove g id m = .ok () (m.without id) := by
  rw [remove, if_neg hg]
  rfl

section

variable {found : Guards → TransferState → ManagerM α} {missing : ManagerM α}

/-- An entry is worked on with its lock held. -/
theorem getMut_of_some (hg : ¬g.Blocks id) {transfer : TransferState}
    (h : m.activeTransfers id = some transfer) :
    getMut g id found missing m = found (g.take id) transfer m := by
  simp [getMut, hg, h]

/-- Nothing is held where there is no entry. -/
theorem getMut_of_none (hg : ¬g.Blocks id) (h : m.activeTransfers id = none) :
    getMut g id found missing m = missing m := by
  simp [getMut, hg, h]

/-- A lock that is held is waited for. -/
theorem getMut_of_blocks (hg : g.Blocks id) :
    getMut g id found missing m = .error .blocked m := by
  simp [getMut, hg]

end

/-- An entry that is being sent. -/
def IsSending (m : TransferManager) (id : TransferId) : Prop :=
  ∃ s, m.activeTransfers id = some (.sending s)

/-! ## Sending side -/

/-- The state in which `offer_file` starts a transfer. -/
def offered (peer : SocketAddr) (file : List UInt8) (chunkSize : UInt32) : SendingState where
  peer := peer
  fileMap := file
  bitfield := allMissing (computeTotalChunks (UInt64.ofNat file.length) chunkSize)
  credits := 0
  chunkSize := chunkSize
  totalChunks := computeTotalChunks (UInt64.ofNat file.length) chunkSize
  currentChunkIdx := 0

section

variable (sha256) (peer : SocketAddr) (fileName : String) (chunkSize : UInt32)

/-- A file that cannot be opened is not offered. -/
theorem offerFile_of_none : offerFile sha256 g peer fileName none id chunkSize m =
    .error (.error .io) m := by
  simp [offerFile]

/-- A file whose offer cannot be made is not offered. -/
theorem offerFile_of_error {file : List UInt8} {e : Protocol.TransferError}
    (hoffer : FileOffer.new id fileName (UInt64.ofNat file.length) chunkSize
      (calculateFileHash sha256 file chunkSize) = .error e) :
    offerFile sha256 g peer fileName (some file) id chunkSize m =
      .error (.error .invalidState) m := by
  simp [offerFile, hoffer]

/-- An offer is stored and sent. -/
theorem offerFile_of_ok (hg : ¬g.Blocks id) {file : List UInt8} {offer : FileOffer}
    (hoffer : FileOffer.new id fileName (UInt64.ofNat file.length) chunkSize
      (calculateFileHash sha256 file chunkSize) = .ok offer) :
    offerFile sha256 g peer fileName (some file) id chunkSize m =
      .ok id ((m.withEntry id (.sending (offered peer file chunkSize))).withSent peer
        [.fileOffer offer]) := by
  simp [offerFile, hoffer, insert_of_not_blocks hg, offered]

/-- A call either fails, and changes nothing, or starts to send the file. -/
theorem offerFile_cases (hg : ¬g.Blocks id) (m : TransferManager) (file : Option (List UInt8)) :
    Exec.stateAfter (offerFile sha256 g peer fileName file id chunkSize m) = m ∨
      ∃ content offer, file = some content ∧
        Exec.stateAfter (offerFile sha256 g peer fileName file id chunkSize m) =
          (m.withEntry id (.sending (offered peer content chunkSize))).withSent peer
            [.fileOffer offer] := by
  cases file with
  | none =>
    rw [offerFile_of_none]
    exact Or.inl rfl
  | some content =>
    cases hoffer : FileOffer.new id fileName (UInt64.ofNat content.length) chunkSize
        (calculateFileHash sha256 content chunkSize) with
    | error e =>
      rw [offerFile_of_error sha256 peer fileName chunkSize hoffer]
      exact Or.inl rfl
    | ok offer =>
      rw [offerFile_of_ok sha256 peer fileName chunkSize hg hoffer]
      exact Or.inr ⟨content, offer, rfl, rfl⟩

end

/-- Pumping sends what the loop yields. -/
theorem pumpSend_of_sending (hg : ¬g.Blocks id) {s s' : SendingState} {sent : List Payload}
    (h : m.activeTransfers id = some (.sending s))
    (hpump : pumpLoop sha256 id (s.totalChunks.toNat - s.currentChunkIdx.toNat) s =
      some (s', sent)) :
    pumpSend sha256 g id m = .ok () ((m.withEntry id (.sending s')).withSent s.peer sent) := by
  simp [pumpSend, getMut_of_some hg h, hpump]

/-- Pumping does nothing where nothing is sent. -/
theorem pumpSend_of_not_sending (hg : ¬g.Blocks id) (h : ¬m.IsSending id) :
    pumpSend sha256 g id m = .ok () m := by
  cases hentry : m.activeTransfers id with
  | none => exact getMut_of_none hg hentry
  | some transfer =>
    cases transfer with
    | sending s => exact absurd ⟨s, hentry⟩ h
    | receiving s => exact getMut_of_some hg hentry

/-- An acceptance replaces the bitmap. -/
theorem handleAccept_of_sending {accept : FileAccept} (hg : ¬g.Blocks accept.transferId)
    {s : SendingState} (h : m.activeTransfers accept.transferId = some (.sending s)) :
    handleAccept g accept m = .ok () (m.withEntry accept.transferId
      (.sending { s with bitfield := accept.missingBitmap })) := by
  exact getMut_of_some hg h

/-- An acceptance of something that was not offered is an error. -/
theorem handleAccept_of_not_sending {accept : FileAccept} (hg : ¬g.Blocks accept.transferId)
    (h : ¬m.IsSending accept.transferId) :
    handleAccept g accept m = .error (.error .notFound) m := by
  cases hentry : m.activeTransfers accept.transferId with
  | none => exact getMut_of_none hg hentry
  | some transfer =>
    cases transfer with
    | sending s => exact absurd ⟨s, hentry⟩ h
    | receiving s => exact getMut_of_some hg hentry

/-- Credits are added before the pump runs, and the guard is released in between. -/
theorem handleCreditUpdate_of_sending (hg : ¬g.Blocks id) {s : SendingState}
    (h : m.activeTransfers id = some (.sending s)) (credits : UInt32) :
    handleCreditUpdate sha256 g id credits m = pumpSend sha256 g id
      (m.withEntry id (.sending { s with credits := s.credits + credits })) := by
  rw [handleCreditUpdate, Exec.bind_apply, getMut_of_some hg h]
  rfl

/-- Credits for something that is not sent are ignored. -/
theorem handleCreditUpdate_of_not_sending (hg : ¬g.Blocks id) (h : ¬m.IsSending id)
    (credits : UInt32) : handleCreditUpdate sha256 g id credits m = .ok () m := by
  have hpump : pumpSend sha256 g id m = .ok () m := pumpSend_of_not_sending hg h
  cases hentry : m.activeTransfers id with
  | none =>
    rw [handleCreditUpdate, Exec.bind_apply, getMut_of_none hg hentry]
    exact hpump
  | some transfer =>
    cases transfer with
    | sending s => exact absurd ⟨s, hentry⟩ h
    | receiving s =>
      rw [handleCreditUpdate, Exec.bind_apply, getMut_of_some hg hentry]
      exact hpump

/-- The pump runs under the guard that the acknowledgement holds. -/
theorem handleChunkAck_of_sending {ack : FileChunkAck} (hg : ¬g.Blocks ack.transferId)
    {s : SendingState} (h : m.activeTransfers ack.transferId = some (.sending s)) :
    handleChunkAck sha256 g ack m = pumpSend sha256 (g.take ack.transferId) ack.transferId
      (m.withEntry ack.transferId (.sending (acknowledged s ack))) := by
  exact getMut_of_some hg h

/-- An acknowledgement for something that is not sent is ignored. -/
theorem handleChunkAck_of_not_sending {ack : FileChunkAck} (hg : ¬g.Blocks ack.transferId)
    (h : ¬m.IsSending ack.transferId) : handleChunkAck sha256 g ack m = .ok () m := by
  cases hentry : m.activeTransfers ack.transferId with
  | none => exact getMut_of_none hg hentry
  | some transfer =>
    cases transfer with
    | sending s => exact absurd ⟨s, hentry⟩ h
    | receiving s => exact getMut_of_some hg hentry

/-! ## Receiving side -/

/-- A file has the length it is given. -/
theorem length_setLen (content : List UInt8) (len : Nat) : (setLen content len).length = len := by
  simp only [setLen, List.length_append, List.length_take, List.length_replicate]
  omega

/-- The state in which `handle_offer` starts a transfer. -/
def received (m : TransferManager) (peer : SocketAddr) (offer : FileOffer)
    (content : List UInt8) : ReceivingState where
  peer := peer
  fileMap := setLen content offer.fileSize.toNat
  expectedRoot := offer.fileHash
  bitfield := allMissing offer.totalChunks
  chunkSize := offer.chunkSize
  totalChunks := offer.totalChunks
  receivedChunks := 0
  filePath := m.downloadDir.join offer.fileName

/-- An offer is stored, accepted and given credits. -/
theorem handleOffer_of_some {offer : FileOffer} (hg : ¬g.Blocks offer.transferId)
    (peer : SocketAddr) (content : List UInt8) :
    handleOffer g peer offer (some content) m = .ok ()
      ((m.withEntry offer.transferId (.receiving (m.received peer offer content))).withSent peer
        [.fileAccept (.new offer.transferId (allMissing offer.totalChunks)),
          .creditUpdate offer.transferId 50]) := by
  simp [handleOffer, insert_of_not_blocks hg, received]

/-- An offer whose file cannot be opened is an error. -/
theorem handleOffer_of_none (peer : SocketAddr) (offer : FileOffer) :
    handleOffer g peer offer none m = .error (.error .io) m := by
  simp [handleOffer]

section

variable {chunk : FileChunk}

/-- A chunk of an unknown transfer is an error. -/
theorem handleChunk_of_none (hg : ¬g.Blocks chunk.transferId)
    (h : m.activeTransfers chunk.transferId = none) :
    handleChunk sha256 g chunk m = .error (.error .notFound) m := by
  simp [handleChunk, getMut_of_none hg h]

/-- A chunk of a file that is being sent is ignored. -/
theorem handleChunk_of_sending (hg : ¬g.Blocks chunk.transferId) {s : SendingState}
    (h : m.activeTransfers chunk.transferId = some (.sending s)) :
    handleChunk sha256 g chunk m = .ok () m := by
  simp [handleChunk, getMut_of_some hg h]

variable {s : ReceivingState}

/-- A chunk with a wrong hash is refused and stored nowhere. -/
theorem handleChunk_of_bad_hash (hg : ¬g.Blocks chunk.transferId)
    (h : m.activeTransfers chunk.transferId = some (.receiving s))
    (hhash : hashChunk sha256 chunk.data ≠ chunk.chunkHash) :
    handleChunk sha256 g chunk m = .error (.error .badHash)
      (m.withSent s.peer [.fileChunkAck ⟨chunk.transferId, chunk.chunkIndex, .badHash⟩]) := by
  simp [handleChunk, getMut_of_some hg h, hhash]

/-- A chunk that does not fit into the map is dropped without an answer. -/
theorem handleChunk_of_out_of_range (hg : ¬g.Blocks chunk.transferId)
    (h : m.activeTransfers chunk.transferId = some (.receiving s))
    (hhash : hashChunk sha256 chunk.data = chunk.chunkHash)
    (hrange : ¬chunkStart chunk.chunkIndex s.chunkSize + chunk.data.length ≤ s.fileMap.length) :
    handleChunk sha256 g chunk m = .ok () m := by
  simp [handleChunk, getMut_of_some hg h, hhash, hrange]

/-- The manager after a chunk was written and answered. -/
def stored (m : TransferManager) (chunk : FileChunk) (s : ReceivingState) : TransferManager :=
  (m.withEntry chunk.transferId (.receiving (written s chunk))).withSent s.peer
    [.fileChunkAck ⟨chunk.transferId, chunk.chunkIndex, .ok⟩,
      .creditUpdate chunk.transferId 1]

/-- A chunk that lies in the file is stored and acknowledged. -/
theorem handleChunk_of_stored (hg : ¬g.Blocks chunk.transferId)
    (h : m.activeTransfers chunk.transferId = some (.receiving s))
    (hhash : hashChunk sha256 chunk.data = chunk.chunkHash)
    (hrange : chunkStart chunk.chunkIndex s.chunkSize + chunk.data.length ≤ s.fileMap.length)
    (hopen : s.receivedChunks + 1 ≠ s.totalChunks) :
    handleChunk sha256 g chunk m = .ok () (m.stored chunk s) := by
  simp [handleChunk, getMut_of_some hg h, hhash, hrange, written, hopen, stored]

/-- A file that is received is flushed. -/
theorem syncMap_of_receiving (hg : ¬g.Blocks id)
    (h : m.activeTransfers id = some (.receiving s)) :
    syncMap g id m = .ok () { m with flushed := m.flushed ++ [(s.filePath, s.fileMap)] } := by
  exact getMut_of_some hg h

/-- The chunk that brings the counter to the total completes the transfer: the map is
flushed, the entry removed and the peer told. -/
theorem handleChunk_of_completed (hg : ¬g.Blocks chunk.transferId)
    (h : m.activeTransfers chunk.transferId = some (.receiving s))
    (hhash : hashChunk sha256 chunk.data = chunk.chunkHash)
    (hrange : chunkStart chunk.chunkIndex s.chunkSize + chunk.data.length ≤ s.fileMap.length)
    (hlast : s.receivedChunks + 1 = s.totalChunks) :
    handleChunk sha256 g chunk m = .ok () ((({ m.stored chunk s with
        flushed := m.flushed ++ [(s.filePath, (written s chunk).fileMap)] }).without
      chunk.transferId).withSent s.peer
        [.fileComplete ⟨chunk.transferId, Vector.replicate 32 0⟩]) := by
  have hentry : ((m.withEntry chunk.transferId (.receiving (written s chunk))).withSent s.peer
      [.fileChunkAck ⟨chunk.transferId, chunk.chunkIndex, .ok⟩,
        .creditUpdate chunk.transferId 1]).activeTransfers chunk.transferId =
      some (.receiving (written s chunk)) := by
    simp
  have hfirst : (written s chunk).receivedChunks = s.totalChunks := hlast
  simp only [handleChunk, Exec.bind_apply, getMut_of_some hg h, hhash, ne_eq, not_true_eq_false,
    if_false, hrange, if_true, setEntry_apply, send_apply, Exec.pure_apply, hfirst, decide_true,
    syncMap_of_receiving hg hentry, remove_of_not_blocks hg]
  rfl

/-- The ways in which a chunk can be handled, with the manager that each leaves. -/
inductive ChunkOutcome (sha256 : List UInt8 → Vector UInt8 32) (chunk : FileChunk)
    (m : TransferManager) : TransferManager → Prop
  /-- There is no transfer, or it is one that this node sends. -/
  | ignored (hentry : ∀ s, m.activeTransfers chunk.transferId ≠ some (.receiving s)) :
      ChunkOutcome sha256 chunk m m
  | badHash {s : ReceivingState}
      (hentry : m.activeTransfers chunk.transferId = some (.receiving s))
      (hhash : hashChunk sha256 chunk.data ≠ chunk.chunkHash) :
      ChunkOutcome sha256 chunk m
        (m.withSent s.peer [.fileChunkAck ⟨chunk.transferId, chunk.chunkIndex, .badHash⟩])
  | outOfRange {s : ReceivingState}
      (hentry : m.activeTransfers chunk.transferId = some (.receiving s))
      (hhash : hashChunk sha256 chunk.data = chunk.chunkHash)
      (hrange : ¬chunkStart chunk.chunkIndex s.chunkSize + chunk.data.length ≤
        s.fileMap.length) :
      ChunkOutcome sha256 chunk m m
  | stored {s : ReceivingState}
      (hentry : m.activeTransfers chunk.transferId = some (.receiving s))
      (hhash : hashChunk sha256 chunk.data = chunk.chunkHash)
      (hrange : chunkStart chunk.chunkIndex s.chunkSize + chunk.data.length ≤ s.fileMap.length)
      (hopen : s.receivedChunks + 1 ≠ s.totalChunks) :
      ChunkOutcome sha256 chunk m (m.stored chunk s)
  | completed {s : ReceivingState}
      (hentry : m.activeTransfers chunk.transferId = some (.receiving s))
      (hhash : hashChunk sha256 chunk.data = chunk.chunkHash)
      (hrange : chunkStart chunk.chunkIndex s.chunkSize + chunk.data.length ≤ s.fileMap.length)
      (hlast : s.receivedChunks + 1 = s.totalChunks) :
      ChunkOutcome sha256 chunk m ((({ m.stored chunk s with
          flushed := m.flushed ++ [(s.filePath, (written s chunk).fileMap)] }).without
        chunk.transferId).withSent s.peer
          [.fileComplete ⟨chunk.transferId, Vector.replicate 32 0⟩])

/-- Whatever a chunk holds, the handler returns. -/
theorem handleChunk_outcome (sha256 : List UInt8 → Vector UInt8 32)
    (hg : ¬g.Blocks chunk.transferId) (m : TransferManager) :
    Exec.Returned (handleChunk sha256 g chunk m) ∧
      ChunkOutcome sha256 chunk m (Exec.stateAfter (handleChunk sha256 g chunk m)) := by
  cases hentry : m.activeTransfers chunk.transferId with
  | none =>
    rw [handleChunk_of_none hg hentry]
    exact ⟨trivial, .ignored (by simp [hentry])⟩
  | some transfer =>
    cases transfer with
    | sending s =>
      rw [handleChunk_of_sending hg hentry]
      exact ⟨trivial, .ignored (by simp [hentry])⟩
    | receiving s =>
      by_cases hhash : hashChunk sha256 chunk.data = chunk.chunkHash
      · by_cases hrange :
            chunkStart chunk.chunkIndex s.chunkSize + chunk.data.length ≤ s.fileMap.length
        · by_cases hlast : s.receivedChunks + 1 = s.totalChunks
          · rw [handleChunk_of_completed hg hentry hhash hrange hlast]
            exact ⟨trivial, .completed hentry hhash hrange hlast⟩
          · rw [handleChunk_of_stored hg hentry hhash hrange hlast]
            exact ⟨trivial, .stored hentry hhash hrange hlast⟩
        · rw [handleChunk_of_out_of_range hg hentry hhash hrange]
          exact ⟨trivial, .outOfRange hentry hhash hrange⟩
      · rw [handleChunk_of_bad_hash hg hentry hhash]
        exact ⟨trivial, .badHash hentry hhash⟩

end

end TransferManager

end CekyP2P.Transfer
