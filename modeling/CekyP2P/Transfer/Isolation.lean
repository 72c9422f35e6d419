import CekyP2P.Transfer.Guards

/-!
# A message touches one transfer

A handler finds the transfer by the id in the message and does not ask who sent it. It
changes no other entry and emits frames of no other transfer. Between messages every file
that is being sent waits: for credits, or because its cursor is through.
-/

namespace CekyP2P.Transfer

open Protocol TransferManager

/-- The other side of a transfer. -/
def TransferState.peer : TransferState → SocketAddr
  | .sending s => s.peer
  | .receiving s => s.peer

/-- The file of a transfer. -/
def TransferState.fileMap : TransferState → List UInt8
  | .sending s => s.fileMap
  | .receiving s => s.fileMap

/-- The transfer that a frame belongs to. -/
def frameId : Payload → TransferId
  | .fileOffer offer => offer.transferId
  | .fileAccept accept => accept.transferId
  | .creditUpdate id _ => id
  | .fileChunk chunk => chunk.transferId
  | .fileChunkAck ack => ack.transferId
  | .fileComplete complete => complete.transferId

/-- The transfer that a message names. -/
def Message.transferId : Message → TransferId
  | .fileOffer _ offer _ => offer.transferId
  | .fileAccept accept => accept.transferId
  | .creditUpdate id _ => id
  | .fileChunk chunk => chunk.transferId
  | .fileChunkAck ack => ack.transferId

/-! ## A handler touches the transfer it names -/

/-- Only the entry of one transfer has changed, and only frames of it were emitted. -/
structure OnlyOn (id : TransferId) (before after : TransferManager) : Prop where
  entries : ∀ other, other ≠ id → after.activeTransfers other = before.activeTransfers other
  frames : ∃ frames, after.outbox = before.outbox ++ frames ∧ ∀ f ∈ frames, frameId f.2 = id

namespace OnlyOn

variable {id : TransferId} {m m' : TransferManager}

/-- Nothing has changed. -/
theorem refl (id : TransferId) (m : TransferManager) : OnlyOn id m m :=
  ⟨fun _ _ => rfl, [], by simp, nofun⟩

/-- Storing the entry of this transfer. -/
theorem withEntry (h : OnlyOn id m m') (transfer : TransferState) :
    OnlyOn id m (m'.withEntry id transfer) where
  entries := fun other hne => (Function.update_of_ne hne _ _).trans (h.entries other hne)
  frames := h.frames

/-- Removing the entry of this transfer. -/
theorem without (h : OnlyOn id m m') : OnlyOn id m (m'.without id) where
  entries := fun other hne => (Function.update_of_ne hne _ _).trans (h.entries other hne)
  frames := h.frames

/-- Sending frames of this transfer. -/
theorem withSent (h : OnlyOn id m m') (peer : SocketAddr) {sent : List Payload}
    (hsent : ∀ f ∈ sent, frameId f = id) : OnlyOn id m (m'.withSent peer sent) where
  entries := h.entries
  frames := by
    obtain ⟨frames, houtbox, hframes⟩ := h.frames
    refine ⟨frames ++ sent.map (peer, ·), ?_, List.forall_mem_append.mpr ⟨hframes, ?_⟩⟩
    · rw [withSent_outbox, houtbox, List.append_assoc]
    · intro f hf
      obtain ⟨payload, hpayload, rfl⟩ := List.mem_map.mp hf
      exact hsent payload hpayload

/-- No frame is emitted for any other transfer. -/
theorem frameId_ne (h : OnlyOn id m m') {other : TransferId} (hne : other ≠ id)
    {frames : List (SocketAddr × Payload)} (hframes : m'.outbox = m.outbox ++ frames) :
    ∀ f ∈ frames, frameId f.2 ≠ other := by
  obtain ⟨emitted, houtbox, hid⟩ := h.frames
  obtain rfl := List.append_cancel_left (hframes.symm.trans houtbox)
  intro f hf
  rw [hid f hf]
  exact hne.symm

end OnlyOn

variable {sha256 : List UInt8 → Vector UInt8 32} {g : Guards} {m : TransferManager}

/-- What a pump leaves behind. -/
theorem pumpSend_eq (hm : m.SendsFit) {id : TransferId} (hg : ¬g.Blocks id) {s : SendingState}
    (hs : m.activeTransfers id = some (.sending s)) :
    pumpSend sha256 g id m = .ok () ((m.withEntry id (.sending s.afterPump)).withSent s.peer
      (s.pumped.map (s.chunkFrame sha256 id))) :=
  pumpSend_of_sending hg hs (pumpLoop_eq sha256 id (hm id s hs) (Nat.le_refl _))

/-- The chunks that are sent name their transfer. -/
theorem frameId_chunkFrame (s : SendingState) (id : TransferId) :
    ∀ f ∈ s.pumped.map (s.chunkFrame sha256 id), frameId f = id := by
  intro f hf
  obtain ⟨i, -, rfl⟩ := List.mem_map.mp hf
  rfl

/-- Pumping changes its own transfer only. -/
theorem onlyOn_pumpSend (hm : m.SendsFit) {id : TransferId} {before : TransferManager}
    (h : OnlyOn id before m) : OnlyOn id before (Exec.stateAfter (pumpSend sha256 g id m)) := by
  by_cases hg : g.Blocks id
  · rw [pumpSend, getMut_of_blocks hg]
    exact h
  · by_cases hsending : m.IsSending id
    · obtain ⟨s, hs⟩ := hsending
      rw [pumpSend_eq hm hg hs]
      exact (h.withEntry _).withSent _ (frameId_chunkFrame s id)
    · rw [pumpSend_of_not_sending hg hsending]
      exact h

variable (sha256) in
/-- A chunk changes its own transfer only. -/
theorem onlyOn_handleChunk (chunk : FileChunk) (hg : ¬g.Blocks chunk.transferId) :
    OnlyOn chunk.transferId m (Exec.stateAfter (handleChunk sha256 g chunk m)) := by
  have hrefl := OnlyOn.refl chunk.transferId m
  have hstored : ∀ s, OnlyOn chunk.transferId m (m.stored chunk s) := by
    refine fun s => (hrefl.withEntry _).withSent _ ?_
    intro f hf
    rcases List.mem_pair.mp hf with rfl | rfl
    · rfl
    · rfl
  obtain ⟨-, houtcome⟩ := handleChunk_outcome sha256 hg m
  generalize Exec.stateAfter (handleChunk sha256 g chunk m) = m' at houtcome ⊢
  cases houtcome with
  | ignored | outOfRange => exact hrefl
  | badHash => exact hrefl.withSent _ (List.forall_mem_singleton.mpr rfl)
  | stored => exact hstored _
  | @completed s =>
    have hflushed : OnlyOn chunk.transferId m { m.stored chunk s with
        flushed := m.flushed ++ [(s.filePath, (written s chunk).fileMap)] } :=
      ⟨(hstored s).entries, (hstored s).frames⟩
    exact hflushed.without.withSent _ (List.forall_mem_singleton.mpr rfl)

variable (sha256) in
/-- A message changes its own transfer only. -/
theorem onlyOn_handle (hm : m.SendsFit) (hg : ∀ id, ¬g.Blocks id) (msg : Message) :
    OnlyOn msg.transferId m (Exec.stateAfter (handle sha256 g msg m)) := by
  have hrefl := OnlyOn.refl msg.transferId m
  cases msg with
  | fileOffer peer offer disk =>
    cases disk with
    | none =>
      rw [handle, handleOffer_of_none]
      exact hrefl
    | some content =>
      rw [handle, handleOffer_of_some (hg _)]
      refine (hrefl.withEntry _).withSent _ ?_
      intro f hf
      rcases List.mem_pair.mp hf with rfl | rfl
      · rfl
      · rfl
  | fileAccept accept =>
    by_cases hsending : m.IsSending accept.transferId
    · obtain ⟨s, hs⟩ := hsending
      rw [handle, handleAccept_of_sending (hg _) hs]
      exact hrefl.withEntry _
    · rw [handle, handleAccept_of_not_sending (hg _) hsending]
      exact hrefl
  | creditUpdate id credits =>
    by_cases hsending : m.IsSending id
    · obtain ⟨s, hs⟩ := hsending
      have hfits : SendingState.Fits { s with credits := s.credits + credits } := hm id s hs
      rw [handle, handleCreditUpdate_of_sending (hg _) hs]
      exact onlyOn_pumpSend (hm.withSending id hfits) (hrefl.withEntry _)
    · rw [handle, handleCreditUpdate_of_not_sending (hg _) hsending]
      exact hrefl
  | fileChunk chunk => exact onlyOn_handleChunk sha256 chunk (hg _)
  | fileChunkAck ack =>
    by_cases hsending : m.IsSending ack.transferId
    · obtain ⟨s, hs⟩ := hsending
      rw [handle, handleChunkAck_of_sending (hg _) hs]
      exact onlyOn_pumpSend (hm.withSending _ (acknowledged_fits (hm _ s hs) ack))
        (hrefl.withEntry _)
    · rw [handle, handleChunkAck_of_not_sending (hg _) hsending]
      exact hrefl

/-! ## What the sender hears -/

/-- What is sent, and to whom, does not change while a file is being sent. -/
structure SendingState.SameFile (s s' : SendingState) : Prop where
  peer_eq : s'.peer = s.peer
  fileMap_eq : s'.fileMap = s.fileMap
  chunkSize_eq : s'.chunkSize = s.chunkSize
  totalChunks_eq : s'.totalChunks = s.totalChunks

/-- An acknowledgement leaves the file. -/
theorem sameFile_acknowledged (s : SendingState) (ack : FileChunkAck) :
    s.SameFile (acknowledged s ack) := by
  rw [acknowledged]
  split
  · exact ⟨rfl, rfl, rfl, rfl⟩
  · exact ⟨rfl, rfl, rfl, rfl⟩

/-- The same file is sent in the same chunks. -/
theorem SendingState.SameFile.chunkFrame_eq {s s' : SendingState} (h : s.SameFile s')
    (id : TransferId) : s'.chunkFrame sha256 id = s.chunkFrame sha256 id := by
  funext i
  rw [chunkFrame, chunkFrame, chunkData, chunkData, h.fileMap_eq, h.chunkSize_eq]

/-- The messages that a receiver sends back. -/
def Message.ForSender : Message → Prop
  | .fileAccept _ | .creditUpdate _ _ | .fileChunkAck _ => True
  | .fileOffer _ _ _ | .fileChunk _ => False

/-- The state that such a message leaves, and the chunks that are sent. -/
def SendingState.heard (s : SendingState) : Message → SendingState × List UInt32
  | .fileAccept accept => ({ s with bitfield := accept.missingBitmap }, [])
  | .creditUpdate _ credits =>
    (SendingState.afterPump { s with credits := s.credits + credits },
      SendingState.pumped { s with credits := s.credits + credits })
  | .fileChunkAck ack => ((acknowledged s ack).afterPump, (acknowledged s ack).pumped)
  | .fileOffer _ _ _ | .fileChunk _ => (s, [])

/-- No message changes the file. -/
theorem SendingState.sameFile_heard (s : SendingState) (msg : Message) :
    s.SameFile (s.heard msg).1 := by
  cases msg with
  | fileOffer | fileAccept | creditUpdate | fileChunk => exact ⟨rfl, rfl, rfl, rfl⟩
  | fileChunkAck ack =>
    obtain ⟨hpeer, hmap, hsize, htotal⟩ := sameFile_acknowledged s ack
    exact ⟨hpeer, hmap, hsize, htotal⟩

/-- A message for the sender is heard, provided that the pump does not block. -/
theorem stateAfter_handle_of_sending (sha256 : List UInt8 → Vector UInt8 32) (hm : m.SendsFit)
    (hg : ∀ id, ¬g.Blocks id) {msg : Message}
    (hfor : msg.ForSender) {s : SendingState}
    (hs : m.activeTransfers msg.transferId = some (.sending s))
    (hfree : ∀ ack, msg = .fileChunkAck ack → ¬(g.take ack.transferId).Blocks ack.transferId) :
    Exec.stateAfter (handle sha256 g msg m) =
      (m.withEntry msg.transferId (.sending (s.heard msg).1)).withSent s.peer
        ((s.heard msg).2.map (s.chunkFrame sha256 msg.transferId)) := by
  cases msg with
  | fileOffer peer offer disk => exact hfor.elim
  | fileChunk chunk => exact hfor.elim
  | fileAccept accept =>
    rw [handle, handleAccept_of_sending (hg _) hs]
    exact (withSent_nil _ _).symm
  | creditUpdate id credits =>
    have hfits : SendingState.Fits { s with credits := s.credits + credits } := hm id s hs
    rw [handle, handleCreditUpdate_of_sending (hg id) hs,
      pumpSend_eq (hm.withSending id hfits) (hg id) (Function.update_self _ _ _),
      Exec.stateAfter, withEntry_withEntry]
    rfl
  | fileChunkAck ack =>
    have hmarked := hm.withSending ack.transferId (acknowledged_fits (hm _ s hs) ack)
    rw [handle, handleChunkAck_of_sending (hg _) hs,
      pumpSend_eq hmarked (hfree ack rfl) (Function.update_self _ _ _), Exec.stateAfter,
      withEntry_withEntry, (sameFile_acknowledged s ack).peer_eq,
      (sameFile_acknowledged s ack).chunkFrame_eq]
    rfl

/-- It does nothing where no file is being sent. -/
theorem stateAfter_handle_of_not_sending (hg : ∀ id, ¬g.Blocks id) {msg : Message}
    (hfor : msg.ForSender) (hnot : ¬m.IsSending msg.transferId) :
    Exec.stateAfter (handle sha256 g msg m) = m := by
  cases msg with
  | fileOffer peer offer disk => exact hfor.elim
  | fileChunk chunk => exact hfor.elim
  | fileAccept accept =>
    rw [handle, handleAccept_of_not_sending (hg _) hnot]
    rfl
  | creditUpdate id credits =>
    rw [handle, handleCreditUpdate_of_not_sending (hg id) hnot]
    rfl
  | fileChunkAck ack =>
    rw [handle, handleChunkAck_of_not_sending (hg _) hnot]
    rfl

/-- A file that is being sent after a call was being sent before, and it is as it was or has
heard the message. -/
theorem sending_of_handle (hm : m.SendsFit) (hg : ∀ id, ¬g.Blocks id) {msg : Message}
    (hreturned : Exec.Returned (handle sha256 g msg m)) {id : TransferId} {s' : SendingState}
    (hs' : (Exec.stateAfter (handle sha256 g msg m)).activeTransfers id = some (.sending s')) :
    ∃ s, m.activeTransfers id = some (.sending s) ∧ (s' = s ∨ s' = (s.heard msg).1) := by
  by_cases hid : id = msg.transferId
  case neg =>
    rw [(onlyOn_handle sha256 hm hg msg).entries id hid] at hs'
    exact ⟨s', hs', Or.inl rfl⟩
  subst hid
  by_cases hfor : msg.ForSender
  · by_cases hsending : m.IsSending msg.transferId
    · have hfree : ∀ ack, msg = .fileChunkAck ack →
          ¬(g.take ack.transferId).Blocks ack.transferId := by
        rintro ack rfl
        exact not_blocks_of_returned hg hreturned hsending
      obtain ⟨s, hs⟩ := hsending
      rw [stateAfter_handle_of_sending sha256 hm hg hfor hs hfree] at hs'
      cases (Function.update_self msg.transferId _ _).symm.trans hs'
      exact ⟨s, hs, Or.inr rfl⟩
    · rw [stateAfter_handle_of_not_sending hg hfor hsending] at hs'
      exact ⟨s', hs', Or.inl rfl⟩
  · cases msg with
    | fileAccept | creditUpdate | fileChunkAck => exact absurd trivial hfor
    | fileOffer peer offer disk =>
      cases disk with
      | none =>
        rw [handle, handleOffer_of_none] at hs'
        exact ⟨s', hs', Or.inl rfl⟩
      | some content =>
        rw [handle, handleOffer_of_some (hg _)] at hs'
        cases (Function.update_self offer.transferId _ _).symm.trans hs'
    | fileChunk chunk =>
      obtain ⟨-, houtcome⟩ := handleChunk_outcome sha256 (hg chunk.transferId) m
      rw [handle] at hs'
      generalize Exec.stateAfter (handleChunk sha256 g chunk m) = m' at houtcome hs'
      cases houtcome with
      | ignored | badHash | outOfRange => exact ⟨s', hs', Or.inl rfl⟩
      | stored | completed => cases (Function.update_self chunk.transferId _ _).symm.trans hs'

/-! ## Senders that wait -/

/-- Nothing is left to pump: there are no credits or no chunks. -/
def SendingState.Waits (s : SendingState) : Prop :=
  ¬(0 < s.credits ∧ s.currentChunkIdx < s.totalChunks)

/-- Pumping stops for want of credits or of chunks. -/
theorem SendingState.waits_afterPump (s : SendingState) : s.afterPump.Waits := by
  rintro ⟨hcredits, hcursor⟩
  by_cases hleft : s.missing.length < s.credits.toNat
  · have hstop : s.afterPump.currentChunkIdx = max s.currentChunkIdx s.totalChunks :=
      if_pos hleft
    have hlt : s.afterPump.currentChunkIdx.toNat < s.totalChunks.toNat :=
      UInt32.lt_iff_toNat_lt.mp hcursor
    rw [hstop, toNat_max] at hlt
    omega
  · have hlength : s.pumped.length = s.credits.toNat := by
      rw [SendingState.pumped, List.length_take]
      omega
    have hzero : s.afterPump.credits = 0 := by
      rw [SendingState.afterPump, hlength]
      simp
    rw [hzero] at hcredits
    exact UInt32.lt_irrefl 0 hcredits

/-- Every file being sent waits for credits or is through. -/
def AllWait (m : TransferManager) : Prop :=
  ∀ id s, m.activeTransfers id = some (.sending s) → s.Waits

/-- It is enough to look at the transfer that was touched. -/
theorem AllWait.of_entry {m' : TransferManager} {id : TransferId} (h : AllWait m)
    (hothers : ∀ other, other ≠ id → m'.activeTransfers other = m.activeTransfers other)
    (hid : ∀ s, m'.activeTransfers id = some (.sending s) → s.Waits) : AllWait m' := by
  intro other s hs
  by_cases hother : other = id
  · subst hother
    exact hid s hs
  · rw [hothers other hother] at hs
    exact h other s hs

/-- A transfer that waits still waits after a message. -/
theorem SendingState.Waits.heard {s : SendingState} (h : s.Waits) (msg : Message) :
    (s.heard msg).1.Waits := by
  cases msg with
  | fileOffer | fileAccept | fileChunk => exact h
  | creditUpdate | fileChunkAck => exact SendingState.waits_afterPump _

/-- After each message that is handled, everything waits again. -/
theorem AllWait.handle (h : AllWait m) (hm : m.SendsFit) (hg : ∀ id, ¬g.Blocks id)
    (msg : Message) (hreturned : Exec.Returned (TransferManager.handle sha256 g msg m)) :
    AllWait (Exec.stateAfter (TransferManager.handle sha256 g msg m)) := by
  intro id s' hs'
  obtain ⟨s, hs, rfl | rfl⟩ := sending_of_handle hm hg hreturned hs'
  · exact h id s' hs
  · exact (h id s hs).heard msg

/-- An offered file starts without credits. -/
theorem AllWait.offerFile (h : AllWait m) {randomId : TransferId} (hg : ¬g.Blocks randomId)
    (peer : SocketAddr) (fileName : String) (file : Option (List UInt8)) (chunkSize : UInt32) :
    AllWait (Exec.stateAfter
      (TransferManager.offerFile sha256 g peer fileName file randomId chunkSize m)) := by
  rcases offerFile_cases sha256 peer fileName chunkSize hg m file with
    hsame | ⟨content, offer, rfl, hafter⟩
  · rw [hsame]
    exact h
  · rw [hafter]
    refine h.of_entry (fun other hne => Function.update_of_ne hne _ _) fun s hs => ?_
    cases (Function.update_self randomId _ _).symm.trans hs
    exact fun hrun => UInt32.lt_irrefl 0 hrun.1

/-! ## When a handler changes nothing -/

section

variable {s : SendingState}

/-- Credits leave a waiting transfer as it is only if there are none. -/
theorem afterPump_credited_iff (hwaits : s.Waits) (n : UInt32) :
    (SendingState.afterPump { s with credits := s.credits + n } = s ∧
      SendingState.pumped { s with credits := s.credits + n } = []) ↔ n = 0 := by
  constructor
  · rintro ⟨hafter, hpumped⟩
    have hcredits := congrArg SendingState.credits hafter
    rw [SendingState.afterPump, hpumped] at hcredits
    simpa using hcredits
  · rintro rfl
    rw [UInt32.add_zero]
    exact (SendingState.pumped_of_not_run hwaits).symm

/-- The bitmap has the bit already, and the cursor does not have to move back for it. -/
def SendingState.Ignores (s : SendingState) (j : UInt32) (pumps : Prop) : Prop :=
  bitmapSetMissing s.bitfield j true = s.bitfield ∧
    (s.currentChunkIdx ≤ j ∨ (pumps ∧ 0 < s.credits ∧ s.currentChunkIdx = s.totalChunks ∧
      ∀ i, j ≤ i → i < s.totalChunks → bitmapIsMissing s.bitfield i = false))

/-- Without a bad hash nothing is to be done. -/
theorem acknowledged_of_ne {ack : FileChunkAck} (h : ack.status ≠ .badHash) :
    acknowledged s ack = s := if_neg h

/-- After a bad hash, sending goes back to the chunk. -/
theorem acknowledged_of_badHash {ack : FileChunkAck} (h : ack.status = .badHash) :
    acknowledged s ack = { s with
      bitfield := bitmapSetMissing s.bitfield ack.chunkIndex true
      currentChunkIdx := if ack.chunkIndex < s.currentChunkIdx then ack.chunkIndex
        else s.currentChunkIdx } := if_pos h

/-- Where the pump is not reached, a bad hash goes unnoticed only behind the cursor. -/
theorem acknowledged_eq_self_iff (ack : FileChunkAck) :
    acknowledged s ack = s ↔ (ack.status = .badHash → s.Ignores ack.chunkIndex False) := by
  by_cases hstatus : ack.status = .badHash
  · rw [acknowledged_of_badHash hstatus]
    simp only [hstatus, forall_const, SendingState.Ignores, false_and, or_false]
    constructor
    · intro hsame
      have hcursor := congrArg SendingState.currentChunkIdx hsame
      refine ⟨congrArg SendingState.bitfield hsame, UInt32.not_lt.mp fun hlt => ?_⟩
      simp only [hlt, if_true] at hcursor
      rw [hcursor] at hlt
      exact UInt32.lt_irrefl _ hlt
    · rintro ⟨hbitfield, hcursor⟩
      rw [hbitfield, if_neg (UInt32.not_lt.mpr hcursor)]
  · simp [acknowledged_of_ne hstatus, hstatus]

/-- With credits and nothing missing the cursor goes to the end. -/
theorem stopIdx_of_missing_nil (hmissing : s.missing = []) (hcredits : 0 < s.credits) :
    s.stopIdx = max s.currentChunkIdx s.totalChunks := by
  rw [SendingState.stopIdx, hmissing]
  exact if_pos (UInt32.lt_iff_toNat_lt.mp hcredits)

/-- Nothing is missing from the position on. -/
theorem missing_eq_nil_iff : s.missing = [] ↔
    ∀ i, s.currentChunkIdx ≤ i → i < s.totalChunks → bitmapIsMissing s.bitfield i = false := by
  simp [SendingState.missing, List.filter_eq_nil_iff, SendingState.mem_remaining]

/-- A cursor that was moved back comes back to its place only if it was at the end, there are
credits and no chunk on the way is missing. -/
theorem afterPump_rewound_iff {j : UInt32} (hj : j < s.currentChunkIdx) :
    (SendingState.afterPump { s with currentChunkIdx := j } = s ∧
        SendingState.pumped { s with currentChunkIdx := j } = []) ↔
      0 < s.credits ∧ s.currentChunkIdx = s.totalChunks ∧
        ∀ i, j ≤ i → i < s.totalChunks → bitmapIsMissing s.bitfield i = false := by
  have hmissing : SendingState.missing { s with currentChunkIdx := j } = [] ↔
      ∀ i, j ≤ i → i < s.totalChunks → bitmapIsMissing s.bitfield i = false := missing_eq_nil_iff
  rw [← hmissing]
  have hlt := UInt32.lt_iff_toNat_lt.mp hj
  constructor
  · rintro ⟨hafter, hpumped⟩
    by_cases hrun : 0 < s.credits ∧ j < s.totalChunks
    · have hnone : SendingState.missing { s with currentChunkIdx := j } = [] := by
        rw [SendingState.pumped, List.take_eq_nil_iff] at hpumped
        refine hpumped.resolve_left ?_
        exact Nat.ne_of_gt (UInt32.lt_iff_toNat_lt.mp hrun.1)
      have hcursor : max j s.totalChunks = s.currentChunkIdx :=
        (stopIdx_of_missing_nil hnone hrun.1).symm.trans
          (congrArg SendingState.currentChunkIdx hafter)
      have htotal := UInt32.lt_iff_toNat_lt.mp hrun.2
      refine ⟨hrun.1, UInt32.toNat_inj.mp ?_, hnone⟩
      rw [← hcursor, toNat_max]
      exact Nat.max_eq_right htotal.le
    · have hsame := (SendingState.pumped_of_not_run (s := { s with currentChunkIdx := j }) hrun).2
      have hcursor := congrArg SendingState.currentChunkIdx (hsame.symm.trans hafter)
      rw [← hcursor] at hj
      exact absurd hj (UInt32.lt_irrefl _)
  · rintro ⟨hcredits, hcursor, hnone⟩
    have hpumped : SendingState.pumped { s with currentChunkIdx := j } = [] := by
      rw [SendingState.pumped, hnone, List.take_nil]
    refine ⟨?_, hpumped⟩
    have hstop : SendingState.stopIdx { s with currentChunkIdx := j } = s.currentChunkIdx := by
      rw [stopIdx_of_missing_nil hnone hcredits]
      apply UInt32.toNat_inj.mp
      rw [toNat_max, ← hcursor]
      exact Nat.max_eq_right hlt.le
    rw [SendingState.afterPump, hpumped, hstop]
    simp

/-- Where the pump is reached, it can bring a cursor back that was moved. -/
theorem afterPump_acknowledged_iff (hwaits : s.Waits) (ack : FileChunkAck) :
    ((acknowledged s ack).afterPump = s ∧ (acknowledged s ack).pumped = []) ↔
      (ack.status = .badHash → s.Ignores ack.chunkIndex True) := by
  by_cases hstatus : ack.status = .badHash
  · rw [acknowledged_of_badHash hstatus]
    simp only [hstatus, forall_const, SendingState.Ignores, true_and]
    by_cases hbitfield : bitmapSetMissing s.bitfield ack.chunkIndex true = s.bitfield
    · simp only [hbitfield, true_and]
      by_cases hcursor : ack.chunkIndex < s.currentChunkIdx
      · rw [if_pos hcursor, or_iff_right (UInt32.not_le.mpr hcursor)]
        exact afterPump_rewound_iff hcursor
      · rw [if_neg hcursor]
        refine iff_of_true ?_ (Or.inl (UInt32.not_lt.mp hcursor))
        exact (SendingState.pumped_of_not_run hwaits).symm
    · refine iff_of_false (fun h => hbitfield ?_) (fun h => hbitfield h.1)
      exact congrArg SendingState.bitfield h.1
  · rw [acknowledged_of_ne hstatus]
    refine iff_of_true (SendingState.pumped_of_not_run hwaits).symm fun h => absurd h hstatus

end

end CekyP2P.Transfer
