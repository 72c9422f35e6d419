import CekyP2P.Core.InFlight
import CekyP2P.Transfer.Isolation
import CekyP2P.Transfer.Link

/-!
# The credits of a transfer

Both nodes keep books: the sender spends a credit on each chunk, and the receiver returns one
for each chunk that it stores, but none for a chunk that it rejects. So the credits of the
sender, the chunks in flight and the credits in flight add up to the first grant less the
chunks that were lost. A transfer without chunks never completes, as completion is tested
only when a chunk is stored.
-/

namespace CekyP2P.Transfer

open Protocol TransferManager

/-! ## Weights of frames -/

/-- A chunk costs one credit. -/
def chunkWeight : SocketAddr × Payload → Nat
  | (_, .fileChunk _) => 1
  | _ => 0

/-- The credits that a frame grants. -/
def creditWeight : SocketAddr × Payload → Nat
  | (_, .creditUpdate _ credits) => credits.toNat
  | _ => 0

/-- Every chunk that is stored is acknowledged. -/
def okWeight : SocketAddr × Payload → Nat
  | (_, .fileChunkAck ack) => if ack.status = .ok then 1 else 0
  | _ => 0

/-- The credits that a message grants. -/
def Message.granted : Message → Nat
  | .creditUpdate _ credits => credits.toNat
  | _ => 0

/-! ## Books of one node -/

section

variable {sha256 : List UInt8 → Vector UInt8 32} {m m' : TransferManager} {chunk : FileChunk}

/-- The receiver returns one credit for each chunk that it acknowledges as stored. -/
theorem TransferManager.ChunkOutcome.answers (h : ChunkOutcome sha256 chunk m m') :
    ∃ frames, m'.outbox = m.outbox ++ frames ∧
      sentWeight creditWeight frames = sentWeight okWeight frames ∧
      sentWeight okWeight frames ≤ 1 ∧
      (hashChunk sha256 chunk.data ≠ chunk.chunkHash → sentWeight okWeight frames = 0) ∧
      ∀ f ∈ frames, Answer chunk.transferId f.2 ∧ ∀ accept, f.2 ≠ .fileAccept accept := by
  cases h with
  | ignored | outOfRange =>
    exact ⟨[], (List.append_nil _).symm, rfl, Nat.zero_le 1, fun _ => rfl, nofun⟩
  | @badHash s =>
    refine ⟨_, withSent_outbox _ _ _, rfl, Nat.zero_le 1, fun _ => rfl, ?_⟩
    intro f hf
    rw [List.mem_singleton.mp hf]
    exact ⟨.ack _ rfl, nofun⟩
  | @stored s hentry hhash hrange =>
    refine ⟨_, withSent_outbox _ _ _, rfl, Nat.le_refl 1, fun hbad => absurd hhash hbad, ?_⟩
    intro f hf
    rcases List.mem_pair.mp hf with rfl | rfl
    · exact ⟨.ack _ rfl, nofun⟩
    · exact ⟨.credit 1, nofun⟩
  | @completed s hentry hhash hrange =>
    refine ⟨[(s.peer, .fileChunkAck ⟨chunk.transferId, chunk.chunkIndex, .ok⟩),
      (s.peer, .creditUpdate chunk.transferId 1),
      (s.peer, .fileComplete ⟨chunk.transferId, Vector.replicate 32 0⟩)], ?_, rfl, Nat.le_refl 1,
      fun hbad => absurd hhash hbad, ?_⟩
    · exact List.append_assoc m.outbox _ _
    · intro f hf
      simp only [List.mem_cons, List.not_mem_nil, or_false] at hf
      rcases hf with rfl | rfl | rfl
      · exact ⟨.ack _ rfl, nofun⟩
      · exact ⟨.credit 1, nofun⟩
      · exact ⟨.complete _, nofun⟩

/-- The pump spends one credit on each chunk. -/
theorem SendingState.credits_afterPump (s : SendingState) :
    s.afterPump.credits.toNat + s.pumped.length = s.credits.toNat := by
  have hle : s.pumped.length ≤ s.credits.toNat := by
    rw [pumped, List.length_take]
    exact Nat.min_le_left _ _
  have hlt := s.credits.toNat_lt
  have hcount : (UInt32.ofNat s.pumped.length).toNat = s.pumped.length := by
    rw [UInt32.toNat_ofNat', Nat.mod_eq_of_lt (by omega)]
  rw [afterPump, UInt32.toNat_sub_of_le _ _ (UInt32.le_iff_toNat_le.mpr (by omega)), hcount]
  omega

/-- Credits are spent on chunks, one each. -/
theorem SendingState.credits_heard (s : SendingState) (msg : Message)
    (hbound : s.credits.toNat + msg.granted < 2 ^ 32) :
    (s.heard msg).1.credits.toNat + (s.heard msg).2.length = s.credits.toNat + msg.granted := by
  cases msg with
  | fileOffer | fileAccept | fileChunk => rfl
  | creditUpdate id credits =>
    refine (SendingState.credits_afterPump { s with credits := s.credits + credits }).trans ?_
    exact (UInt32.toNat_add _ _).trans (Nat.mod_eq_of_lt hbound)
  | fileChunkAck ack =>
    refine (SendingState.credits_afterPump (acknowledged s ack)).trans ?_
    rw [acknowledged]
    split
    · rfl
    · rfl

variable (sha256) in
/-- As many credits are spent as chunks are sent. -/
theorem chunkWeight_chunkFrames (s : SendingState) (id : TransferId) (peer : SocketAddr)
    (indices : List UInt32) : sentWeight chunkWeight
      ((indices.map (s.chunkFrame sha256 id)).map (peer, ·)) = indices.length := by
  induction indices with
  | nil => rfl
  | cons i rest ih =>
    rw [List.map_cons, List.map_cons, List.length_cons, ← ih, Nat.add_comm]
    rfl

end

/-! ## Runs with rejected chunks -/

namespace Link

section

variable (sha256 : List UInt8 → Vector UInt8 32)

/-- The runs of an exchange in which some chunks arrive with another content, so that their
hash fails; they are counted. Every frame is delivered at most once, in any order. -/
inductive Run (E : Exchange) (disk : Option (List UInt8)) : Nat → Link → Prop
  | start : Run E disk 0
      { sender := Exec.stateAfter (offerFile sha256 .plain E.receiverAddr E.fileName (some E.file)
          E.id E.chunkSize (.new E.senderDir))
        receiver := .new E.receiverDir
        toReceiver := ∅
        toSender := ∅ }
  | deliver {n : Nat} {l : Link} (p : Nat) (frame : Payload) : Run E disk n l →
      l.sender.outbox[p]? = some (E.receiverAddr, frame) → p ∉ l.toReceiver →
      Run E disk n (l.deliver sha256 E disk p frame)
  | corrupt {n : Nat} {l : Link} (p : Nat) (original chunk : FileChunk) : Run E disk n l →
      l.sender.outbox[p]? = some (E.receiverAddr, .fileChunk original) → p ∉ l.toReceiver →
      chunk.transferId = original.transferId →
      hashChunk sha256 chunk.data ≠ chunk.chunkHash →
      Run E disk (n + 1) (l.deliver sha256 E disk p (.fileChunk chunk))
  | reply {n : Nat} {l : Link} (senderDisk : Option (List UInt8)) (p : Nat) (frame : Payload) :
      Run E disk n l → l.receiver.outbox[p]? = some (E.senderAddr, frame) → p ∉ l.toSender →
      Run E disk n (l.reply sha256 E senderDisk p frame)

end

/-- The receiver has issued its first credits. -/
def Granted (E : Exchange) (l : Link) : Prop :=
  (E.senderAddr, Payload.creditUpdate E.id 50) ∈ l.receiver.outbox

/-- The credits of the sender, the chunks in flight and the credits in flight add up to the
first grant. -/
def Conserved (E : Exchange) (l : Link) : Prop :=
  ∃ s, l.sender.activeTransfers E.id = some (.sending s) ∧
    s.credits.toNat + inFlight chunkWeight l.sender.outbox l.toReceiver +
      inFlight creditWeight l.receiver.outbox l.toSender = 50

/-- The books of both nodes. -/
structure Books (sha256 : List UInt8 → Vector UInt8 32) (E : Exchange) (n : Nat) (l : Link) :
    Prop where
  fits : l.sender.SendsFit
  spent : ∃ s, l.sender.activeTransfers E.id = some (.sending s) ∧
    s.credits.toNat + sentWeight chunkWeight l.sender.outbox =
      weightAt creditWeight l.receiver.outbox l.toSender
  returned : l.receiver = .new E.receiverDir ∨ (0 ∈ l.toReceiver ∧ Granted E l ∧
    sentWeight creditWeight l.receiver.outbox = 50 + sentWeight okWeight l.receiver.outbox)
  lost : sentWeight okWeight l.receiver.outbox + n ≤
    weightAt chunkWeight l.sender.outbox l.toReceiver
  toReceiver_subset : l.toReceiver ⊆ Finset.range l.sender.outbox.length
  toSender_subset : l.toSender ⊆ Finset.range l.receiver.outbox.length
  frames : ∀ p addr frame, l.sender.outbox[p]? = some (addr, frame) →
    p = 0 ∧ frame = .fileOffer (E.offer sha256) ∨
      ∃ chunk, frame = .fileChunk chunk ∧ chunk.transferId = E.id
  answers : ∀ f ∈ l.receiver.outbox, Answer E.id f.2

variable {sha256 : List UInt8 → Vector UInt8 32} {E : Exchange} {disk : Option (List UInt8)}
  {n : Nat} {l : Link}

/-- A delivered frame was sent. -/
theorem subset_insert_range {delivered : Finset Nat} {β : Type} {sent : List β} {p : Nat}
    {message : β} (h : delivered ⊆ Finset.range sent.length) (hp : sent[p]? = some message) :
    insert p delivered ⊆ Finset.range sent.length :=
  Finset.insert_subset (Finset.mem_range.mpr (List.getElem?_eq_some_iff.mp hp).1) h

/-- Sending more keeps what was delivered among it. -/
theorem subset_range_append {delivered : Finset Nat} {β : Type} {sent : List β}
    (h : delivered ⊆ Finset.range sent.length) (more : List β) :
    delivered ⊆ Finset.range (sent ++ more).length := by
  refine h.trans (Finset.range_mono ?_)
  rw [List.length_append]
  exact Nat.le_add_right _ _

/-- In all books together the first grant is missing the chunks that were not stored. -/
theorem Books.balanced_iff (h : l.Books sha256 E n) (hgranted : Granted E l) :
    l.Conserved E ↔ sentWeight okWeight l.receiver.outbox =
      weightAt chunkWeight l.sender.outbox l.toReceiver := by
  obtain ⟨s, hs, hspent⟩ := h.spent
  have hchunks := inFlight_add_weightAt chunkWeight h.toReceiver_subset
  have hcredits := inFlight_add_weightAt creditWeight h.toSender_subset
  have hlost := h.lost
  have hreturned : sentWeight creditWeight l.receiver.outbox =
      50 + sentWeight okWeight l.receiver.outbox := by
    rcases h.returned with hnew | ⟨-, -, hreturned⟩
    · rw [Granted, hnew] at hgranted
      cases hgranted
    · exact hreturned
  constructor
  · rintro ⟨s', hs', hsum⟩
    cases hs.symm.trans hs'
    omega
  · intro heq
    exact ⟨s, hs, by omega⟩

/-- A receiver that has an entry has granted its credits. -/
theorem Books.granted (h : l.Books sha256 E n) {transfer : TransferState}
    (hentry : l.receiver.activeTransfers E.id = some transfer) : Granted E l := by
  rcases h.returned with hnew | ⟨-, hgranted, -⟩
  · rw [hnew] at hentry
    cases hentry
  · exact hgranted

/-- A frame arrives and is answered by some frames. -/
theorem Books.received (h : l.Books sha256 E n) {p n' : Nat} {f : SocketAddr × Payload}
    (hframe : l.sender.outbox[p]? = some f) (hnew : p ∉ l.toReceiver) {m' : TransferManager}
    {frames : List (SocketAddr × Payload)} (houtbox : m'.outbox = l.receiver.outbox ++ frames)
    (hreturned : m' = .new E.receiverDir ∨ (0 ∈ insert p l.toReceiver ∧
      (E.senderAddr, Payload.creditUpdate E.id 50) ∈ m'.outbox ∧
      sentWeight creditWeight m'.outbox = 50 + sentWeight okWeight m'.outbox))
    (hlost : sentWeight okWeight frames + n' ≤ n + chunkWeight f)
    (hanswers : ∀ f ∈ frames, Answer E.id f.2) :
    Books sha256 E n' { l with receiver := m', toReceiver := insert p l.toReceiver } where
  fits := h.fits
  spent := by
    obtain ⟨s, hs, hspent⟩ := h.spent
    refine ⟨s, hs, hspent.trans ?_⟩
    rw [houtbox, weightAt_append creditWeight frames h.toSender_subset]
  returned := hreturned
  lost := by
    have hold := h.lost
    rw [houtbox, sentWeight_append, weightAt_insert chunkWeight hframe hnew]
    omega
  toReceiver_subset := subset_insert_range h.toReceiver_subset hframe
  toSender_subset := by
    rw [houtbox]
    exact subset_range_append h.toSender_subset frames
  frames := h.frames
  answers := by
    intro f hf
    rw [houtbox, List.mem_append] at hf
    exact hf.elim (h.answers f) (hanswers f)

/-- The offer reaches a receiver that knows nothing of the transfer. -/
theorem Books.deliverOffer (h : l.Books sha256 E n) {addr : SocketAddr}
    (hframe : l.sender.outbox[0]? = some (addr, .fileOffer (E.offer sha256)))
    (hnew : 0 ∉ l.toReceiver) (disk : Option (List UInt8)) :
    (l.deliver sha256 E disk 0 (.fileOffer (E.offer sha256))).Books sha256 E n := by
  have hreceiver : l.receiver = .new E.receiverDir := by
    rcases h.returned with hnone | ⟨hmem, -⟩
    · exact hnone
    · exact absurd hmem hnew
  cases disk with
  | none =>
    rw [deliver, dispatch, handleOffer_of_none]
    exact h.received hframe hnew (List.append_nil _).symm (Or.inl hreceiver) (Nat.zero_add n).le
      (List.forall_mem_nil _)
  | some content =>
    rw [deliver, dispatch, handleOffer_of_some Guards.not_plain_blocks]
    refine h.received hframe hnew rfl (Or.inr ⟨Finset.mem_insert_self 0 _, ?_, ?_⟩)
      (Nat.zero_add n).le ?_
    · exact List.mem_append_right _ (List.mem_cons_of_mem _ List.mem_cons_self)
    · rw [hreceiver]
      rfl
    · intro f hf
      rcases List.mem_pair.mp hf with rfl | rfl
      · exact .accept _ rfl
      · exact .credit 50

/-- A chunk reaches the receiver, as it was sent or not. -/
theorem Books.deliverChunk (h : l.Books sha256 E n) {p n' : Nat} {addr : SocketAddr}
    {original chunk : FileChunk}
    (hframe : l.sender.outbox[p]? = some (addr, .fileChunk original)) (hnew : p ∉ l.toReceiver)
    (hid : chunk.transferId = E.id)
    (hcount : n' = n ∨ n' = n + 1 ∧ hashChunk sha256 chunk.data ≠ chunk.chunkHash)
    (disk : Option (List UInt8)) :
    (l.deliver sha256 E disk p (.fileChunk chunk)).Books sha256 E n' := by
  have hblocks : ¬Guards.plain.Blocks chunk.transferId := Guards.not_plain_blocks
  obtain ⟨-, houtcome⟩ := handleChunk_outcome sha256 hblocks l.receiver
  obtain ⟨frames, houtbox, hcredit, hone, hbad, hanswers⟩ := houtcome.answers
  rw [hid] at hanswers
  rw [deliver, dispatch]
  refine h.received hframe hnew houtbox ?_ ?_ fun f hf => (hanswers f hf).1
  · rcases h.returned with hnone | ⟨hzero, hgranted, hreturned⟩
    · left
      have hmissing : l.receiver.activeTransfers chunk.transferId = none := by rw [hnone]; rfl
      rw [handleChunk_of_none hblocks hmissing]
      exact hnone
    · refine Or.inr ⟨Finset.mem_insert_of_mem hzero, ?_, ?_⟩
      · rw [houtbox]
        exact List.mem_append_left _ hgranted
      · rw [houtbox, sentWeight_append, sentWeight_append, hreturned, hcredit, Nat.add_assoc]
  · have hweight : chunkWeight (addr, .fileChunk original) = 1 := rfl
    rcases hcount with rfl | ⟨rfl, hhash⟩
    · omega
    · have hnone := hbad hhash
      omega

/-- The sender hears an answer. -/
theorem Books.heard (h : l.Books sha256 E n) {p : Nat} {f : SocketAddr × Payload}
    (hframe : l.receiver.outbox[p]? = some f) (hnew : p ∉ l.toSender) (msg : Message)
    (hfor : msg.ForSender) (hid : msg.transferId = E.id) (hgranted : creditWeight f = msg.granted) :
    Books sha256 E n { l with
      sender := Exec.stateAfter (handle sha256 .plain msg l.sender)
      toSender := insert p l.toSender } := by
  obtain ⟨s, hs, hspent⟩ := h.spent
  rw [← hid] at hs
  have hguards : ∀ id, ¬Guards.plain.Blocks id := fun _ => Guards.not_plain_blocks
  have harrived : weightAt creditWeight l.receiver.outbox (insert p l.toSender) =
      weightAt creditWeight l.receiver.outbox l.toSender + msg.granted := by
    rw [weightAt_insert creditWeight hframe hnew, hgranted]
  have hbound : s.credits.toNat + msg.granted ≤ 50 := by
    have hcredits := inFlight_add_weightAt creditWeight
      (subset_insert_range h.toSender_subset hframe)
    have hchunks := inFlight_add_weightAt chunkWeight h.toReceiver_subset
    have hlost := h.lost
    rcases h.returned with hnone | ⟨-, -, hreturned⟩
    · rw [hnone] at hframe
      cases hframe
    · omega
  have hafter := stateAfter_handle_of_sending sha256 h.fits hguards hfor hs
    fun _ _ => Guards.not_plain_blocks
  have hcredits := s.credits_heard msg (by omega)
  have hsent := chunkWeight_chunkFrames sha256 s msg.transferId s.peer (s.heard msg).2
  refine ⟨(h.fits.handle hguards msg fun _ _ _ => Guards.not_plain_blocks).2, ?_, h.returned, ?_,
    ?_, subset_insert_range h.toSender_subset hframe, ?_, h.answers⟩
  · refine ⟨(s.heard msg).1, ?_, ?_⟩
    · rw [hafter, ← hid]
      exact Function.update_self _ _ _
    · rw [hafter, withSent_outbox, withEntry_outbox, sentWeight_append, hsent, harrived]
      omega
  · rw [hafter, withSent_outbox, withEntry_outbox,
      weightAt_append chunkWeight _ h.toReceiver_subset]
    exact h.lost
  · rw [hafter, withSent_outbox, withEntry_outbox]
    exact subset_range_append h.toReceiver_subset _
  · intro q addr frame hq
    rw [hafter, withSent_outbox, withEntry_outbox] at hq
    rcases Nat.lt_or_ge q l.sender.outbox.length with hlt | hge
    · rw [List.getElem?_append_left hlt] at hq
      exact h.frames q addr frame hq
    · rw [List.getElem?_append_right hge] at hq
      obtain ⟨payload, hpayload, heq⟩ := List.mem_map.mp (List.mem_of_getElem? hq)
      obtain ⟨i, -, rfl⟩ := List.mem_map.mp hpayload
      cases heq
      exact Or.inr ⟨_, rfl, hid⟩

/-- An answer reaches the sender. -/
theorem Books.reply (h : l.Books sha256 E n) {p : Nat} {addr : SocketAddr} {frame : Payload}
    (hframe : l.receiver.outbox[p]? = some (addr, frame)) (hnew : p ∉ l.toSender)
    (disk : Option (List UInt8)) : (l.reply sha256 E disk p frame).Books sha256 E n := by
  have hanswer := h.answers _ (List.mem_of_getElem? hframe)
  cases hanswer with
  | accept accept hid => exact h.heard hframe hnew (.fileAccept accept) trivial hid rfl
  | credit credits => exact h.heard hframe hnew (.creditUpdate E.id credits) trivial rfl rfl
  | ack ack hid => exact h.heard hframe hnew (.fileChunkAck ack) trivial hid rfl
  | complete complete =>
    obtain ⟨s, hs, hspent⟩ := h.spent
    refine ⟨h.fits, ⟨s, hs, hspent.trans ?_⟩, h.returned, h.lost, h.toReceiver_subset,
      subset_insert_range h.toSender_subset hframe, h.frames, h.answers⟩
    exact (weightAt_insert creditWeight hframe hnew).symm

/-- After the offer nothing is booked. -/
theorem books_start : Books sha256 E 0
    ⟨E.sender sha256 0 0, .new E.receiverDir, ∅, ∅⟩ where
  fits := (sendsFit_new E.senderDir).withSending E.id
    (offered_fits E.size_lt E.receiverAddr E.chunkSize)
  spent := ⟨_, E.sender_entry sha256 0 0, rfl⟩
  returned := Or.inl rfl
  lost := Nat.le_refl 0
  toReceiver_subset := Finset.empty_subset _
  toSender_subset := Finset.empty_subset _
  frames := by
    intro p addr frame hframe
    rcases E.sender_outbox_cases sha256 hframe with hoffer | ⟨i, hi, -, -⟩
    · exact Or.inl hoffer
    · cases hi
  answers := nofun

/-- The run: the books are kept in every state. -/
theorem Run.books (h : Run sha256 E disk n l) : l.Books sha256 E n := by
  induction h with
  | start =>
    rw [E.offerFile_eq]
    exact books_start
  | @deliver n l p frame _ hframe hnew ih =>
    rcases ih.frames p _ frame hframe with ⟨rfl, rfl⟩ | ⟨chunk, rfl, hid⟩
    · exact ih.deliverOffer hframe hnew disk
    · exact ih.deliverChunk hframe hnew hid (Or.inl rfl) disk
  | @corrupt n l p original chunk _ hframe hnew hsame hhash ih =>
    rcases ih.frames p _ _ hframe with ⟨-, hoffer⟩ | ⟨_, ⟨⟩, hid⟩
    · cases hoffer
    · exact ih.deliverChunk hframe hnew (hsame.trans hid) (Or.inr ⟨rfl, hhash⟩) disk
  | @reply n l senderDisk p frame _ hframe hnew ih => exact ih.reply hframe hnew senderDisk

/-! ## Runs without rejected chunks -/

/-- The receiver, if every chunk that arrived was stored. -/
inductive Tally (E : Exchange) (disk : Option (List UInt8)) (l : Link) : Prop
  | idle (hreceiver : l.receiver = .new E.receiverDir) (hoffer : 0 ∈ l.toReceiver → disk = none)
  | receiving {s : ReceivingState}
      (hentry : l.receiver.activeTransfers E.id = some (.receiving s))
      (hpeer : s.peer = E.senderAddr) (hsize : s.chunkSize = E.chunkSize)
      (htotal : s.totalChunks = E.totalChunks) (hlength : s.fileMap.length = E.file.length)
      (hcount : s.receivedChunks.toNat = sentWeight okWeight l.receiver.outbox)
      (hstored : sentWeight okWeight l.receiver.outbox =
        weightAt chunkWeight l.sender.outbox l.toReceiver)
      (hopen : s.receivedChunks.toNat < E.totalChunks.toNat ∨ E.totalChunks = 0)
  | done (hentry : l.receiver.activeTransfers E.id = none)
      (hcomplete : ∃ addr complete, (addr, Payload.fileComplete complete) ∈ l.receiver.outbox)
      (hstored : sentWeight okWeight l.receiver.outbox =
        weightAt chunkWeight l.sender.outbox l.toReceiver)
      (hall : E.totalChunks.toNat ≤ weightAt chunkWeight l.sender.outbox l.toReceiver)

/-- The sender is at some cursor, and waits there for credits or is through. -/
def SenderWaits (sha256 : List UInt8 → Vector UInt8 32) (E : Exchange) (l : Link) : Prop :=
  ∃ credits cursor : UInt32, cursor.toNat ≤ E.totalChunks.toNat ∧
    (credits = 0 ∨ cursor.toNat = E.totalChunks.toNat) ∧ l.sender = E.sender sha256 credits cursor

/-- A chunk of the sender fits into a map of the size of its file. -/
theorem chunk_in_range (sha256 : List UInt8 → Vector UInt8 32) {i : UInt32}
    (hi : i < E.totalChunks) :
    chunkStart i E.chunkSize + (E.chunk sha256 i).data.length ≤ E.file.length := by
  have hstart : chunkStart i E.chunkSize < _ := chunkStart_lt hi
  rw [E.toNat_fileSize] at hstart
  simp only [Exchange.chunk, List.length_drop, List.length_take]
  omega

/-- A sender has spent a credit on each chunk before its position. -/
theorem sentWeight_sender (sha256 : List UInt8 → Vector UInt8 32) (credits cursor : UInt32) :
    sentWeight chunkWeight (E.sender sha256 credits cursor).outbox = cursor.toNat := by
  have houtbox : (E.sender sha256 credits cursor).outbox.map chunkWeight =
      0 :: (List.range cursor.toNat).map fun _ => 1 := by
    simp only [Exchange.sender, withSent_outbox, withEntry_outbox, TransferManager.new,
      List.nil_append, List.map_cons, List.map_map]
    rfl
  rw [sentWeight, houtbox, List.map_const', List.sum_cons, List.sum_replicate, List.length_range]
  simp

/-- What holds in every state of a run without rejected chunks. -/
structure Exact (sha256 : List UInt8 → Vector UInt8 32) (E : Exchange)
    (disk : Option (List UInt8)) (l : Link) : Prop where
  books : l.Books sha256 E 0
  waits : l.SenderWaits sha256 E
  replies : E.Replies l.receiver
  tally : l.Tally E disk

/-- Before the grant no chunk is sent. -/
theorem Books.sentWeight_eq_zero (h : l.Books sha256 E n)
    (hreceiver : l.receiver = .new E.receiverDir) :
    sentWeight chunkWeight l.sender.outbox = 0 := by
  obtain ⟨s, -, hspent⟩ := h.spent
  have hnone := h.toSender_subset
  rw [hreceiver] at hnone
  rw [Finset.subset_empty.mp hnone] at hspent
  change _ = 0 at hspent
  omega

/-- A chunk in flight is one that was sent and has not arrived. -/
theorem Books.lt_sentWeight (h : l.Books sha256 E n) {p : Nat} {addr : SocketAddr}
    {chunk : FileChunk} (hframe : l.sender.outbox[p]? = some (addr, .fileChunk chunk))
    (hnew : p ∉ l.toReceiver) : weightAt chunkWeight l.sender.outbox l.toReceiver <
      sentWeight chunkWeight l.sender.outbox := by
  have hflight : 1 ≤ inFlight chunkWeight l.sender.outbox l.toReceiver :=
    le_inFlight chunkWeight hframe hnew
  have hsum := inFlight_add_weightAt chunkWeight h.toReceiver_subset
  omega

/-- The accounts stay exact when the offer is delivered. -/
theorem Exact.deliverOffer (h : l.Exact sha256 E disk) {addr : SocketAddr}
    (hframe : l.sender.outbox[0]? = some (addr, .fileOffer (E.offer sha256)))
    (hnew : 0 ∉ l.toReceiver) :
    (l.deliver sha256 E disk 0 (.fileOffer (E.offer sha256))).Exact sha256 E disk := by
  have hbooks := h.books.deliverOffer hframe hnew disk
  have hreceiver : l.receiver = .new E.receiverDir := by
    rcases h.books.returned with hnone | ⟨hmem, -⟩
    · exact hnone
    · exact absurd hmem hnew
  cases disk with
  | none =>
    refine ⟨hbooks, h.waits, ?_, .idle ?_ fun _ => rfl⟩
    · rw [deliver, dispatch, handleOffer_of_none]
      exact h.replies
    · rw [deliver, dispatch, handleOffer_of_none]
      exact hreceiver
  | some content =>
    have hsilent := h.books.sentWeight_eq_zero hreceiver
    have hsum := inFlight_add_weightAt chunkWeight h.books.toReceiver_subset
    have harrived : weightAt chunkWeight l.sender.outbox (insert 0 l.toReceiver) = 0 := by
      rw [weightAt_insert chunkWeight hframe hnew]
      change _ + 0 = 0
      omega
    rw [deliver, dispatch, handleOffer_of_some Guards.not_plain_blocks] at hbooks ⊢
    refine ⟨hbooks, h.waits, ?_, .receiving (Function.update_self _ _ _) rfl rfl rfl ?_ ?_ ?_ ?_⟩
    · refine h.replies.withSent E.senderAddr ?_
      intro frame hmem
      rcases List.mem_pair.mp hmem with rfl | rfl
      · exact ⟨.accept _ rfl, rfl⟩
      · exact ⟨.credit 50, trivial⟩
    · exact (length_setLen _ _).trans E.toNat_fileSize
    · rw [hreceiver]
      rfl
    · refine Eq.trans ?_ harrived.symm
      rw [hreceiver]
      rfl
    · rw [← UInt32.toNat_inj, UInt32.toNat_zero]
      exact (Nat.eq_zero_or_pos _).symm

variable (sha256 E) in
/-- A stored chunk is acknowledged once. -/
theorem sentWeight_stored (m : TransferManager) (s : ReceivingState) (i : Nat) :
    sentWeight okWeight (m.stored (E.chunk sha256 (UInt32.ofNat i)) s).outbox =
      sentWeight okWeight m.outbox + 1 := sentWeight_append okWeight _ _

/-- A chunk that arrives as it was sent is stored. -/
theorem Exact.deliverChunk (h : l.Exact sha256 E disk) {i : Nat} {credits cursor : UInt32}
    (hle : cursor.toNat ≤ E.totalChunks.toNat) (hi : i < cursor.toNat)
    (hsender : l.sender = E.sender sha256 credits cursor) (hnew : i + 1 ∉ l.toReceiver) :
    (l.deliver sha256 E disk (i + 1) (E.chunkFrame sha256 i)).Exact sha256 E disk := by
  have hframe : l.sender.outbox[i + 1]? = some (E.receiverAddr, E.chunkFrame sha256 i) := by
    rw [hsender]
    exact E.sender_outbox_succ sha256 credits hi
  have hid : (E.chunk sha256 (UInt32.ofNat i)).transferId = E.id := rfl
  have hbooks := h.books.deliverChunk hframe hnew hid (Or.inl rfl) disk
  have hlt := h.books.lt_sentWeight hframe hnew
  have harrived : weightAt chunkWeight l.sender.outbox (insert (i + 1) l.toReceiver) =
      weightAt chunkWeight l.sender.outbox l.toReceiver + 1 :=
    weightAt_insert chunkWeight hframe hnew
  have hsent : sentWeight chunkWeight l.sender.outbox = cursor.toNat := by
    rw [hsender, sentWeight_sender]
  cases h.tally with
  | idle hreceiver =>
    have := h.books.sentWeight_eq_zero hreceiver
    omega
  | done _ _ _ hall => omega
  | @receiving s hentry hpeer hsize htotal hlength hcount hstored hopen =>
    have hindex : UInt32.ofNat i < E.totalChunks := by
      rw [UInt32.lt_iff_toNat_lt, E.toNat_index (by omega)]
      omega
    have hrange : chunkStart (E.chunk sha256 (UInt32.ofNat i)).chunkIndex s.chunkSize +
        (E.chunk sha256 (UInt32.ofNat i)).data.length ≤ s.fileMap.length := by
      rw [hsize, hlength]
      exact chunk_in_range sha256 hindex
    have hbound := E.totalChunks.toNat_lt
    have hsucc : (s.receivedChunks + 1).toNat = s.receivedChunks.toNat + 1 := by
      rw [UInt32.toNat_add, UInt32.toNat_one, Nat.mod_eq_of_lt (by omega)]
    have hreplies := h.replies.stored sha256 s i
    have hok := sentWeight_stored sha256 E l.receiver s i
    rw [Exchange.chunkFrame]
    rw [deliver, dispatch] at hbooks ⊢
    by_cases hlast : s.receivedChunks + 1 = s.totalChunks
    · rw [handleChunk_of_completed Guards.not_plain_blocks hentry rfl hrange hlast] at hbooks ⊢
      refine ⟨hbooks, h.waits, hreplies.withSent s.peer ?_,
        .done (Function.update_self _ _ _)
          ⟨s.peer, ⟨E.id, Vector.replicate 32 0⟩, ?_⟩ ?_ ?_⟩
      · intro frame hmem
        rw [List.mem_singleton.mp hmem]
        exact ⟨.complete _, trivial⟩
      · exact List.mem_append_right _ (List.mem_singleton_self _)
      · refine (sentWeight_append okWeight _ _).trans ?_
        refine (Nat.add_zero _).trans (hok.trans ?_)
        rw [hstored]
        exact harrived.symm
      · rw [← htotal, ← hlast, hsucc, hcount, hstored]
        exact harrived.ge
    · rw [handleChunk_of_stored Guards.not_plain_blocks hentry rfl hrange hlast] at hbooks ⊢
      refine ⟨hbooks, h.waits, hreplies,
        .receiving (Function.update_self _ _ _) hpeer hsize htotal ?_ ?_ ?_ (Or.inl ?_)⟩
      · exact (length_overwrite hrange).trans hlength
      · exact (hsucc.trans (congrArg (· + 1) hcount)).trans hok.symm
      · rw [Exec.stateAfter, hok, hstored]
        exact harrived.symm
      · rw [← UInt32.toNat_inj, hsucc, htotal] at hlast
        change (s.receivedChunks + 1).toNat < _
        omega

/-- A reply changes the sender only. -/
theorem Exact.reply (h : l.Exact sha256 E disk) {p : Nat} {addr : SocketAddr} {frame : Payload}
    (hframe : l.receiver.outbox[p]? = some (addr, frame)) (hnew : p ∉ l.toSender)
    (senderDisk : Option (List UInt8)) :
    (l.reply sha256 E senderDisk p frame).Exact sha256 E disk := by
  obtain ⟨credits, cursor, hle, hwaits, hsender⟩ := h.waits
  have hreply := h.replies _ (List.mem_of_getElem? hframe)
  obtain ⟨credits', cursor', hforward, hle', hwaits', hstep⟩ :=
    Exchange.dispatch_sender sha256 E.receiverAddr senderDisk hreply hle
  have hafter : (l.reply sha256 E senderDisk p frame).sender =
      E.sender sha256 credits' cursor' := by
    rw [Link.reply, hsender]
    exact hstep
  have hmoved : cursor'.toNat = cursor.toNat + (cursor'.toNat - cursor.toNat) := by omega
  have houtbox := congrArg TransferManager.outbox
    (E.sender_withSent sha256 credits credits' hmoved)
  rw [withSent_outbox, withEntry_outbox, ← hsender] at houtbox
  have harrived : weightAt chunkWeight (l.reply sha256 E senderDisk p frame).sender.outbox
      l.toReceiver = weightAt chunkWeight l.sender.outbox l.toReceiver := by
    rw [hafter, ← houtbox, weightAt_append chunkWeight _ h.books.toReceiver_subset]
  refine ⟨h.books.reply hframe hnew senderDisk, ⟨credits', cursor', hle', hwaits' hwaits, hafter⟩,
    h.replies, ?_⟩
  cases h.tally with
  | idle hreceiver hoffer => exact .idle hreceiver hoffer
  | receiving hentry hpeer hsize htotal hlength hcount hstored hopen =>
    exact .receiving hentry hpeer hsize htotal hlength hcount (hstored.trans harrived.symm) hopen
  | done hentry hcomplete hstored hall =>
    exact .done hentry hcomplete (hstored.trans harrived.symm) (hall.trans_eq harrived.symm)

/-- Without duplicates, the accounts stay exact. -/
theorem Run.exact (h : Run sha256 E disk n l) (hn : n = 0) : l.Exact sha256 E disk := by
  induction h with
  | start =>
    rw [E.offerFile_eq]
    exact ⟨books_start, ⟨0, 0, Nat.zero_le _, Or.inl rfl, rfl⟩, nofun,
      .idle rfl fun hmem => absurd hmem (Finset.notMem_empty 0)⟩
  | @deliver n l p frame _ hframe hnew ih =>
    obtain ⟨credits, cursor, hle, -, hsender⟩ := (ih hn).waits
    have hcases := hframe
    rw [hsender] at hcases
    rcases E.sender_outbox_cases sha256 hcases with ⟨rfl, rfl⟩ | ⟨i, hi, rfl, rfl⟩
    · exact (ih hn).deliverOffer hframe hnew
    · exact (ih hn).deliverChunk hle hi hsender hnew
  | corrupt => cases hn
  | @reply n l senderDisk p frame _ hframe hnew ih =>
    exact (ih hn).reply hframe hnew senderDisk

/-- In every state of every run, from the first grant on, the credits are conserved exactly
if no chunk that has arrived so far failed its hash. -/
theorem conserved_iff (h : Run sha256 E disk n l) (hgranted : Granted E l) :
    l.Conserved E ↔ n = 0 := by
  have hbooks := h.books
  rw [hbooks.balanced_iff hgranted]
  constructor
  · intro heq
    have hlost := hbooks.lost
    omega
  · intro hn
    cases (h.exact hn).tally with
    | idle hreceiver =>
      rw [Granted, hreceiver] at hgranted
      cases hgranted
    | receiving _ _ _ _ _ _ hstored => exact hstored
    | done _ _ hstored => exact hstored

/-- A state that is reached is reached without duplicates. -/
theorem Reachable.run (h : Reachable sha256 E disk l) : Run sha256 E disk 0 l := by
  induction h with
  | start => exact .start
  | deliver p frame _ hframe hnew ih => exact ih.deliver p frame hframe hnew
  | reply senderDisk p frame _ hframe hnew ih => exact ih.reply senderDisk p frame hframe hnew

/-- The first credits are on their way. -/
theorem conserved_sample : Granted sampleExchange
      ⟨sampleExchange.sender Sha256.digest 0 0,
        offeredReceiver Sha256.digest sampleExchange [], {0}, ∅⟩ ∧
    Conserved sampleExchange
      ⟨sampleExchange.sender Sha256.digest 0 0,
        offeredReceiver Sha256.digest sampleExchange [], {0}, ∅⟩ := by
  have hgranted : Granted sampleExchange
      ⟨sampleExchange.sender Sha256.digest 0 0,
        offeredReceiver Sha256.digest sampleExchange [], {0}, ∅⟩ :=
    List.mem_cons_of_mem _ List.mem_cons_self
  exact ⟨hgranted,
    (conserved_iff (reachable_offered Sha256.digest sampleExchange []).run hgranted).mpr rfl⟩

/-- The first chunk arrives with other bytes, and its credit is gone. -/
theorem rejected_chunk_loses_credit : ∃ l, Run Sha256.digest sampleExchange (some []) 1 l ∧
    Granted sampleExchange l ∧ ¬l.Conserved sampleExchange := by
  obtain ⟨l, hreach, hstage⟩ := exists_stage_zero (E := sampleExchange) Sha256.digest [] (by decide)
  obtain ⟨credits, cursor, hcursor, -, -, hsender⟩ := hstage.sender
  have hframe := sampleExchange.sender_outbox_succ Sha256.digest credits hcursor
  rw [← hsender] at hframe
  have hnew : 1 ∉ l.toReceiver := by simp [hstage.delivered]
  have hhash : hashChunk Sha256.digest [9, 9] ≠
      (sampleExchange.chunk Sha256.digest 0).chunkHash := by decide +kernel
  have hrun := hreach.run.corrupt 1 _
    { sampleExchange.chunk Sha256.digest 0 with data := [9, 9] } hframe hnew rfl hhash
  have hbooks := hrun.books
  have hgranted : Granted sampleExchange (l.deliver Sha256.digest sampleExchange (some []) 1
      (.fileChunk { sampleExchange.chunk Sha256.digest 0 with data := [9, 9] })) := by
    obtain ⟨s, hentry, -⟩ := hstage.receiver
    rw [Granted, deliver, dispatch, handleChunk_of_bad_hash Guards.not_plain_blocks hentry hhash]
    exact List.mem_append_left _ (hreach.run.books.granted hentry)
  refine ⟨_, hrun, hgranted, fun hconserved => ?_⟩
  have heq := (hbooks.balanced_iff hgranted).mp hconserved
  have hlost := hbooks.lost
  omega

/-! ## Quiet states -/

/-- Every frame has been delivered. -/
def Quiet (l : Link) : Prop :=
  Finset.range l.sender.outbox.length ⊆ l.toReceiver ∧
    Finset.range l.receiver.outbox.length ⊆ l.toSender

/-- The receiver has reported the file as complete and given up the transfer. -/
def Completed (E : Exchange) (l : Link) : Prop :=
  l.receiver.activeTransfers E.id = none ∧
    ∃ addr complete, (addr, Payload.fileComplete complete) ∈ l.receiver.outbox

/-- Once all is quiet the first grant is back with the sender, so every chunk was sent and
has arrived. -/
theorem Exact.arrived_of_quiet (h : l.Exact sha256 E disk) (hgranted : Granted E l)
    (hstored : sentWeight okWeight l.receiver.outbox =
      weightAt chunkWeight l.sender.outbox l.toReceiver) (hquiet : l.Quiet) :
    weightAt chunkWeight l.sender.outbox l.toReceiver = E.totalChunks.toNat := by
  obtain ⟨s, hs, hsum⟩ := (h.books.balanced_iff hgranted).mpr hstored
  obtain ⟨credits, cursor, hle, hwaits, hsender⟩ := h.waits
  have hchunks := inFlight_add_weightAt chunkWeight h.books.toReceiver_subset
  rw [inFlight_eq_zero chunkWeight hquiet.1] at hsum hchunks
  rw [inFlight_eq_zero creditWeight hquiet.2] at hsum
  rw [hsender] at hs
  cases (E.sender_entry sha256 credits cursor).symm.trans hs
  have hcursor : cursor.toNat = E.totalChunks.toNat := by
    refine hwaits.resolve_left fun hzero => ?_
    rw [hzero] at hsum
    change (0 : UInt32).toNat + 0 + 0 = 50 at hsum
    exact absurd hsum (by decide)
  rw [← hcursor, ← sentWeight_sender sha256 credits cursor, ← hsender]
  omega

/-- With chunks to send, a quiet exchange is complete. -/
theorem Reachable.completed_of_quiet {content : List UInt8}
    (h : Reachable sha256 E (some content) l) (hoffer : 0 ∈ l.toReceiver) (hquiet : l.Quiet)
    (hsome : E.totalChunks ≠ 0) : l.Completed E := by
  have hexact := h.run.exact rfl
  cases hexact.tally with
  | idle _ hnone => cases hnone hoffer
  | done hentry hcomplete => exact ⟨hentry, hcomplete⟩
  | receiving hentry _ _ _ _ hcount hstored hopen =>
    have harrived := hexact.arrived_of_quiet (hexact.books.granted hentry) hstored hquiet
    have hless := hopen.resolve_right hsome
    omega

/-- Without chunks the exchange is quiet as soon as the offer is answered, and the receiver
waits. -/
theorem exists_quiet_of_totalChunks_zero (sha256 : List UInt8 → Vector UInt8 32)
    (content : List UInt8) (hzero : E.totalChunks = 0) :
    ∃ l, Reachable sha256 E (some content) l ∧ 0 ∈ l.toReceiver ∧ l.Quiet ∧
      ∃ s, l.receiver.activeTransfers E.id = some (.receiving s) := by
  have hreach := ((reachable_offered sha256 E content).reply none 0 _ rfl
    (Finset.notMem_empty 0)).reply none 1 _ rfl (by simp [Link.reply])
  refine ⟨_, hreach, Finset.mem_singleton_self 0, ⟨?_, ?_⟩, _, Function.update_self _ _ _⟩
  · obtain ⟨credits, cursor, hle, -, hsender⟩ := (hreach.run.exact rfl).waits
    rw [hzero, UInt32.toNat_zero, Nat.le_zero] at hle
    have hlength : (E.sender sha256 credits cursor).outbox.length = 1 := by
      simp [Exchange.sender, TransferManager.new, hle]
    rw [hsender, hlength]
    exact Finset.Subset.refl _
  · intro p hp
    have hlt : p < 2 := Finset.mem_range.mp hp
    rw [Link.reply, Link.reply, Finset.mem_insert, Finset.mem_insert]
    omega

/-- Every run that goes quiet after the offer has completed the transfer exactly if there is a
chunk to send: the number of chunks is not 0, and does not become 0 in 32 bits. -/
theorem quiet_completed_iff (sha256 : List UInt8 → Vector UInt8 32) (E : Exchange) :
    (∀ content l, Reachable sha256 E (some content) l → 0 ∈ l.toReceiver → l.Quiet →
      l.Completed E) ↔ ¬2 ^ 32 ∣ chunkCount E.file.length E.chunkSize.toNat := by
  have htotal : E.totalChunks.toNat = _ := toNat_computeTotalChunks E.chunkSize_ne_zero
  rw [E.toNat_fileSize] at htotal
  have hiff : E.totalChunks = 0 ↔ 2 ^ 32 ∣ chunkCount E.file.length E.chunkSize.toNat := by
    rw [← UInt32.toNat_inj, htotal, UInt32.toNat_zero, Nat.dvd_iff_mod_eq_zero]
  rw [← hiff]
  constructor
  · intro hcompleted hzero
    obtain ⟨l, hreach, hoffer, hquiet, s, hs⟩ :=
      exists_quiet_of_totalChunks_zero sha256 [] hzero
    obtain ⟨hnone, -⟩ := hcompleted [] l hreach hoffer hquiet
    rw [hnone] at hs
    cases hs
  · intro hsome content l hreach hoffer hquiet
    exact hreach.completed_of_quiet hoffer hquiet hsome

/-- A file without a byte. -/
def emptyExchange : Exchange :=
  { sampleExchange with
    file := []
    size_lt := by decide }

/-- Offer, accept and credits are delivered, and the receiver waits for a chunk that the
sender does not have. -/
theorem empty_file_never_completes :
    ∃ l, Reachable Sha256.digest emptyExchange (some []) l ∧ 0 ∈ l.toReceiver ∧ l.Quiet ∧
      ¬l.Completed emptyExchange := by
  obtain ⟨l, hreach, hoffer, hquiet, s, hs⟩ :=
    exists_quiet_of_totalChunks_zero (E := emptyExchange) Sha256.digest [] (by decide)
  refine ⟨l, hreach, hoffer, hquiet, fun hcompleted => ?_⟩
  rw [hcompleted.1] at hs
  cases hs

end Link

end CekyP2P.Transfer
