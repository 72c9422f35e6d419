import CekyP2P.Crypto.Session
import CekyP2P.Protocol.TransferCodec
import CekyP2P.Transfer.Ledger
import CekyP2P.Transport.Connection

/-!
# The size of transfer frames

The transfer manager chooses the size of a payload, the session adds a tag to it, and the
codec limits it: a frame that is too long ends the writer task of its connection. An offer
sets no bound to its chunk size and to the number of chunks, so both the chunks and the bitmap
of the answer can be too long.
-/

namespace CekyP2P.Transfer

open Protocol TransferManager

/-! ## What is emitted in a run -/

/-- A message moves the sender on to counted chunks only. -/
theorem SendingState.lt_of_mem_heard {s : SendingState} {msg : Message} {i : UInt32}
    (hi : i ∈ (s.heard msg).2) : i < s.totalChunks := by
  cases msg with
  | fileOffer | fileAccept | fileChunk => cases hi
  | creditUpdate id credits => exact (SendingState.mem_pumped hi).2.1
  | fileChunkAck ack =>
    rw [← (sameFile_acknowledged s ack).totalChunks_eq]
    exact (SendingState.mem_pumped hi).2.1

variable (sha256 : List UInt8 → Vector UInt8 32)

/-- The frames that the two managers emit for an exchange. -/
inductive Exchange.Emission (E : Exchange) : Payload → Prop
  | offer : Emission E (.fileOffer (E.offer sha256))
  | chunk (i : UInt32) (hi : i < E.totalChunks) : Emission E (.fileChunk (E.chunk sha256 i))
  | accept : Emission E (.fileAccept (.new E.id (allMissing E.totalChunks)))
  | credit (credits : UInt32) : Emission E (.creditUpdate E.id credits)
  | ack (ack : FileChunkAck) : Emission E (.fileChunkAck ack)
  | complete (complete : FileComplete) : Emission E (.fileComplete complete)

namespace Link

/-- The sender holds the file of the exchange, and both sides have emitted its frames only. -/
structure Emits (E : Exchange) (l : Link) : Prop where
  source : ∃ s, l.sender.activeTransfers E.id = some (.sending s) ∧
    (offered E.receiverAddr E.file E.chunkSize).SameFile s
  sent : ∀ f ∈ l.sender.outbox, E.Emission sha256 f.2
  answered : ∀ f ∈ l.receiver.outbox, E.Emission sha256 f.2

variable {sha256} {E : Exchange} {disk : Option (List UInt8)} {n : Nat} {l : Link}

/-- At the start only the offer was sent. -/
theorem emits_start : Emits sha256 E ⟨E.sender sha256 0 0, .new E.receiverDir, ∅, ∅⟩ where
  source := ⟨_, E.sender_entry sha256 0 0, rfl, rfl, rfl, rfl⟩
  sent := by
    intro f hf
    rw [List.mem_singleton.mp hf]
    exact .offer
  answered := nofun

/-- Only the receiver acts on a frame of the sender. -/
theorem Emits.received (h : l.Emits sha256 E) (p : Nat) {m' : TransferManager}
    {frames : List (SocketAddr × Payload)} (houtbox : m'.outbox = l.receiver.outbox ++ frames)
    (hframes : ∀ f ∈ frames, E.Emission sha256 f.2) :
    Emits sha256 E { l with receiver := m', toReceiver := insert p l.toReceiver } where
  source := h.source
  sent := h.sent
  answered := by
    intro f hf
    rw [houtbox, List.mem_append] at hf
    exact hf.elim (h.answered f) (hframes f)

/-- Delivering the offer leads to replies. -/
theorem Emits.deliverOffer (h : l.Emits sha256 E) (p : Nat) (disk : Option (List UInt8)) :
    (l.deliver sha256 E disk p (.fileOffer (E.offer sha256))).Emits sha256 E := by
  cases disk with
  | none =>
    rw [deliver, dispatch, handleOffer_of_none]
    exact h.received p (List.append_nil _).symm (List.forall_mem_nil _)
  | some content =>
    rw [deliver, dispatch, handleOffer_of_some Guards.not_plain_blocks]
    refine h.received p rfl ?_
    intro f hf
    rcases List.mem_pair.mp hf with rfl | rfl
    · exact .accept
    · exact .credit 50

/-- Delivering a chunk leads to replies. -/
theorem Emits.deliverChunk (h : l.Emits sha256 E) (p : Nat) {chunk : FileChunk}
    (hid : chunk.transferId = E.id) (disk : Option (List UInt8)) :
    (l.deliver sha256 E disk p (.fileChunk chunk)).Emits sha256 E := by
  have hblocks : ¬Guards.plain.Blocks chunk.transferId := Guards.not_plain_blocks
  obtain ⟨-, houtcome⟩ := handleChunk_outcome sha256 hblocks l.receiver
  obtain ⟨frames, houtbox, -, -, -, hanswers⟩ := houtcome.answers
  refine h.received p houtbox ?_
  rintro ⟨addr, payload⟩ hf
  obtain ⟨hanswer, hnot⟩ := hanswers _ hf
  rw [hid] at hanswer
  cases hanswer with
  | accept accept _ => exact absurd rfl (hnot accept)
  | credit credits => exact .credit credits
  | ack ack _ => exact .ack ack
  | complete complete => exact .complete complete

/-- The sender goes on with chunks of the same file. -/
theorem Emits.heard (h : l.Emits sha256 E) (hfits : l.sender.SendsFit) (p : Nat) (msg : Message)
    (hfor : msg.ForSender) (hid : msg.transferId = E.id) :
    Emits sha256 E { l with
      sender := Exec.stateAfter (handle sha256 .plain msg l.sender)
      toSender := insert p l.toSender } := by
  obtain ⟨s, hs, hfile⟩ := h.source
  have hentry := hs
  rw [← hid] at hentry
  have hafter := stateAfter_handle_of_sending sha256 hfits (fun _ => Guards.not_plain_blocks) hfor
    hentry fun _ _ => Guards.not_plain_blocks
  have hnext := s.sameFile_heard msg
  refine ⟨⟨(s.heard msg).1, ?_, ?_⟩, ?_, h.answered⟩
  · rw [hafter, ← hid]
    exact Function.update_self _ _ _
  · exact ⟨hnext.peer_eq.trans hfile.peer_eq, hnext.fileMap_eq.trans hfile.fileMap_eq,
      hnext.chunkSize_eq.trans hfile.chunkSize_eq, hnext.totalChunks_eq.trans hfile.totalChunks_eq⟩
  · intro f hf
    rw [hafter, withSent_outbox, withEntry_outbox, List.mem_append] at hf
    rcases hf with hold | hnew
    · exact h.sent f hold
    · obtain ⟨payload, hpayload, rfl⟩ := List.mem_map.mp hnew
      obtain ⟨i, hi, rfl⟩ := List.mem_map.mp hpayload
      have hlt := SendingState.lt_of_mem_heard hi
      rw [hfile.totalChunks_eq] at hlt
      rw [hid, hfile.chunkFrame_eq]
      exact .chunk i hlt

/-- A reply leads to chunks of the file. -/
theorem Emits.reply (h : l.Emits sha256 E) (hbooks : l.Books sha256 E n) {p : Nat}
    {addr : SocketAddr} {frame : Payload} (hframe : l.receiver.outbox[p]? = some (addr, frame))
    (disk : Option (List UInt8)) : (l.reply sha256 E disk p frame).Emits sha256 E := by
  cases hbooks.answers _ (List.mem_of_getElem? hframe) with
  | accept accept hid => exact h.heard hbooks.fits p (.fileAccept accept) trivial hid
  | credit credits => exact h.heard hbooks.fits p (.creditUpdate E.id credits) trivial rfl
  | ack ack hid => exact h.heard hbooks.fits p (.fileChunkAck ack) trivial hid
  | complete complete => exact ⟨h.source, h.sent, h.answered⟩

/-- The run: whatever is lost, reordered or rejected, nothing else is emitted. -/
theorem Run.emits (h : Run sha256 E disk n l) : l.Emits sha256 E := by
  induction h with
  | start =>
    rw [E.offerFile_eq]
    exact emits_start
  | @deliver n l p frame hrun hframe _ ih =>
    rcases hrun.books.frames p _ frame hframe with ⟨rfl, rfl⟩ | ⟨chunk, rfl, hid⟩
    · exact ih.deliverOffer 0 disk
    · exact ih.deliverChunk p hid disk
  | @corrupt n l p original chunk hrun hframe _ hsame _ ih =>
    rcases hrun.books.frames p _ _ hframe with ⟨-, hoffer⟩ | ⟨_, ⟨⟩, hid⟩
    · cases hoffer
    · exact ih.deliverChunk p (hsame.trans hid) disk
  | @reply n l senderDisk p frame hrun hframe _ ih => exact ih.reply hrun.books hframe senderDisk

end Link

end CekyP2P.Transfer

namespace CekyP2P.Node

open Crypto Protocol Transfer Transport

/-! ## The limit of the codec -/

/-- The frame that the event loop sends for a payload that it has encrypted. -/
def sealedFrame (payload : Payload) (encNonce : UInt64) (ciphertext : List UInt8) : Frame :=
  .new payload.msgType Flags.empty.withEncrypted encNonce ciphertext

/-- Under whatever session a payload is encrypted, it stays within the limit, the codec accepts
the frame, and the writer task that takes it from its queue goes on. -/
def PassesWriter (aead : Aead UInt8) (crc : Crc32c) (payload : Payload) : Prop :=
  ∀ (session : SecureSession) (encNonce : UInt64) (ciphertext : List UInt8),
    (session.encrypt aead payload.encode).1 = .ok (encNonce, ciphertext) →
      ciphertext.length ≤ maxPayloadSize.toNat ∧
      (∀ dst, Exec.isOk (FrameCodec.encode crc (sealedFrame payload encNonce ciphertext) dst)) ∧
      ∀ (e : Endpoint) (queue : List Frame), e.writing = true →
        e.queue = sealedFrame payload encNonce ciphertext :: queue →
          (e.write crc).1.writing = true

section

variable {aead : Aead UInt8} (crc : Crc32c) {payload : Payload}

/-- A payload that is not too large is encoded. -/
theorem encode_of_length_le {frame : Frame} (h : frame.payload.length ≤ maxPayloadSize.toNat)
    (dst : List UInt8) : ∃ dst', FrameCodec.encode crc frame dst = .ok () dst' := by
  have hlt : frame.payload.length < 2 ^ 32 := h.trans_lt maxPayloadSize.toNat_lt
  refine ⟨_, (FrameCodec.encode_eq_ok crc).mpr ⟨?_, rfl⟩⟩
  rw [UInt32.le_iff_toNat_le, UInt32.toNat_ofNat', Nat.mod_eq_of_lt hlt]
  exact h

/-- A payload over the limit, but below the size at which its length is cut off, ends the writer
task; what was still in the queue is lost. -/
theorem write_of_limit_lt {frame : Frame} (hlimit : maxPayloadSize.toNat < frame.payload.length)
    (hlt : frame.payload.length < 2 ^ 32) {e : Endpoint} {queue : List Frame}
    (hwriting : e.writing = true) (hqueue : e.queue = frame :: queue) :
    (e.write crc).1 = { e with queue := [], writing := false } := by
  have hlarge : maxPayloadSize < UInt32.ofNat frame.payload.length := by
    rw [UInt32.lt_iff_toNat_lt, UInt32.toNat_ofNat', Nat.mod_eq_of_lt hlt]
    exact hlimit
  have hencode := FrameCodec.encode_apply crc frame []
  rw [if_pos hlarge] at hencode
  simp [Endpoint.write, hwriting, hqueue, hencode]

/-- A fresh session encrypts every payload that the cipher takes. -/
theorem exists_encrypt (haead : aead.Lawful) {plaintext : List UInt8}
    (hshort : plaintext.length / 64 < 2 ^ 32 - 1) :
    ∃ ciphertext, ((SecureSession.fromKeys SecureSession.senderKeys).encrypt aead plaintext).1 =
      .ok (0, ciphertext) ∧ ciphertext.length = plaintext.length + tagSize := by
  have hsome := haead.encrypt_isSome SecureSession.senderKeys.sendKey (buildNonce 0) plaintext []
    hshort
  obtain ⟨ciphertext, hseal⟩ := Option.isSome_iff_exists.mp hsome
  refine ⟨ciphertext, ?_, haead.encrypt_length hseal⟩
  exact SecureSession.sealFrame_eq_ok.mpr ⟨rfl, by decide, hseal⟩

/-- The length of the payload decides, as the cipher takes payloads of this length. -/
theorem passesWriter_iff (haead : aead.Lawful) (hshort : payload.encode.length / 64 < 2 ^ 32 - 1) :
    PassesWriter aead crc payload ↔ payload.encode.length + tagSize ≤ maxPayloadSize.toNat := by
  constructor
  · intro h
    obtain ⟨ciphertext, hencrypt, hlength⟩ := exists_encrypt haead hshort
    rw [← hlength]
    exact (h _ _ _ hencrypt).1
  · intro hle session encNonce ciphertext hencrypt
    obtain ⟨-, -, hseal⟩ := SecureSession.sealFrame_eq_ok.mp hencrypt
    rw [← haead.encrypt_length hseal] at hle
    have hencode : ∀ dst, ∃ dst',
        FrameCodec.encode crc (sealedFrame payload encNonce ciphertext) dst = .ok () dst' :=
      encode_of_length_le crc hle
    refine ⟨hle, ?_, ?_⟩
    · intro dst
      obtain ⟨dst', hok⟩ := hencode dst
      rw [hok]
      rfl
    · intro e queue hwriting hqueue
      obtain ⟨bytes, hok⟩ := hencode []
      rw [Endpoint.write_of_encode hwriting hqueue hok]
      exact hwriting

end

/-! ## The frames of an exchange -/

/-- The bitmap of the answer and, if there are chunks, the first and longest of them, fit. -/
def FitsWire (E : Exchange) : Prop :=
  22 + bitmapLen E.totalChunks + tagSize ≤ maxPayloadSize.toNat ∧
    (0 < E.totalChunks → 53 + min E.chunkSize.toNat E.file.length + tagSize ≤ maxPayloadSize.toNat)

instance (E : Exchange) : Decidable (FitsWire E) := inferInstanceAs (Decidable (_ ∧ _))

section

variable (E : Exchange) (sha256 : List UInt8 → Vector UInt8 32)

/-- A chunk is no longer than the chunk size and the file. -/
theorem length_chunk_le (i : UInt32) :
    (E.chunk sha256 i).data.length ≤ min E.chunkSize.toNat E.file.length := by
  rw [Exchange.chunk, List.length_drop, List.length_take, chunkEnd]
  omega

/-- The size of the first chunk. -/
theorem length_encode_chunk_zero : (Payload.fileChunk (E.chunk sha256 0)).encode.length =
    53 + min E.chunkSize.toNat E.file.length := by
  have hstart : chunkStart 0 E.chunkSize = 0 := by simp [chunkStart]
  have hdata : (E.chunk sha256 0).data.length = min E.chunkSize.toNat E.file.length := by
    rw [Exchange.chunk, List.length_drop, List.length_take, chunkEnd, hstart]
    omega
  rw [Payload.length_encode]
  exact congrArg (53 + ·) hdata

/-- The size of the acceptance. -/
theorem length_encode_accept :
    (Payload.fileAccept (.new E.id (allMissing E.totalChunks))).encode.length =
      22 + bitmapLen E.totalChunks := by
  rw [Payload.length_encode]
  exact congrArg (22 + ·) List.length_replicate

variable {E sha256}

/-- A frame is short, or it is the answer, or it is a chunk. -/
theorem length_of_emission {payload : Payload} (h : E.Emission sha256 payload) :
    payload.encode.length ≤ 67 + maxFileNameLen ∨
      payload.encode.length = 22 + bitmapLen E.totalChunks ∨
      0 < E.totalChunks ∧
        payload.encode.length ≤ 53 + min E.chunkSize.toNat E.file.length := by
  cases h with
  | accept => exact Or.inr (Or.inl (length_encode_accept E))
  | chunk i hi =>
    refine Or.inr (Or.inr ⟨?_, ?_⟩)
    · rw [UInt32.lt_iff_toNat_lt] at hi ⊢
      exact Nat.zero_lt_of_lt hi
    · rw [Payload.length_encode]
      exact Nat.add_le_add_left (length_chunk_le E sha256 i) 53
  | offer =>
    rw [Payload.length_encode]
    exact Or.inl (Nat.add_le_add_left E.name_le 67)
  | credit credits =>
    rw [Payload.length_encode]
    exact Or.inl (show 20 ≤ 67 + maxFileNameLen by decide)
  | ack ack =>
    rw [Payload.length_encode]
    exact Or.inl (show 22 ≤ 67 + maxFileNameLen by decide)
  | complete complete =>
    rw [Payload.length_encode]
    exact Or.inl (show 49 ≤ 67 + maxFileNameLen by decide)

/-- No frame of an exchange is too long for the cipher. -/
theorem passesWriter_iff_of_emission {aead : Aead UInt8} (haead : aead.Lawful) (crc : Crc32c)
    {payload : Payload} (h : E.Emission sha256 payload) :
    PassesWriter aead crc payload ↔ payload.encode.length + tagSize ≤ maxPayloadSize.toNat := by
  apply passesWriter_iff crc haead
  have htotal := E.totalChunks.toNat_lt
  have hsize := E.chunkSize.toNat_lt
  have hname : maxFileNameLen = 255 := rfl
  have hlen := length_of_emission h
  rw [bitmapLen] at hlen
  omega

end

/-- Every frame that the two managers emit in a run of an exchange passes the writer, exactly
if the bitmap and the longest chunk fit. -/
theorem frames_pass_writer_iff (sha256 : List UInt8 → Vector UInt8 32) {aead : Aead UInt8}
    (haead : aead.Lawful) (crc : Crc32c) (E : Exchange) :
    (∀ disk n l, Link.Run sha256 E disk n l → ∀ f ∈ l.sender.outbox ++ l.receiver.outbox,
      PassesWriter aead crc f.2) ↔ FitsWire E := by
  constructor
  · intro h
    constructor
    · have hpasses : PassesWriter aead crc
          (.fileAccept (.new E.id (allMissing E.totalChunks))) :=
        h _ _ _ (Link.reachable_offered sha256 E []).run (E.senderAddr, _)
          (List.mem_append_right _ List.mem_cons_self)
      have hemission : E.Emission sha256 (.fileAccept (.new E.id (allMissing E.totalChunks))) :=
        .accept
      rw [passesWriter_iff_of_emission haead crc hemission, length_encode_accept] at hpasses
      exact hpasses
    · intro hpos
      obtain ⟨l, hreach, hstage⟩ :=
        Link.exists_stage_zero sha256 [] (UInt32.lt_iff_toNat_lt.mp hpos)
      obtain ⟨credits, cursor, hcursor, -, -, hsender⟩ := hstage.sender
      have hframe := E.sender_outbox_succ sha256 credits hcursor
      rw [← hsender] at hframe
      have hpasses : PassesWriter aead crc (.fileChunk (E.chunk sha256 0)) :=
        h _ _ _ hreach.run _ (List.mem_append_left _ (List.mem_of_getElem? hframe))
      have hemission : E.Emission sha256 (.fileChunk (E.chunk sha256 0)) := .chunk 0 hpos
      rw [passesWriter_iff_of_emission haead crc hemission, length_encode_chunk_zero] at hpasses
      exact hpasses
  · intro hfits disk n l hrun f hf
    have hemits := hrun.emits
    have hemission : E.Emission sha256 f.2 :=
      (List.mem_append.mp hf).elim (hemits.sent f) (hemits.answered f)
    rw [passesWriter_iff_of_emission haead crc hemission]
    rcases length_of_emission hemission with hshort | hanswer | ⟨hpos, hchunk⟩
    · exact (Nat.add_le_add_right hshort tagSize).trans (by decide)
    · rw [hanswer]
      exact hfits.1
    · exact (Nat.add_le_add_right hchunk tagSize).trans (hfits.2 hpos)

/-- The sample fits. -/
theorem sample_frames_pass_writer : zeroTagAead.Lawful ∧ FitsWire Link.sampleExchange ∧
    ∀ disk n l, Link.Run Sha256.digest Link.sampleExchange disk n l →
      ∀ f ∈ l.sender.outbox ++ l.receiver.outbox, PassesWriter zeroTagAead .castagnoli f.2 :=
  ⟨zeroTagAead_lawful, by decide,
    (frames_pass_writer_iff Sha256.digest zeroTagAead_lawful .castagnoli _).mpr (by decide)⟩

/-- A file of 16 MiB in one chunk. -/
def oneChunk : Exchange :=
  { Link.sampleExchange with
    file := List.replicate (16 * 1024 * 1024) 1
    chunkSize := 16 * 1024 * 1024
    size_lt := by rw [List.length_replicate]; decide
    chunkSize_ne_zero := by decide }

/-- The file has one chunk. -/
theorem totalChunks_oneChunk : oneChunk.totalChunks = 1 := by
  have hlen : oneChunk.file.length = 16777216 := List.length_replicate
  rw [Exchange.totalChunks, Exchange.fileSize, hlen]
  decide

/-- Its offer is accepted, the first credits arrive, and the chunk that is then sent ends the
writer task. -/
theorem first_chunk_ends_writer :
    ∃ (l : Link) (f : SocketAddr × Payload) (encNonce : UInt64) (ciphertext : List UInt8),
      Link.Run Sha256.digest oneChunk (some []) 0 l ∧ f ∈ l.sender.outbox ∧
      ((SecureSession.fromKeys SecureSession.senderKeys).encrypt zeroTagAead f.2.encode).1 =
        .ok (encNonce, ciphertext) ∧
      maxPayloadSize.toNat < ciphertext.length ∧
      ∀ (e : Endpoint) (queue : List Frame), e.writing = true →
        e.queue = sealedFrame f.2 encNonce ciphertext :: queue →
          (e.write .castagnoli).1 = { e with queue := [], writing := false } := by
  have hsome : 0 < oneChunk.totalChunks.toNat := by
    rw [totalChunks_oneChunk]
    decide
  obtain ⟨l, hreach, hstage⟩ := Link.exists_stage_zero (E := oneChunk) Sha256.digest [] hsome
  obtain ⟨credits, cursor, hcursor, -, -, hsender⟩ := hstage.sender
  have hframe := oneChunk.sender_outbox_succ Sha256.digest credits hcursor
  rw [← hsender] at hframe
  have hfile : oneChunk.file.length = 16777216 := List.length_replicate
  have hsize : oneChunk.chunkSize.toNat = 16777216 := rfl
  have hlen := length_encode_chunk_zero oneChunk Sha256.digest
  rw [hfile, hsize, Nat.min_self] at hlen
  have hshort : (Payload.fileChunk (oneChunk.chunk Sha256.digest 0)).encode.length / 64 <
      2 ^ 32 - 1 := by omega
  obtain ⟨ciphertext, hencrypt, hlength⟩ := exists_encrypt zeroTagAead_lawful hshort
  have htag : tagSize = 16 := rfl
  have hlimit : maxPayloadSize.toNat < ciphertext.length := by
    rw [show maxPayloadSize.toNat = 16777216 from rfl]
    omega
  have hlt : ciphertext.length < 2 ^ 32 := by omega
  refine ⟨l, _, 0, ciphertext, hreach.run, List.mem_of_getElem? hframe, hencrypt, hlimit, ?_⟩
  intro e queue hwriting hqueue
  exact write_of_limit_lt .castagnoli hlimit hlt hwriting hqueue

end CekyP2P.Node
