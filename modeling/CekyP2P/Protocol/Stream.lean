import CekyP2P.Core.Incremental
import CekyP2P.Protocol.Codec

/-!
# Frame streams

A `FrameCodec` under `FramedRead`: bytes arrive in pieces, and `decode` is called after
each piece until it asks for more. The codec is an incremental decoder, so only
the bytes matter and not the pieces.
-/

namespace CekyP2P.Protocol.FrameCodec

open Incremental

variable {crc : Crc32c}

/-- What a call of `decode` amounts to for its caller. -/
def answer : EStateM.Result (Stop ProtocolError) Decoding (Option Frame) →
    Outcome DecodeState UInt8 Frame (Stop ProtocolError)
  | .ok none d => .more d.state
  | .ok (some frame) d => .item frame d.state d.src
  | .error e _ => .error e

/-- More bytes do not change a payload that is complete. -/
theorem payloadOf_append {header : FrameHeader} {src : List UInt8}
    (h : headerSize + header.payloadLen.toNat ≤ src.length) (extra : List UInt8) :
    payloadOf header (src ++ extra) = payloadOf header src := by
  rw [payloadOf, payloadOf, List.drop_append_of_le_length (by omega),
    List.take_append_of_le_length (by rw [List.length_drop]; omega)]

/-- Once the payload is there, bytes behind it change nothing. -/
theorem answer_decodePayload_append {header : FrameHeader} {src : List UInt8}
    (h : headerSize + header.payloadLen.toNat ≤ src.length) (state : DecodeState)
    (extra : List UInt8) : answer (decodePayload crc header ⟨state, src ++ extra⟩) =
      (answer (decodePayload crc header ⟨state, src⟩)).extend extra := by
  have hlong : ¬(src ++ extra).length < headerSize + header.payloadLen.toNat := by
    rw [List.length_append]
    omega
  rw [decodePayload_apply, decodePayload_apply, if_neg hlong, if_neg (Nat.not_lt.mpr h),
    payloadOf_append h]
  split
  · rfl
  · rw [List.drop_append_of_le_length h]
    rfl

/-- A payload that is complete is not waited for. -/
theorem answer_decodePayload_ne_more {header : FrameHeader} {src : List UInt8}
    (h : headerSize + header.payloadLen.toNat ≤ src.length) (state state' : DecodeState) :
    answer (decodePayload crc header ⟨state, src⟩) ≠ .more state' := by
  rw [decodePayload_apply, if_neg (Nat.not_lt.mpr h)]
  split <;> exact nofun

/-- A call with more bytes goes on from where it asked for them; any other answer it repeats. -/
theorem answer_decode_append (state : DecodeState) (src extra : List UInt8) :
    (∃ state', answer (decode crc ⟨state, src⟩) = .more state' ∧
      answer (decode crc ⟨state, src ++ extra⟩) = answer (decode crc ⟨state', src ++ extra⟩)) ∨
    (∀ state', answer (decode crc ⟨state, src⟩) ≠ .more state') ∧
      answer (decode crc ⟨state, src ++ extra⟩) =
        (answer (decode crc ⟨state, src⟩)).extend extra := by
  cases state with
  | payload header =>
    by_cases hshort : src.length < headerSize + header.payloadLen.toNat
    · refine .inl ⟨.payload header, ?_, rfl⟩
      change answer (decodePayload crc header _) = _
      rw [decodePayload_apply, if_pos hshort]
      rfl
    · have htotal := Nat.not_lt.mp hshort
      exact .inr ⟨answer_decodePayload_ne_more htotal _, answer_decodePayload_append htotal _ extra⟩
  | header =>
    by_cases hshort : src.length < headerSize
    · refine .inl ⟨.header, ?_, rfl⟩
      rw [decode_header_of_short crc hshort]
      rfl
    have hlen := Nat.not_lt.mp hshort
    have hlen' : headerSize ≤ (src ++ extra).length := by
      rw [List.length_append]
      omega
    have htake : (src ++ extra).take headerSize = src.take headerSize :=
      List.take_append_of_le_length hlen
    cases hheader : decodeHeader (src.take headerSize) with
    | error e =>
      rw [decode_header_of_error crc hlen hheader,
        decode_header_of_error crc hlen' (htake ▸ hheader)]
      exact .inr ⟨nofun, rfl⟩
    | ok header =>
      rw [decode_header_of_ok crc hlen hheader, decode_header_of_ok crc hlen' (htake ▸ hheader)]
      by_cases hwait : src.length < headerSize + header.payloadLen.toNat
      · have hstate : stateFor header = .payload header := by
          apply if_neg
          intro hzero
          simp only [hzero, UInt32.toNat_zero] at hwait
          omega
        rw [hstate]
        refine .inl ⟨.payload header, ?_, rfl⟩
        rw [decodePayload_apply, if_pos hwait]
        rfl
      · have htotal := Nat.not_lt.mp hwait
        exact .inr
          ⟨answer_decodePayload_ne_more htotal _, answer_decodePayload_append htotal _ extra⟩

/-- The codec as an incremental decoder. -/
def frameDecoder (crc : Crc32c) : Decoder DecodeState UInt8 Frame (Stop ProtocolError) where
  decode state src := answer (decode crc ⟨state, src⟩)
  init := .header
  init_more := by
    rw [decode_header_of_short crc (by decide)]
    rfl
  progress := by
    intro state src frame state' rest h
    have hcall := decode_call crc ⟨state, src⟩
    generalize decode crc ⟨state, src⟩ = result at h hcall
    cases hcall with
    | waits state => cases h
    | fails e state => cases h
    | takes frame hpos hle =>
      cases h
      rw [List.length_drop]
      exact Nat.sub_lt (Nat.lt_of_lt_of_le hpos hle) hpos
  item_append := by
    intro state src frame state' rest h extra
    rcases answer_decode_append state src extra with ⟨_, hmore, -⟩ | ⟨-, hsame⟩
    · rw [h] at hmore
      cases hmore
    · rw [hsame, h]
      rfl
  error_append := by
    intro state src e h extra
    rcases answer_decode_append state src extra with ⟨_, hmore, -⟩ | ⟨-, hsame⟩
    · rw [h] at hmore
      cases hmore
    · rw [hsame, h]
      rfl
  more_append := by
    intro state src state' h extra
    rcases answer_decode_append state src extra with ⟨_, hmore, hsame⟩ | ⟨hne, -⟩
    · rw [h] at hmore
      cases hmore
      exact hsame
    · exact absurd h (hne state')

/-- The frame decoder answers as the codec does. -/
theorem frameDecoder_decode (state : DecodeState) (src : List UInt8) :
    (frameDecoder crc).decode state src = answer (decode crc ⟨state, src⟩) := rfl

/-- A fresh codec is fed a stream in pieces. -/
def decodePieces (crc : Crc32c) (pieces : List (List UInt8)) :
    Progress DecodeState UInt8 Frame (Stop ProtocolError) :=
  (frameDecoder crc).feedAll pieces

/-- The frames, the first error, the number of consumed bytes, and also what is left waiting
are the same for all ways of cutting a stream. -/
theorem decodePieces_congr (crc : Crc32c) (stream : List UInt8) (pieces pieces' : List (List UInt8))
    (h : pieces.flatten = stream) (h' : pieces'.flatten = stream) :
    decodePieces crc pieces = decodePieces crc pieces' := by
  rw [decodePieces, decodePieces, Decoder.feedAll_eq_drain, Decoder.feedAll_eq_drain, h, h']

/-- A frame, its last byte damaged, whole and in three pieces. -/
theorem decodePieces_damaged :
    decodePieces .castagnoli [bytes sampleFrame ++ (bytes sampleFrame).take 23 ++ [4]] =
      decodePieces .castagnoli [(bytes sampleFrame).take 7, (bytes sampleFrame).drop 7,
        (bytes sampleFrame).take 23 ++ [4]] :=
  decodePieces_congr .castagnoli (bytes sampleFrame ++ (bytes sampleFrame).take 23 ++ [4]) _ _
    (by decide) (by decide)

/-! ## Round trip -/

/-- The frame that `Frame::new` builds from a payload that is small enough. -/
def Built (frame : Frame) : Prop :=
  ∃ msgType flags requestId payload, payload.length ≤ maxPayloadSize.toNat ∧
    frame = .new msgType flags requestId payload

/-- The frame with its checksum computed. -/
def withChecksum (crc : Crc32c) (frame : Frame) : Frame :=
  { frame with header.checksum := computeChecksum crc frame.header frame.payload }

/-- Encode frames one after the other into one buffer. -/
def encodeAll (crc : Crc32c) : List Frame → Exec ProtocolError (List UInt8) Unit
  | [] => pure ()
  | frame :: frames => do
    encode crc frame
    encodeAll crc frames

/-- What `Frame::new` makes is well formed once it has its checksum. -/
theorem Built.wellFormed (crc : Crc32c) {frame : Frame} (h : Built frame) :
    WellFormed crc (withChecksum crc frame) := by
  obtain ⟨msgType, flags, requestId, payload, hlen, rfl⟩ := h
  have hsmall : payload.length < UInt32.size := Nat.lt_of_le_of_lt hlen (by decide)
  have hpayload : (UInt32.ofNat payload.length).toNat = payload.length :=
    UInt32.toNat_ofNat_of_lt' hsmall
  refine ⟨⟨rfl, rfl, ?_⟩, hpayload.symm, rfl⟩
  rw [UInt32.le_iff_toNat_le]
  exact hpayload ▸ hlen

/-- The encoder does not read the checksum of the frame. -/
theorem Built.encode_eq {frame : Frame} (h : Built frame) (dst : List UInt8) :
    encode crc frame dst = .ok () (dst ++ bytes (withChecksum crc frame)) :=
  (h.wellFormed crc).encode_eq dst

/-- Frames are encoded one after the other. -/
theorem encodeAll_eq {frames : List Frame} (h : ∀ frame ∈ frames, Built frame)
    (dst : List UInt8) : encodeAll crc frames dst =
      .ok () (dst ++ (frames.map (withChecksum crc)).flatMap bytes) := by
  induction frames generalizing dst with
  | nil => simp [encodeAll]
  | cons frame frames ih =>
    obtain ⟨hframe, hframes⟩ := List.forall_mem_cons.mp h
    rw [encodeAll, Exec.bind_apply, hframe.encode_eq]
    simp only [ih hframes, List.map_cons, List.flatMap_cons, List.append_assoc]

/-- A stream of well-formed frames is decoded to the end. -/
theorem drain_bytes {frames : List Frame} (h : ∀ frame ∈ frames, WellFormed crc frame) :
    (frameDecoder crc).drain .header (frames.flatMap bytes) =
      ⟨frames, (frames.flatMap bytes).length, .waiting .header []⟩ := by
  induction frames with
  | nil => exact Decoder.drain_of_more (frameDecoder crc).init_more
  | cons frame frames ih =>
    obtain ⟨hframe, hframes⟩ := List.forall_mem_cons.mp h
    have hitem : (frameDecoder crc).decode .header (bytes frame ++ frames.flatMap bytes) =
        .item frame .header (frames.flatMap bytes) := by
      rw [frameDecoder_decode, decode_header_eq_some.mpr ⟨hframe, rfl, rfl⟩]
      rfl
    rw [List.flatMap_cons, Decoder.drain_of_item hitem, ih hframes, Progress.after]
    simp [List.length_append]

/-- Frames that are encoded in order come out of any pieces of the stream, with their
checksums, and nothing is left over. -/
theorem decodePieces_encodeAll (crc : Crc32c) (frames : List Frame)
    (h : ∀ frame ∈ frames, Built frame) :
    ∃ stream, encodeAll crc frames [] = .ok () stream ∧
      ∀ pieces : List (List UInt8), pieces.flatten = stream →
        decodePieces crc pieces =
          ⟨frames.map (withChecksum crc), stream.length, .waiting .header []⟩ := by
  refine ⟨(frames.map (withChecksum crc)).flatMap bytes, encodeAll_eq h [], ?_⟩
  intro pieces hpieces
  rw [decodePieces, Decoder.feedAll_eq_drain, hpieces]
  apply drain_bytes
  intro frame hframe
  obtain ⟨original, horiginal, rfl⟩ := List.mem_map.mp hframe
  exact (h original horiginal).wellFormed crc

/-- A frame without payload and one with three bytes. -/
def sampleFrames : List Frame := [.simple .disconnect 1, .new .data .empty 7 [1, 2, 3]]

/-- Frames as `Frame::new` makes them. -/
theorem sampleFrames_built : ∀ frame ∈ sampleFrames, Built frame := by
  intro frame hframe
  rcases List.mem_pair.mp hframe with rfl | rfl
  · exact ⟨.disconnect, .empty, 1, [], by decide, rfl⟩
  · exact ⟨.data, .empty, 7, [1, 2, 3], by decide, rfl⟩

/-- They are read back, in whatever pieces they come. -/
theorem sampleFrames_roundTrip :
    ∃ stream, encodeAll .castagnoli sampleFrames [] = .ok () stream ∧
      ∀ pieces : List (List UInt8), pieces.flatten = stream →
        decodePieces .castagnoli pieces =
          ⟨sampleFrames.map (withChecksum .castagnoli), stream.length, .waiting .header []⟩ :=
  decodePieces_encodeAll .castagnoli sampleFrames sampleFrames_built

end CekyP2P.Protocol.FrameCodec
