import CekyP2P.Core.Buf
import CekyP2P.Protocol.Frame

/-!
# The frame codec

Encoder and resumable decoder of frames. The decoder leaves a header in the buffer while it
waits for the payload and remembers only what the header said. CRC32C is a parameter.
-/

namespace CekyP2P.Protocol

open Reader

/-- The two functions of the `crc32c` crate. -/
structure Crc32c where
  crc32c : List UInt8 → UInt32
  crc32cAppend : UInt32 → List UInt8 → UInt32

namespace Crc32c

/-- One bit, with the reflected polynomial. -/
def shift (crc : UInt32) : UInt32 :=
  if crc &&& 1 = 1 then crc >>> 1 ^^^ 0x82F63B78 else crc >>> 1

/-- One byte is mixed into the register. -/
def update (crc : UInt32) (byte : UInt8) : UInt32 := Nat.iterate shift 8 (crc ^^^ byte.toUInt32)

/-- The functions that the crate computes. -/
def castagnoli : Crc32c where
  crc32c data := ~~~data.foldl update 0xFFFFFFFF
  crc32cAppend crc data := ~~~data.foldl update (~~~crc)

/-- Appending continues the checksum of what came before. -/
theorem castagnoli_append (a b : List UInt8) :
    castagnoli.crc32cAppend (castagnoli.crc32c a) b = castagnoli.crc32c (a ++ b) := by
  simp [castagnoli]

example : castagnoli.crc32c (List.range' 0x31 9 |>.map UInt8.ofNat) = 0xE3069283 := by
  decide +kernel

end Crc32c

/-- The header fields in wire order, without the checksum. -/
def FrameHeader.checksummed (header : FrameHeader) : List UInt8 :=
  toBeBytes 2 header.magic.toNat ++ [header.version] ++ [header.msgType.asByte] ++
    [header.flags.bits] ++ toBeBytes 4 header.payloadLen.toNat ++
    toBeBytes 8 header.requestId.toNat

namespace FrameCodec

/-- The checksum over the header fields and the payload. -/
def computeChecksum (crc : Crc32c) (header : FrameHeader) (payload : List UInt8) : UInt32 :=
  let headerCrc := crc.crc32c header.checksummed
  crc.crc32cAppend headerCrc payload

/-- The checks and reads of `decode_header`, in the order of the source. -/
def readHeader : Reader ProtocolError FrameHeader := do
  let magic ← getU16
  if magic ≠ Protocol.magic then throw (.error (.invalidMagic magic))
  else do
    let version ← getU8
    if version ≠ Protocol.version then throw (.error (.unsupportedVersion version))
    else do
      let code ← getU8
      let msgType ← Exec.orError (.unknownMessageType code) (MessageType.fromByte code)
      let flags ← getU8
      let payloadLen ← getU32
      if maxPayloadSize < payloadLen then throw (.error (.payloadTooLarge payloadLen))
      else do
        let requestId ← getU64
        let checksum ← getU32
        pure { magic, version, msgType, flags := ⟨flags⟩, payloadLen, requestId, checksum }

/-- The header in the first bytes of a frame. -/
def decodeHeader (src : List UInt8) : Except (Stop ProtocolError) FrameHeader :=
  readHeader.parse src

/-- Whether the header of the next frame was read. -/
inductive DecodeState
  | header
  | payload (header : FrameHeader)
  deriving DecidableEq

/-- A codec and the buffer it decodes from. -/
structure Decoding where
  state : DecodeState
  src : List UInt8

variable (crc : Crc32c)

/-- The branch of the decode loop that waits for a payload. -/
def decodePayload (header : FrameHeader) : Exec ProtocolError Decoding (Option Frame) := do
  let d ← get
  let total := headerSize + header.payloadLen.toNat
  if d.src.length < total then pure none
  else do
    let payload ← Exec.slice d.src headerSize (headerSize + header.payloadLen.toNat)
    let computed := computeChecksum crc header payload
    if computed ≠ header.checksum then
      throw (.error (.checksumMismatch header.checksum computed))
    else do
      let frameBuf := d.src.take total
      set { d with state := .header, src := d.src.drop total : Decoding }
      pure (some ⟨header, frameBuf.drop headerSize⟩)

/-- `decode`; the loop goes round once more only from a header to its payload. -/
def decode : Exec ProtocolError Decoding (Option Frame) := do
  let d ← get
  match d.state with
  | .header =>
    if d.src.length < headerSize then pure none
    else do
      let headerBytes ← Exec.slice d.src 0 headerSize
      let header ← Exec.ofExcept (decodeHeader headerBytes)
      if header.payloadLen = 0 then
        let computed := computeChecksum crc header []
        if computed ≠ header.checksum then
          throw (.error (.checksumMismatch header.checksum computed))
        else do
          set { d with src := d.src.drop headerSize : Decoding }
          pure (some ⟨header, []⟩)
      else do
        set { d with state := .payload header : Decoding }
        decodePayload crc header
  | .payload header => decodePayload crc header

/-- `encode`, appending to the destination buffer. -/
def encode (frame : Frame) : Exec ProtocolError (List UInt8) Unit := do
  let payloadLen := UInt32.ofNat frame.payload.length
  if maxPayloadSize < payloadLen then throw (.error (.payloadTooLarge payloadLen))
  else do
    let headerForCrc := { frame.header with checksum := 0 }
    let checksum := computeChecksum crc headerForCrc frame.payload
    modify fun dst => dst ++ (toBeBytes 2 magic.toNat ++ [version] ++
      [frame.header.msgType.asByte] ++ [frame.header.flags.bits] ++
      toBeBytes 4 payloadLen.toNat ++ toBeBytes 8 frame.header.requestId.toNat ++
      toBeBytes 4 checksum.toNat ++ frame.payload)

end FrameCodec

/-! ## Headers -/

/-- The header as it stands on the wire. -/
def FrameHeader.bytes (header : FrameHeader) : List UInt8 :=
  header.checksummed ++ toBeBytes 4 header.checksum.toNat

/-- What the decoder accepts as a header. -/
structure FrameHeader.Accepted (header : FrameHeader) : Prop where
  magic_eq : header.magic = Protocol.magic
  version_eq : header.version = Protocol.version
  payloadLen_le : header.payloadLen ≤ maxPayloadSize

/-- Every header has the same length. -/
theorem FrameHeader.length_bytes (header : FrameHeader) : header.bytes.length = headerSize := by
  simp [FrameHeader.bytes, FrameHeader.checksummed, headerSize]

namespace FrameCodec

/-- A header is read where the buffer begins with it, if it is acceptable. -/
theorem readHeader_eq_ok {header : FrameHeader} {buf rest : List UInt8} :
    readHeader buf = .ok header rest ↔ buf = header.bytes ++ rest ∧ header.Accepted := by
  simp only [readHeader, Exec.bind_eq_ok, Exec.ite_throw_eq_ok, Exec.orError_eq_ok, getU8_eq_ok,
    getU16_eq_ok, getU32_eq_ok, getU64_eq_ok, MessageType.fromByte_eq_some, Exec.pure_apply,
    not_not]
  constructor
  · rintro ⟨_, _, rfl, hm, _, _, rfl, hv, _, _, rfl, t, _, ⟨rfl, rfl⟩, _, _, rfl, len, _, rfl, hlen,
      _, _, rfl, _, _, rfl, h⟩
    cases h
    refine ⟨?_, hm, hv, UInt32.not_lt.mp hlen⟩
    simp [FrameHeader.bytes, FrameHeader.checksummed]
  · rintro ⟨rfl, hm, hv, hlen⟩
    refine ⟨header.magic, _, ?_, hm, header.version, _, rfl, hv, header.msgType.asByte, _, rfl,
      header.msgType, _, ⟨rfl, rfl⟩, header.flags.bits, _, rfl, header.payloadLen, _, rfl,
      UInt32.not_lt.mpr hlen, header.requestId, _, rfl, header.checksum, _, rfl, rfl⟩
    simp [FrameHeader.bytes, FrameHeader.checksummed]

/-- A header is read in as many bytes as it has. -/
theorem fits_readHeader : Fits headerSize readHeader :=
  fits_getU16.bind fun _ => .check _ <| fits_getU8.bind fun _ => .check _ <|
    fits_getU8.bind fun _ => (fits_orError _ _).bind fun _ => fits_getU8.bind fun _ =>
      fits_getU32.bind fun _ => .check _ <| fits_getU64.bind fun _ => fits_getU32.bind fun _ =>
        fits_pure _

/-- The header of a buffer is the one whose bytes it begins with. -/
theorem decodeHeader_take_eq_ok {header : FrameHeader} {src : List UInt8}
    (hlen : headerSize ≤ src.length) : decodeHeader (src.take headerSize) = .ok header ↔
      src = header.bytes ++ src.drop headerSize ∧ header.Accepted := by
  rw [decodeHeader, parse_eq_ok]
  simp only [readHeader_eq_ok]
  constructor
  · rintro ⟨rest, htake, haccepted⟩
    have hrest : rest = [] := by
      have := congrArg List.length htake
      rw [List.length_append, FrameHeader.length_bytes, List.length_take_of_le hlen] at this
      exact List.eq_nil_of_length_eq_zero (by omega)
    rw [hrest, List.append_nil] at htake
    exact ⟨by rw [← htake, List.take_append_drop], haccepted⟩
  · rintro ⟨hsrc, haccepted⟩
    refine ⟨[], ?_, haccepted⟩
    rw [hsrc, List.append_nil, List.take_left' header.length_bytes]

/-! ## One call of the decoder -/

variable (crc : Crc32c)

/-- The bytes that a header announces. -/
def payloadOf (header : FrameHeader) (src : List UInt8) : List UInt8 :=
  (src.drop headerSize).take header.payloadLen.toNat

/-- The payload is waited for, its checksum is compared, and the frame is returned. -/
theorem decodePayload_apply (header : FrameHeader) (state : DecodeState) (src : List UInt8) :
    decodePayload crc header ⟨state, src⟩ =
      if src.length < headerSize + header.payloadLen.toNat then .ok none ⟨state, src⟩
      else if computeChecksum crc header (payloadOf header src) ≠ header.checksum then
        .error (.error (.checksumMismatch header.checksum
          (computeChecksum crc header (payloadOf header src)))) ⟨state, src⟩
      else .ok (some ⟨header, payloadOf header src⟩)
        ⟨.header, src.drop (headerSize + header.payloadLen.toNat)⟩ := by
  have hpayload : (src.take (headerSize + header.payloadLen.toNat)).drop headerSize =
      payloadOf header src := by
    rw [List.drop_take, Nat.add_sub_cancel_left, payloadOf]
  by_cases hshort : src.length < headerSize + header.payloadLen.toNat
  · simp [decodePayload, hshort]
  · have hslice : (Exec.slice src headerSize (headerSize + header.payloadLen.toNat) :
        Exec ProtocolError Decoding _) ⟨state, src⟩ = .ok (payloadOf header src) ⟨state, src⟩ := by
      rw [Exec.slice_of_le (Nat.le_add_right _ _) (Nat.le_of_not_lt hshort), hpayload]
    by_cases hsum : computeChecksum crc header (payloadOf header src) = header.checksum
    · simp [decodePayload, hshort, hslice, hpayload, hsum]
      rfl
    · simp [decodePayload, hshort, hslice, hsum]

/-- Fewer bytes than a header: the decoder waits. -/
theorem decode_header_of_short {src : List UInt8} (h : src.length < headerSize) :
    decode crc ⟨.header, src⟩ = .ok none ⟨.header, src⟩ := by
  simp [decode, h]

/-- A header that is refused stays in the buffer. -/
theorem decode_header_of_error {src : List UInt8} (h : headerSize ≤ src.length)
    {e : Stop ProtocolError} (he : decodeHeader (src.take headerSize) = .error e) :
    decode crc ⟨.header, src⟩ = .error e ⟨.header, src⟩ := by
  have hslice : (Exec.slice src 0 headerSize : Exec ProtocolError Decoding _) ⟨.header, src⟩ =
      .ok (src.take headerSize) ⟨.header, src⟩ := Exec.slice_of_le (Nat.zero_le _) h _
  simp [decode, Nat.not_lt.mpr h, hslice, he]

/-- The states of a decoder that waits for the payload of a header. An empty payload is
never waited for. -/
def stateFor (header : FrameHeader) : DecodeState :=
  if header.payloadLen = 0 then .header else .payload header

/-- The shortcut for empty payloads does what the payload branch would do. -/
theorem decode_header_of_ok {src : List UInt8} (h : headerSize ≤ src.length)
    {header : FrameHeader} (hheader : decodeHeader (src.take headerSize) = .ok header) :
    decode crc ⟨.header, src⟩ = decodePayload crc header ⟨stateFor header, src⟩ := by
  have hslice : (Exec.slice src 0 headerSize : Exec ProtocolError Decoding _) ⟨.header, src⟩ =
      .ok (src.take headerSize) ⟨.header, src⟩ := Exec.slice_of_le (Nat.zero_le _) h _
  by_cases hzero : header.payloadLen = 0
  · rw [decodePayload_apply]
    by_cases hsum : computeChecksum crc header [] = header.checksum
    · simp [decode, Nat.not_lt.mpr h, hslice, hheader, hzero, payloadOf, hsum]
      rfl
    · simp [decode, Nat.not_lt.mpr h, hslice, hheader, hzero, payloadOf, stateFor, hsum]
  · simp [decode, Nat.not_lt.mpr h, hslice, hheader, hzero, stateFor]
    rfl

/-- What a call can do with a buffer: ask for more bytes or fail, and leave the buffer as it
is, or take a frame off it. It never panics. -/
inductive Call (src : List UInt8) :
    EStateM.Result (Stop ProtocolError) Decoding (Option Frame) → Prop
  | waits (state : DecodeState) : Call src (.ok none ⟨state, src⟩)
  | fails (e : ProtocolError) (state : DecodeState) : Call src (.error (.error e) ⟨state, src⟩)
  | takes (frame : Frame) {n : Nat} (hpos : 0 < n) (hle : n ≤ src.length) :
    Call src (.ok (some frame) ⟨.header, src.drop n⟩)

/-- What decoding a payload does to the buffer. -/
theorem decodePayload_call (header : FrameHeader) (state : DecodeState) (src : List UInt8) :
    Call src (decodePayload crc header ⟨state, src⟩) := by
  rw [decodePayload_apply]
  split
  case isTrue => exact .waits state
  case isFalse hshort =>
    split
    · exact .fails _ state
    · exact .takes _ (Nat.add_pos_left (by decide) _) (Nat.not_lt.mp hshort)

/-- What a call does to the buffer. -/
theorem decode_call (d : Decoding) : Call d.src (decode crc d) := by
  obtain ⟨state, src⟩ := d
  cases state with
  | payload header => exact decodePayload_call crc header _ src
  | header =>
    by_cases hshort : src.length < headerSize
    · rw [decode_header_of_short crc hshort]
      exact .waits _
    · have hlen := Nat.le_of_not_lt hshort
      have htake : headerSize ≤ (src.take headerSize).length := by simp [hlen]
      rcases fits_readHeader.safe.parse htake with ⟨header, hok⟩ | ⟨e, he⟩
      · rw [decode_header_of_ok crc hlen hok]
        exact decodePayload_call crc header _ src
      · rw [decode_header_of_error crc hlen he]
        exact .fails e _

/-! ## One call of the encoder -/

/-- The header that is written for a frame. -/
def encodedHeader (frame : Frame) : FrameHeader where
  magic := Protocol.magic
  version := Protocol.version
  msgType := frame.header.msgType
  flags := frame.header.flags
  payloadLen := UInt32.ofNat frame.payload.length
  requestId := frame.header.requestId
  checksum := computeChecksum crc { frame.header with checksum := 0 } frame.payload

/-- A frame is appended if its payload is not too large. -/
theorem encode_apply (frame : Frame) (dst : List UInt8) :
    encode crc frame dst =
      if maxPayloadSize < UInt32.ofNat frame.payload.length then
        .error (.error (.payloadTooLarge (UInt32.ofNat frame.payload.length))) dst
      else .ok () (dst ++ ((encodedHeader crc frame).bytes ++ frame.payload)) := by
  by_cases hlarge : maxPayloadSize < UInt32.ofNat frame.payload.length
  · simp [encode, hlarge]
  · simp only [encode, hlarge, ↓reduceIte]
    change EStateM.Result.ok () _ = _
    simp [FrameHeader.bytes, FrameHeader.checksummed, encodedHeader]

/-- When a frame is encoded, and to what. -/
theorem encode_eq_ok {frame : Frame} {dst dst' : List UInt8} :
    encode crc frame dst = .ok () dst' ↔ UInt32.ofNat frame.payload.length ≤ maxPayloadSize ∧
      dst' = dst ++ ((encodedHeader crc frame).bytes ++ frame.payload) := by
  rw [encode_apply]
  by_cases hlarge : maxPayloadSize < UInt32.ofNat frame.payload.length
  · simp [hlarge, UInt32.not_le.mpr hlarge]
  · simp [hlarge, UInt32.not_lt.mp hlarge, eq_comm]

/-! ## Frames as byte strings -/

/-- What a decoded frame satisfies. -/
structure WellFormed (frame : Frame) : Prop where
  accepted : frame.header.Accepted
  length_payload : frame.payload.length = frame.header.payloadLen.toNat
  checksum_eq : computeChecksum crc frame.header frame.payload = frame.header.checksum

/-- The frame as it stands on the wire. -/
def bytes (frame : Frame) : List UInt8 := frame.header.bytes ++ frame.payload

variable {crc}

/-- When a payload completes a frame. -/
theorem decodePayload_eq_some {header : FrameHeader} {state state' : DecodeState}
    {src rest : List UInt8} {frame : Frame} :
    decodePayload crc header ⟨state, src⟩ = .ok (some frame) ⟨state', rest⟩ ↔
      headerSize + header.payloadLen.toNat ≤ src.length ∧
      computeChecksum crc header (payloadOf header src) = header.checksum ∧
      frame = ⟨header, payloadOf header src⟩ ∧ state' = .header ∧
      rest = src.drop (headerSize + header.payloadLen.toNat) := by
  rw [decodePayload_apply]
  by_cases hshort : src.length < headerSize + header.payloadLen.toNat
  · simp [hshort, Nat.not_le.mpr hshort]
  · by_cases hsum : computeChecksum crc header (payloadOf header src) = header.checksum
    · simp only [hshort, Nat.not_lt.mp hshort, hsum, ↓reduceIte, ne_eq, not_true_eq_false,
        EStateM.Result.ok.injEq, Option.some.injEq, Decoding.mk.injEq, true_and]
      exact and_congr eq_comm (and_congr eq_comm eq_comm)
    · simp [hshort, hsum]

/-- A fresh decoder produces a frame exactly from the bytes of that frame. -/
theorem decode_header_eq_some {src rest : List UInt8} {state : DecodeState} {frame : Frame} :
    decode crc ⟨.header, src⟩ = .ok (some frame) ⟨state, rest⟩ ↔
      WellFormed crc frame ∧ src = bytes frame ++ rest ∧ state = .header := by
  constructor
  · intro h
    by_cases hshort : src.length < headerSize
    · rw [decode_header_of_short crc hshort] at h
      cases h
    have hlen := Nat.le_of_not_lt hshort
    cases hheader : decodeHeader (src.take headerSize) with
    | error e =>
      rw [decode_header_of_error crc hlen hheader] at h
      cases h
    | ok header =>
      rw [decode_header_of_ok crc hlen hheader] at h
      obtain ⟨htotal, hsum, rfl, rfl, rfl⟩ := decodePayload_eq_some.mp h
      obtain ⟨hsrc, haccepted⟩ := (decodeHeader_take_eq_ok hlen).mp hheader
      refine ⟨⟨haccepted, ?_, hsum⟩, ?_, rfl⟩
      · simp only [payloadOf, List.length_take, List.length_drop]
        omega
      · rw [bytes, payloadOf, List.append_assoc, ← List.drop_drop, List.take_append_drop]
        exact hsrc
  · rintro ⟨hframe, rfl, rfl⟩
    obtain ⟨header, payload⟩ := frame
    have hlength : payload.length = header.payloadLen.toNat := hframe.length_payload
    have hdrop : (bytes ⟨header, payload⟩ ++ rest).drop headerSize = payload ++ rest := by
      rw [bytes, List.append_assoc, List.drop_left' header.length_bytes]
    have htotal : headerSize + header.payloadLen.toNat ≤
        (bytes ⟨header, payload⟩ ++ rest).length := by
      simp only [bytes, List.length_append, header.length_bytes, hlength]
      omega
    have hpayload : payloadOf header (bytes ⟨header, payload⟩ ++ rest) = payload := by
      rw [payloadOf, hdrop, List.take_left' hlength]
    have hheader : decodeHeader ((bytes ⟨header, payload⟩ ++ rest).take headerSize) =
        .ok header := by
      rw [decodeHeader_take_eq_ok (by omega), hdrop, bytes, List.append_assoc]
      exact ⟨rfl, hframe.accepted⟩
    rw [decode_header_of_ok crc (by omega) hheader, decodePayload_eq_some, hpayload,
      ← List.drop_drop, hdrop, List.drop_left' hlength]
    exact ⟨htotal, hframe.checksum_eq, rfl, rfl, rfl⟩

/-- The states that a decoder reaches: it waits for payloads of accepted headers only. -/
def DecodeState.Valid : DecodeState → Prop
  | .header => True
  | .payload announced => announced.Accepted

/-- What is decoded behind an acceptable header is valid. -/
theorem decodePayload_valid {header : FrameHeader} (h : header.Accepted) {state : DecodeState}
    (hstate : state.Valid) (src : List UInt8) :
    match decodePayload crc header ⟨state, src⟩ with
    | .ok none d => d.state.Valid
    | .ok (some frame) d => d.state.Valid ∧ WellFormed crc frame
    | .error _ d => d.state.Valid := by
  rw [decodePayload_apply]
  by_cases hshort : src.length < headerSize + header.payloadLen.toNat
  · rw [if_pos hshort]
    exact hstate
  · rw [if_neg hshort]
    by_cases hsum : computeChecksum crc header (payloadOf header src) = header.checksum
    · rw [if_neg (not_not.mpr hsum)]
      refine ⟨trivial, h, ?_, hsum⟩
      simp only [payloadOf, List.length_take, List.length_drop]
      omega
    · rw [if_pos hsum]
      exact hstate

/-- In every state it reaches, a decoder produces well-formed frames. -/
theorem decode_valid (crc : Crc32c) {d : Decoding} (h : d.state.Valid) :
    match decode crc d with
    | .ok none d => d.state.Valid
    | .ok (some frame) d => d.state.Valid ∧ WellFormed crc frame
    | .error _ d => d.state.Valid := by
  obtain ⟨state, src⟩ := d
  cases state with
  | payload header => exact decodePayload_valid h h src
  | header =>
    by_cases hshort : src.length < headerSize
    · rw [decode_header_of_short crc hshort]
      exact h
    have hlen := Nat.le_of_not_lt hshort
    cases hheader : decodeHeader (src.take headerSize) with
    | error e =>
      rw [decode_header_of_error crc hlen hheader]
      trivial
    | ok header =>
      have haccepted := ((decodeHeader_take_eq_ok hlen).mp hheader).2
      rw [decode_header_of_ok crc hlen hheader]
      apply decodePayload_valid haccepted
      rw [stateFor]
      split
      · trivial
      · exact haccepted

/-- Encoding a decoded frame writes the bytes it came from. -/
theorem WellFormed.encodedHeader_eq {frame : Frame} (h : WellFormed crc frame) :
    encodedHeader crc frame = frame.header := by
  obtain ⟨⟨m, v, t, f, len, id, sum⟩, payload⟩ := frame
  obtain ⟨⟨rfl, rfl, hmax⟩, hlength, hsum⟩ := h
  have hlen : UInt32.ofNat payload.length = len := by
    rw [hlength]
    exact UInt32.ofNat_toNat
  rw [encodedHeader]
  simp only [hlen, FrameHeader.mk.injEq, true_and]
  exact hsum

/-- A well-formed frame is encoded as its bytes. -/
theorem WellFormed.encode_eq {frame : Frame} (h : WellFormed crc frame) (dst : List UInt8) :
    encode crc frame dst = .ok () (dst ++ bytes frame) := by
  rw [encode_eq_ok, h.encodedHeader_eq]
  refine ⟨?_, rfl⟩
  rw [h.length_payload, UInt32.ofNat_toNat]
  exact h.accepted.payloadLen_le

/-- The frame format is canonical. -/
theorem decode_canonical {src rest : List UInt8} {state : DecodeState} {frame : Frame}
    (h : decode crc ⟨.header, src⟩ = .ok (some frame) ⟨state, rest⟩) :
    ∃ written, (∀ dst, encode crc frame dst = .ok () (dst ++ written)) ∧ written ++ rest = src ∧
      ∀ src' state' rest', decode crc ⟨.header, src'⟩ = .ok (some frame) ⟨state', rest'⟩ →
        written ++ rest' = src' := by
  obtain ⟨hframe, rfl, rfl⟩ := decode_header_eq_some.mp h
  refine ⟨bytes frame, hframe.encode_eq, rfl, ?_⟩
  intro src' state' rest' h'
  exact (decode_header_eq_some.mp h').2.1.symm

/-- A data frame of three bytes. -/
def sampleFrame : Frame where
  header :=
    { magic := 0xCE4B
      version := 1
      msgType := .data
      flags := .empty
      payloadLen := 3
      requestId := 7
      checksum := 0x5F04FB6A }
  payload := [1, 2, 3]

/-- A frame that the codec makes. -/
theorem sampleFrame_wellFormed : WellFormed .castagnoli sampleFrame :=
  ⟨⟨rfl, rfl, by decide⟩, rfl, by decide +kernel⟩

/-- Its bytes are the only ones that decode to it. -/
theorem sampleFrame_canonical :
    ∃ written, (∀ dst, encode .castagnoli sampleFrame dst = .ok () (dst ++ written)) ∧
      written ++ [0xFF] = bytes sampleFrame ++ [0xFF] ∧
      ∀ src' state' rest',
        decode .castagnoli ⟨.header, src'⟩ = .ok (some sampleFrame) ⟨state', rest'⟩ →
          written ++ rest' = src' :=
  decode_canonical (decode_header_eq_some.mpr ⟨sampleFrame_wellFormed, rfl, rfl⟩)

end FrameCodec

end CekyP2P.Protocol
