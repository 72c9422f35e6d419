import CekyP2P.Core.OneChange
import CekyP2P.Protocol.Codec

/-!
# What the checksum and the length field protect

The encoder narrows the length of a payload to 32 bits before it looks at the limit, so the
limit is no limit for payloads of 4 GB and more. Below that size a frame that is written is
read back, and a change of one byte outside the length field is noticed: the checksum is a fold
whose step can be undone in the remainder and in the byte.
-/

namespace CekyP2P.Protocol

namespace Crc32c

/-- What is assumed of the crate: it computes CRC-32C, and appending continues a checksum. -/
structure IsCastagnoli (crc : Crc32c) : Prop where
  crc32c_eq : ∀ data, crc.crc32c data = castagnoli.crc32c data
  append_eq : ∀ a b, crc.crc32cAppend (crc.crc32c a) b = crc.crc32c (a ++ b)

/-- The checksum of the model is the one of the polynomial. -/
theorem castagnoli_isCastagnoli : castagnoli.IsCastagnoli := ⟨fun _ => rfl, castagnoli_append⟩

/-- The bit that a shift drops. -/
theorem low_bit (crc : UInt32) : crc &&& 1 = 1 ↔ crc.toBitVec.getLsbD 0 = true := by
  have hand := BitVec.and_one_eq_setWidth_ofBool_getLsbD (x := crc.toBitVec)
  rw [← UInt32.toBitVec_inj, UInt32.toBitVec_and]
  change crc.toBitVec &&& 1#32 = 1#32 ↔ _
  rw [hand]
  cases crc.toBitVec.getLsbD 0 <;> decide

/-- A shift in terms of bits. -/
theorem shift_toBitVec (crc : UInt32) : (shift crc).toBitVec =
    crc.toBitVec >>> 1 ^^^ if crc.toBitVec.getLsbD 0 then 0x82F63B78#32 else 0#32 := by
  unfold shift
  split
  case isTrue h =>
    rw [if_pos ((low_bit crc).mp h)]
    simp
  case isFalse h =>
    rw [if_neg fun hbit => h ((low_bit crc).mpr hbit)]
    simp

/-- The bit that is shifted out comes back at the top, where the polynomial has a one. -/
theorem top_bit_shift (crc : UInt32) :
    (shift crc).toBitVec.getLsbD 31 = crc.toBitVec.getLsbD 0 := by
  rw [shift_toBitVec, BitVec.getLsbD_xor]
  cases crc.toBitVec.getLsbD 0 <;> simp

/-- The dropped bit can be read off the result. -/
theorem shift_injective : Function.Injective shift := by
  intro a b h
  have hlow : a.toBitVec.getLsbD 0 = b.toBitVec.getLsbD 0 := by
    rw [← top_bit_shift, h, top_bit_shift]
  have hhigh : a.toBitVec >>> 1 = b.toBitVec >>> 1 := by
    have hbits := congrArg UInt32.toBitVec h
    rw [shift_toBitVec, shift_toBitVec, hlow] at hbits
    exact (BitVec.xor_left_inj _).mp hbits
  apply UInt32.toBitVec_inj.mp
  apply BitVec.eq_of_getLsbD_eq
  intro i hi
  cases i with
  | zero => exact hlow
  | succ i =>
    have hbit := congrArg (BitVec.getLsbD · i) hhigh
    simpa [Nat.add_comm] using hbit

/-- Different registers stay different. -/
theorem update_injective_state (byte : UInt8) : Function.Injective fun crc => update crc byte := by
  intro a b h
  exact (UInt32.xor_left_inj _).mp (shift_injective.iterate 8 h)

/-- Different bytes make different registers. -/
theorem update_injective_byte (crc : UInt32) : Function.Injective (update crc) := by
  intro a b h
  have hwide : a.toUInt32 = b.toUInt32 := (UInt32.xor_right_inj _).mp (shift_injective.iterate 8 h)
  apply UInt8.toNat_inj.mp
  rw [← UInt8.toNat_toUInt32, hwide, UInt8.toNat_toUInt32]

/-- A change of one byte changes the checksum. -/
theorem castagnoli_set_ne {data : List UInt8} {i : Nat} (hi : i < data.length) {byte : UInt8}
    (hne : byte ≠ data[i]) :
    castagnoli.crc32c (data.set i byte) ≠ castagnoli.crc32c data := by
  intro heq
  have hfold := foldl_set_ne update_injective_state update_injective_byte hi hne 0xFFFFFFFF
  exact hfold (UInt32.not_inj.mp heq)

end Crc32c

namespace FrameCodec

variable (crc : Crc32c) (msgType : MessageType) (flags : Flags) (requestId : UInt64)

/-! ## Payloads of every length -/

/-- What a caller may rely on when it encodes a frame into a buffer. -/
structure EncodesSafely (frame : Frame) (dst : List UInt8) : Prop where
  refused : maxPayloadSize.toNat < frame.payload.length →
    ∃ e, encode crc frame dst = .error (.error e) dst
  readBack : frame.payload.length ≤ maxPayloadSize.toNat → ∃ written decoded,
    encode crc frame dst = .ok () (dst ++ written) ∧
    written.length = headerSize + frame.payload.length ∧
    decode crc ⟨.header, written⟩ = .ok (some decoded) ⟨.header, []⟩ ∧
    decoded.header.msgType = frame.header.msgType ∧ decoded.header.flags = frame.header.flags ∧
    decoded.header.requestId = frame.header.requestId ∧ decoded.payload = frame.payload

/-- The limit is compared with the low 32 bits of the length. -/
theorem limit_lt_narrowed_iff (length : Nat) :
    maxPayloadSize < UInt32.ofNat length ↔ maxPayloadSize.toNat < length % 2 ^ 32 := by
  rw [UInt32.lt_iff_toNat_lt, UInt32.toNat_ofNat']

/-- What is written for a frame within the limit is well formed. -/
theorem wellFormed_encoded {payload : List UInt8} (h : payload.length ≤ maxPayloadSize.toNat) :
    WellFormed crc ⟨encodedHeader crc (.new msgType flags requestId payload), payload⟩ where
  accepted := by
    have hlt : payload.length < 2 ^ 32 := h.trans_lt maxPayloadSize.toNat_lt
    refine ⟨rfl, rfl, UInt32.not_lt.mp ?_⟩
    rw [encodedHeader, limit_lt_narrowed_iff]
    change ¬maxPayloadSize.toNat < payload.length % 2 ^ 32
    rw [Nat.mod_eq_of_lt hlt]
    omega
  length_payload := by
    have hlt : payload.length < 2 ^ 32 := h.trans_lt maxPayloadSize.toNat_lt
    change payload.length = (UInt32.ofNat payload.length).toNat
    rw [UInt32.toNat_ofNat', Nat.mod_eq_of_lt hlt]
  checksum_eq := rfl

/-- A new frame is encoded with its checksum. -/
theorem encode_new {payload : List UInt8} (h : payload.length ≤ maxPayloadSize.toNat)
    (dst : List UInt8) : encode crc (.new msgType flags requestId payload) dst =
      .ok () (dst ++ bytes ⟨encodedHeader crc (.new msgType flags requestId payload), payload⟩) :=
  (encode_eq_ok crc).mpr
    ⟨(wellFormed_encoded crc msgType flags requestId h).accepted.payloadLen_le, rfl⟩

/-- The length of an encoded frame. -/
theorem length_bytes (frame : Frame) :
    (bytes frame).length = headerSize + frame.payload.length := by
  rw [bytes, List.length_append, FrameHeader.length_bytes]

/-- A frame is refused for the low 32 bits of its length. -/
theorem encode_refuses_iff (frame : Frame) (dst : List UInt8) :
    (∃ e, encode crc frame dst = .error (.error e) dst) ↔
      maxPayloadSize.toNat < frame.payload.length % 2 ^ 32 := by
  rw [encode_apply, ← limit_lt_narrowed_iff]
  split
  case isTrue hlimit => exact iff_of_true ⟨_, rfl⟩ hlimit
  case isFalse hlimit => exact iff_of_false nofun hlimit

/-- The encoder keeps its promise up to the limit, and beyond it as long as the low 32 bits of the
length are over the limit as well. -/
theorem encodesSafely_iff (payload dst : List UInt8) :
    EncodesSafely crc (.new msgType flags requestId payload) dst ↔
      payload.length ≤ maxPayloadSize.toNat ∨ maxPayloadSize.toNat < payload.length % 2 ^ 32 := by
  have hrefuses := encode_refuses_iff crc (.new msgType flags requestId payload) dst
  constructor
  · intro h
    rcases Nat.lt_or_ge maxPayloadSize.toNat payload.length with hlt | hle
    · exact .inr (hrefuses.mp (h.refused hlt))
    · exact .inl hle
  · intro h
    refine ⟨fun hlt => hrefuses.mpr (h.resolve_left (Nat.not_le.mpr hlt)), fun hle => ?_⟩
    have hwell := wellFormed_encoded crc msgType flags requestId hle
    refine ⟨_, _, encode_new crc msgType flags requestId hle dst, length_bytes _,
      decode_header_eq_some.mpr ⟨hwell, ?_, rfl⟩, rfl, rfl, rfl, rfl⟩
    rw [List.append_nil]

/-- A payload of 4 GB is written behind a header that announces none. -/
theorem four_gigabytes_encoded :
    ¬EncodesSafely .castagnoli (.new .data .empty 0 (List.replicate (2 ^ 32) 0)) [] := by
  have hlength : (List.replicate (2 ^ 32) (0 : UInt8)).length = 2 ^ 32 := List.length_replicate
  intro h
  have hrefused := h.refused (by rw [Frame.payload_new, hlength]; decide)
  rw [encode_refuses_iff, Frame.payload_new, hlength] at hrefused
  exact absurd hrefused (by decide)

/-! ## One corrupted byte -/

/-- The part of a frame that the checksum is taken over. -/
def covered (src : List UInt8) : List UInt8 := src.take 17 ++ src.drop headerSize

/-- The checksum field. -/
def sumField (src : List UInt8) : List UInt8 := (src.drop 17).take 4

/-- The field of the payload length. -/
def lenField (src : List UInt8) : List UInt8 := (src.drop 5).take 4

/-- The checksum covers seventeen bytes of the header. -/
theorem length_checksummed (header : FrameHeader) : header.checksummed.length = 17 := by
  simp [FrameHeader.checksummed]

/-- What the checksum covers of an encoded frame. -/
theorem covered_bytes (frame : Frame) :
    covered (bytes frame) = frame.header.checksummed ++ frame.payload := by
  rw [covered, bytes, List.drop_left' frame.header.length_bytes, FrameHeader.bytes,
    List.append_assoc, List.take_left' (length_checksummed _)]

/-- Where the checksum stands. -/
theorem sumField_bytes (frame : Frame) :
    sumField (bytes frame) = toBeBytes 4 frame.header.checksum.toNat := by
  rw [sumField, bytes, FrameHeader.bytes, List.append_assoc,
    List.drop_left' (length_checksummed _), List.take_left' (length_toBeBytes _ _)]

/-- Where the length stands. -/
theorem lenField_bytes (frame : Frame) (rest : List UInt8) :
    lenField (bytes frame ++ rest) = toBeBytes 4 frame.header.payloadLen.toNat := by
  simp [lenField, bytes, FrameHeader.bytes, FrameHeader.checksummed, toBeBytes]

/-- A frame around its checksum. -/
theorem split_fields (src : List UInt8) :
    src = src.take 17 ++ sumField src ++ src.drop headerSize := by
  have hdrop : src.drop headerSize = (src.drop 17).drop 4 := by rw [List.drop_drop]; rfl
  rw [sumField, hdrop, List.append_assoc, List.take_append_drop, List.take_append_drop]

/-- A number of 32 bits is known by its bytes. -/
theorem toBeBytes_four_inj {a b : UInt32} (h : toBeBytes 4 a.toNat = toBeBytes 4 b.toNat) :
    a = b := by
  have hnat := congrArg ofBeBytes h
  rw [ofBeBytes_toBeBytes, ofBeBytes_toBeBytes] at hnat
  have ha := a.toNat_lt
  have hb := b.toNat_lt
  exact UInt32.toNat_inj.mp (by omega)

/-- The checksum of a well-formed frame, as a function of its bytes. -/
theorem WellFormed.checksum_eq_crc {crc : Crc32c} (hcrc : crc.IsCastagnoli) {frame : Frame}
    (h : WellFormed crc frame) :
    frame.header.checksum = Crc32c.castagnoli.crc32c (covered (bytes frame)) := by
  rw [← h.checksum_eq, covered_bytes, computeChecksum, hcrc.append_eq, hcrc.crc32c_eq]

section

variable {src : List UInt8} {i : Nat} (byte : UInt8)

/-- A change before the checksum. -/
theorem sumField_set_of_lt (h : i < 17) : sumField (src.set i byte) = sumField src := by
  rw [sumField, List.drop_set, if_pos h, sumField]

/-- A change behind the header. -/
theorem sumField_set_of_le (h : headerSize ≤ i) : sumField (src.set i byte) = sumField src := by
  have hi : 21 ≤ i := h
  rw [sumField, List.drop_set, if_neg (by omega), List.take_set, sumField]
  apply List.set_eq_of_length_le
  rw [List.length_take]
  omega

/-- A change before the checksum is covered. -/
theorem covered_set_of_lt (hi : i < src.length) (h : i < 17) :
    covered (src.set i byte) = (covered src).set i byte ∧ (covered src)[i]? = src[i]? := by
  have hlt : i < (src.take 17).length := by
    rw [List.length_take]
    omega
  constructor
  · rw [covered, List.take_set, List.drop_set, if_pos (h.trans (by decide)), covered,
      List.set_append_left _ _ hlt]
  · rw [covered, List.getElem?_append_left hlt, List.getElem?_take_of_lt h]

/-- A change behind the header is covered. -/
theorem covered_set_of_le (hi : i < src.length) (h : headerSize ≤ i) :
    covered (src.set i byte) = (covered src).set (i - 4) byte ∧
      (covered src)[i - 4]? = src[i]? := by
  have h21 : 21 ≤ i := h
  have hlength : (src.take 17).length = 17 := by
    rw [List.length_take]
    omega
  have hheader : headerSize = 21 := rfl
  have hindex : i - 4 - 17 = i - headerSize := by omega
  constructor
  · rw [covered, List.take_set, List.drop_set, if_neg (by omega), covered,
      List.set_append_right _ _ (by omega), hlength, hindex]
    congr 1
    apply List.set_eq_of_length_le
    omega
  · rw [covered, List.getElem?_append_right (by omega), hlength, hindex, List.getElem?_drop]
    congr 1
    omega

/-- A change in the checksum field is not covered. -/
theorem covered_set_of_sumField (h : 17 ≤ i) (h' : i < headerSize) :
    covered (src.set i byte) = covered src := by
  rw [covered, List.take_set, List.drop_set, if_pos h', covered]
  congr 1
  apply List.set_eq_of_length_le
  rw [List.length_take]
  omega

/-- A change outside the length. -/
theorem lenField_set (h : i < 5 ∨ 9 ≤ i) : lenField (src.set i byte) = lenField src := by
  rw [lenField, List.drop_set]
  split
  · rfl
  · rw [List.take_set, lenField]
    apply List.set_eq_of_length_le
    rw [List.length_take]
    omega

end

/-- A change that changes nothing. -/
theorem eq_getElem_of_set_eq {l : List UInt8} {i : Nat} {byte : UInt8} (hi : i < l.length)
    (h : l.set i byte = l) : byte = l[i] := by
  have hget : (l.set i byte)[i]? = some byte := List.getElem?_set_self hi
  rw [h, List.getElem?_eq_getElem hi] at hget
  exact (Option.some.inj hget).symm

/-- Two well-formed frames do not differ in one covered byte or in one byte of the checksum. -/
theorem WellFormed.bytes_ne_set {crc : Crc32c} (hcrc : crc.IsCastagnoli) {frame frame' : Frame}
    (h : WellFormed crc frame) (h' : WellFormed crc frame') {i : Nat}
    (hi : i < (bytes frame).length) {byte : UInt8} (hne : byte ≠ (bytes frame)[i]) :
    bytes frame' ≠ (bytes frame).set i byte := by
  intro heq
  have hsum := h.checksum_eq_crc hcrc
  have hsum' := h'.checksum_eq_crc hcrc
  rw [heq] at hsum'
  have hfield := sumField_bytes frame
  have hfield' := sumField_bytes frame'
  rw [heq] at hfield'
  have hcovered : ∀ j, covered ((bytes frame).set i byte) = (covered (bytes frame)).set j byte →
      (covered (bytes frame))[j]? = (bytes frame)[i]? →
      sumField ((bytes frame).set i byte) = sumField (bytes frame) → False := by
    intro j hset hget hsame
    rw [List.getElem?_eq_getElem hi] at hget
    obtain ⟨hj, hbyte⟩ := List.getElem?_eq_some_iff.mp hget
    have hequal : frame'.header.checksum = frame.header.checksum :=
      toBeBytes_four_inj (by rw [← hfield, ← hfield', hsame])
    rw [hset] at hsum'
    exact Crc32c.castagnoli_set_ne hj (hbyte ▸ hne) (hsum'.symm.trans (hequal.trans hsum))
  rcases Nat.lt_or_ge i 17 with hlt | hge
  · obtain ⟨hset, hget⟩ := covered_set_of_lt byte hi hlt
    exact hcovered i hset hget (sumField_set_of_lt byte hlt)
  · rcases Nat.lt_or_ge i headerSize with hheader | hpayload
    · rw [covered_set_of_sumField byte hge hheader] at hsum'
      have hsame : sumField ((bytes frame).set i byte) = sumField (bytes frame) := by
        rw [hfield, hfield', hsum, hsum']
      have hunchanged : (bytes frame).set i byte = bytes frame := by
        rw [split_fields ((bytes frame).set i byte), hsame, List.take_set, List.drop_set,
          if_pos hheader, List.set_eq_of_length_le (by rw [List.length_take]; omega),
          ← split_fields]
      exact hne (eq_getElem_of_set_eq hi hunchanged)
    · obtain ⟨hset, hget⟩ := covered_set_of_le byte hi hpayload
      exact hcovered (i - 4) hset hget (sumField_set_of_le byte hpayload)

/-- A decoder does not take a frame with one corrupted byte outside its length field. -/
theorem corrupted_byte_detected {crc : Crc32c} (hcrc : crc.IsCastagnoli) (msgType : MessageType)
    (flags : Flags) (requestId : UInt64) {payload : List UInt8}
    (h : payload.length ≤ maxPayloadSize.toNat) :
    ∃ encoded, encode crc (.new msgType flags requestId payload) [] = .ok () encoded ∧
      ∀ i, i < encoded.length → (i < 5 ∨ 9 ≤ i) → ∀ mask : UInt8, mask ≠ 0 → ∀ frame d,
        decode crc ⟨.header, encoded.modify i (· ^^^ mask)⟩ ≠ .ok (some frame) d := by
  have hwell := wellFormed_encoded crc msgType flags requestId h
  refine ⟨_, encode_new crc msgType flags requestId h [], ?_⟩
  rw [List.nil_append]
  generalize (⟨encodedHeader crc (.new msgType flags requestId payload), payload⟩ : Frame) =
    original at hwell
  intro i hi houtside mask hmask frame d hdecode
  obtain ⟨state, rest⟩ := d
  rw [List.modify_eq_set_getElem?, List.getElem?_eq_getElem hi] at hdecode
  obtain ⟨hframe, hsrc, -⟩ := decode_header_eq_some.mp hdecode
  change (bytes original).set i ((bytes original)[i] ^^^ mask) = _ at hsrc
  have hlen : frame.header.payloadLen = original.header.payloadLen := by
    apply toBeBytes_four_inj
    rw [← lenField_bytes frame rest, ← hsrc, lenField_set _ houtside, ← lenField_bytes original [],
      List.append_nil]
  have hrest : rest = [] := by
    have hlength := congrArg List.length hsrc
    rw [List.length_set, List.length_append, length_bytes, length_bytes, hframe.length_payload,
      hwell.length_payload, hlen] at hlength
    exact List.eq_nil_of_length_eq_zero (by omega)
  rw [hrest, List.append_nil] at hsrc
  have hne : (bytes original)[i] ^^^ mask ≠ (bytes original)[i] := by
    intro hsame
    exact hmask ((UInt8.xor_right_inj _).mp (hsame.trans UInt8.xor_zero.symm))
  exact hwell.bytes_ne_set hcrc hframe hi hne hsrc.symm

/-- Every change of a byte of this frame outside its length field is detected. -/
theorem corrupted_data_frame_detected :
    Crc32c.castagnoli.IsCastagnoli ∧ [1, 2, 3].length ≤ maxPayloadSize.toNat ∧
    ∃ encoded, encode .castagnoli (.new .data .empty 7 [1, 2, 3]) [] = .ok () encoded ∧
      ∀ i, i < encoded.length → (i < 5 ∨ 9 ≤ i) → ∀ mask : UInt8, mask ≠ 0 → ∀ frame d,
        decode .castagnoli ⟨.header, encoded.modify i (· ^^^ mask)⟩ ≠ .ok (some frame) d :=
  ⟨Crc32c.castagnoli_isCastagnoli, by decide,
    corrupted_byte_detected Crc32c.castagnoli_isCastagnoli .data .empty 7 (by decide)⟩

end FrameCodec

end CekyP2P.Protocol
