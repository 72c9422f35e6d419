import CekyP2P.Nat.Stun

/-!
# STUN responses with other attributes

A binding response is a header and a sequence of attributes, each with a type, a length and a
value that is padded to a multiple of four bytes. The parser finds the mapped address behind
any attributes of other types, and everything it accepts has the header of an answer to the
request.
-/

namespace CekyP2P.Stun

open Transfer

/-! ## Encoding -/

/-- An attribute; the bytes of the padding are arbitrary. -/
structure Attribute where
  attrType : UInt16
  value : List UInt8
  padding : List UInt8
  length_padded : value.length + padding.length = (value.length + 3) / 4 * 4

/-- The length that is written is that of the value alone. -/
def Attribute.encode (attr : Attribute) : List UInt8 :=
  toBeBytes 2 attr.attrType.toNat ++
    (toBeBytes 2 attr.value.length ++ (attr.value ++ attr.padding))

/-- The header of a Binding Response: the type, the length of the attributes, the magic cookie and
the transaction identifier. -/
def encodeHeader (txnId : Vector UInt8 12) (msgLen : Nat) : List UInt8 :=
  toBeBytes 2 0x0101 ++ (toBeBytes 2 msgLen ++ ([0x21, 0x12, 0xA4, 0x42] ++ txnId.toList))

/-- A Binding Response with the given attributes. -/
def encodeResponse (txnId : Vector UInt8 12) (attributes : List Attribute) : List UInt8 :=
  let body := attributes.flatMap Attribute.encode
  encodeHeader txnId body.length ++ body

/-- MAPPED-ADDRESS: a zero byte, the family, the port and the address. -/
def mappedAddress (ip : Vector UInt8 4) (port : UInt16) : Attribute where
  attrType := 0x0001
  value := 0 :: 1 :: (toBeBytes 2 port.toNat ++ ip.toList)
  padding := []
  length_padded := by simp

/-- XOR-MAPPED-ADDRESS: port and address are masked with the magic cookie. -/
def xorMappedAddress (ip : Vector UInt8 4) (port : UInt16) : Attribute where
  attrType := 0x0020
  value := 0 :: 1 :: (toBeBytes 2 (port ^^^ 0x2112).toNat ++
    List.zipWith (· ^^^ ·) ip.toList [0x21, 0x12, 0xA4, 0x42])
  padding := []
  length_padded := by simp

/-! ## Reading what was written -/

section

variable {pre rest : List UInt8}

/-- A number behind other data. -/
theorem be16_append (v : UInt16) :
    be16 (pre ++ (toBeBytes 2 v.toNat ++ rest)) pre.length = pure v := by
  have hlen : pre.length + 1 < (pre ++ (toBeBytes 2 v.toNat ++ rest)).length := by
    simp
    omega
  rw [be16_of_lt hlen]
  have hbytes : [(pre ++ (toBeBytes 2 v.toNat ++ rest))[pre.length],
      (pre ++ (toBeBytes 2 v.toNat ++ rest))[pre.length + 1]] = toBeBytes 2 v.toNat := by
    simp [toBeBytes]
  have hlt : v.toNat < 256 ^ 2 := v.toNat_lt
  rw [hbytes, ofBeBytes_toBeBytes, Nat.mod_eq_of_lt hlt, UInt16.ofNat_toNat]

/-- A slice behind other data. -/
theorem slice_append {ε σ : Type} (value : List UInt8) :
    (Exec.slice (pre ++ (value ++ rest)) pre.length (pre.length + value.length) :
      Exec ε σ (List UInt8)) = pure value := by
  rw [Exec.slice_eq_pure (Nat.le_add_right _ _) (by simp), ← List.append_assoc,
    List.take_left' (by simp), List.drop_left]

end

/-- An attribute is padded to a multiple of four bytes. -/
theorem length_encode (attr : Attribute) :
    attr.encode.length = 4 + (attr.value.length + 3) / 4 * 4 := by
  have := attr.length_padded
  simp only [Attribute.encode, List.length_append, length_toBeBytes]
  omega

/-- What the loop reads of an attribute behind a prefix. -/
theorem attribute_read {ε σ : Type} {pre rest data : List UInt8} (attr : Attribute)
    (hdata : data = pre ++ (attr.encode ++ rest)) (hshort : attr.value.length < 2 ^ 16) :
    be16 data pre.length = pure attr.attrType ∧
      be16 data (pre.length + 2) = pure (UInt16.ofNat attr.value.length) ∧
      (Exec.slice data (pre.length + 4) (pre.length + 4 + attr.value.length) :
        Exec ε σ (List UInt8)) = pure attr.value := by
  have hlength : (UInt16.ofNat attr.value.length).toNat = attr.value.length :=
    UInt16.toNat_ofNat_of_lt' hshort
  refine ⟨?_, ?_, ?_⟩
  · rw [hdata]
    simp only [Attribute.encode, List.append_assoc]
    exact be16_append attr.attrType
  · have hread : data = (pre ++ toBeBytes 2 attr.attrType.toNat) ++
        (toBeBytes 2 (UInt16.ofNat attr.value.length).toNat ++
          (attr.value ++ (attr.padding ++ rest))) := by
      rw [hdata, hlength]
      simp only [Attribute.encode, List.append_assoc]
    have hpre : pre.length + 2 = (pre ++ toBeBytes 2 attr.attrType.toNat).length := by simp
    rw [hpre, hread]
    exact be16_append _
  · have hread : data = (pre ++ (toBeBytes 2 attr.attrType.toNat ++
        toBeBytes 2 attr.value.length)) ++ (attr.value ++ (attr.padding ++ rest)) := by
      rw [hdata]
      simp only [Attribute.encode, List.append_assoc]
    have hpre : pre.length + 4 = (pre ++ (toBeBytes 2 attr.attrType.toNat ++
        toBeBytes 2 attr.value.length)).length := by simp
    rw [hpre, hread]
    exact slice_append attr.value

/-- One round of the loop, on an attribute within the message. -/
theorem parseAttributes_succ {pre rest data : List UInt8} (attr : Attribute)
    (hdata : data = pre ++ (attr.encode ++ rest)) (hshort : attr.value.length < 2 ^ 16)
    (rounds : Nat) :
    parseAttributes data data.length (rounds + 1) pre.length =
      if attr.attrType = attrXorMappedAddress then parseXorMappedAddress attr.value
      else if attr.attrType = attrMappedAddress then parseMappedAddress attr.value
      else parseAttributes data data.length rounds (pre ++ attr.encode).length := by
  obtain ⟨htype, hlen, hvalue⟩ := attribute_read (ε := NatError) (σ := Unit) attr hdata hshort
  have hlength : (UInt16.ofNat attr.value.length).toNat = attr.value.length :=
    UInt16.toNat_ofNat_of_lt' hshort
  have hpadded := attr.length_padded
  have hencode := length_encode attr
  have hend : pre.length + attr.encode.length ≤ data.length := by
    rw [hdata]
    simp
  have hoffset : pre.length + 4 + (attr.value.length + 3) / 4 * 4 =
      (pre ++ attr.encode).length := by
    rw [List.length_append, hencode]
    omega
  rw [parseAttributes, if_pos (by omega), htype, pure_bind, hlen, pure_bind, hlength,
    if_neg (by omega), hvalue, pure_bind, pure_bind, hoffset]

/-- Attributes of other types are passed over. -/
theorem parseAttributes_skip {pre rest data : List UInt8} {others : List Attribute}
    (hdata : data = pre ++ (others.flatMap Attribute.encode ++ rest))
    (hothers : ∀ attr ∈ others, attr.value.length < 2 ^ 16 ∧
      attr.attrType ≠ attrXorMappedAddress ∧ attr.attrType ≠ attrMappedAddress) (rounds : Nat) :
    parseAttributes data data.length (rounds + others.length) pre.length =
      parseAttributes data data.length rounds
        (pre ++ others.flatMap Attribute.encode).length := by
  induction others generalizing pre with
  | nil => simp
  | cons attr others ih =>
    obtain ⟨⟨hshort, hxor, hmapped⟩, hothers⟩ := List.forall_mem_cons.mp hothers
    rw [List.flatMap_cons, List.append_assoc] at hdata
    rw [List.length_cons, ← Nat.add_assoc, parseAttributes_succ attr hdata hshort, if_neg hxor,
      if_neg hmapped]
    rw [← List.append_assoc] at hdata
    rw [ih hdata hothers, List.flatMap_cons, List.append_assoc]

/-- An address has four octets. -/
theorem exists_octets (ip : Vector UInt8 4) : ∃ a b c d, ip = #v[a, b, c, d] := by
  refine ⟨ip[0], ip[1], ip[2], ip[3], ?_⟩
  ext i hi
  match i, hi with
  | 0, _ | 1, _ | 2, _ | 3, _ => rfl

/-- The address of a MAPPED-ADDRESS attribute is read back. -/
theorem parseMappedAddress_value (ip : Vector UInt8 4) (port : UInt16) :
    parseMappedAddress (mappedAddress ip port).value = pure ⟨.v4 ip, port⟩ := by
  obtain ⟨a, b, c, d, rfl⟩ := exists_octets ip
  have hport : be16 (mappedAddress #v[a, b, c, d] port).value 2 = pure port :=
    @be16_append [0, 1] [a, b, c, d] port
  rw [parseMappedAddress, hport]
  rfl

/-- The address of a XOR-MAPPED-ADDRESS attribute is read back. -/
theorem parseXorMappedAddress_value (ip : Vector UInt8 4) (port : UInt16) :
    parseXorMappedAddress (xorMappedAddress ip port).value = pure ⟨.v4 ip, port⟩ := by
  obtain ⟨a, b, c, d, rfl⟩ := exists_octets ip
  have hport : be16 (xorMappedAddress #v[a, b, c, d] port).value 2 = pure (port ^^^ 0x2112) :=
    @be16_append [0, 1] [a ^^^ 0x21, b ^^^ 0x12, c ^^^ 0xA4, d ^^^ 0x42] (port ^^^ 0x2112)
  have hread : parseXorMappedAddress (xorMappedAddress #v[a, b, c, d] port).value =
      pure ⟨.v4 #v[a ^^^ 0x21 ^^^ 0x21, b ^^^ 0x12 ^^^ 0x12, c ^^^ 0xA4 ^^^ 0xA4,
        d ^^^ 0x42 ^^^ 0x42], port ^^^ 0x2112 ^^^ 0x2112⟩ := by
    rw [parseXorMappedAddress, hport]
    rfl
  rw [hread]
  simp only [UInt8.xor_assoc, UInt8.xor_self, UInt8.xor_zero, UInt16.xor_assoc, UInt16.xor_self,
    UInt16.xor_zero]

/-! ## Responses -/

/-- A header has twenty bytes. -/
theorem length_encodeHeader (txnId : Vector UInt8 12) (msgLen : Nat) :
    (encodeHeader txnId msgLen).length = 20 := by
  simp [encodeHeader]

/-- What is read of the header. -/
theorem header_read (txnId : Vector UInt8 12) {body : List UInt8} (hlen : body.length < 2 ^ 16) :
    be16 (encodeHeader txnId body.length ++ body) 0 = pure bindingResponse ∧
      be16 (encodeHeader txnId body.length ++ body) 2 = pure (UInt16.ofNat body.length) ∧
      (Exec.slice (encodeHeader txnId body.length ++ body) 8 20 : Parser (List UInt8)) =
        pure txnId.toList ∧
      ∀ k (hk : k < 4), (Exec.index (encodeHeader txnId body.length ++ body) (4 + k) :
        Parser UInt8) = pure ([0x21, 0x12, 0xA4, 0x42].get ⟨k, hk⟩) := by
  have hword : (UInt16.ofNat body.length).toNat = body.length := UInt16.toNat_ofNat_of_lt' hlen
  refine ⟨?_, ?_, ?_, ?_⟩
  · simp only [encodeHeader, List.append_assoc]
    exact @be16_append [] _ bindingResponse
  · have hread := @be16_append (toBeBytes 2 0x0101)
      ([0x21, 0x12, 0xA4, 0x42] ++ (txnId.toList ++ body)) (UInt16.ofNat body.length)
    rw [hword, length_toBeBytes] at hread
    simpa only [encodeHeader, List.append_assoc] using hread
  · have hread := @slice_append
      (toBeBytes 2 0x0101 ++ (toBeBytes 2 body.length ++ [0x21, 0x12, 0xA4, 0x42])) body
      NatError Unit txnId.toList
    simpa only [encodeHeader, List.append_assoc, List.length_append, length_toBeBytes,
      Vector.length_toList, List.length_cons, List.length_nil] using hread
  · intro k hk
    match k, hk with
    | 0, _ | 1, _ | 2, _ | 3, _ => rfl

/-- Behind a matching header the loop runs over the attributes. -/
theorem parseBindingResponse_encode (txnId : Vector UInt8 12) {attributes : List Attribute}
    (hlen : (attributes.flatMap Attribute.encode).length < 2 ^ 16) :
    parseBindingResponse (encodeResponse txnId attributes) txnId =
      parseAttributes (encodeResponse txnId attributes) (encodeResponse txnId attributes).length
        (encodeResponse txnId attributes).length 20 := by
  have hword : (UInt16.ofNat (attributes.flatMap Attribute.encode).length).toNat =
      (attributes.flatMap Attribute.encode).length := UInt16.toNat_ofNat_of_lt' hlen
  obtain ⟨htype, hmsgLen, htxnId, hcookie⟩ := header_read txnId hlen
  have hlength : (encodeResponse txnId attributes).length =
      20 + (attributes.flatMap Attribute.encode).length := by
    rw [encodeResponse, List.length_append, length_encodeHeader]
  rw [← encodeResponse] at htype hmsgLen htxnId hcookie
  rw [parseBindingResponse, if_neg (by rw [hlength, stunHeaderSize]; omega), htype, pure_bind,
    if_neg (not_not.mpr rfl), hcookie 0 (by decide), pure_bind, hcookie 1 (by decide), pure_bind,
    hcookie 2 (by decide), pure_bind, hcookie 3 (by decide), pure_bind, if_neg (by decide), htxnId,
    pure_bind, if_neg (not_not.mpr rfl), hmsgLen, pure_bind, hword,
    if_neg (by rw [hlength, stunHeaderSize]; omega), stunHeaderSize, ← hlength]

/-- Every attribute takes some bytes. -/
theorem length_le_length_flatMap_encode (attributes : List Attribute) :
    attributes.length ≤ (attributes.flatMap Attribute.encode).length := by
  induction attributes with
  | nil => simp
  | cons attr attributes ih =>
    have hencode := length_encode attr
    rw [List.flatMap_cons, List.length_append, List.length_cons]
    omega

/-- The value of an attribute is shorter than the message. -/
theorem length_value_lt {attributes : List Attribute}
    (hlen : (attributes.flatMap Attribute.encode).length < 2 ^ 16) {attr : Attribute}
    (hattr : attr ∈ attributes) : attr.value.length < 2 ^ 16 := by
  obtain ⟨before, after, rfl⟩ := List.append_of_mem hattr
  have hencode := length_encode attr
  rw [List.flatMap_append, List.flatMap_cons, List.length_append, List.length_append] at hlen
  omega

/-- An attribute that gives an address is found behind any attributes of other types, and what
follows it does not matter. -/
theorem parseBindingResponse_finds (txnId : Vector UInt8 12) {others trailing : List Attribute}
    {attr : Attribute} {addr : SocketAddr}
    (hothers : ∀ other ∈ others,
      other.attrType ≠ attrMappedAddress ∧ other.attrType ≠ attrXorMappedAddress)
    (hlen : ((others ++ attr :: trailing).flatMap Attribute.encode).length < 2 ^ 16)
    (hattr : ∀ next : Parser SocketAddr,
      (if attr.attrType = attrXorMappedAddress then parseXorMappedAddress attr.value
      else if attr.attrType = attrMappedAddress then parseMappedAddress attr.value
      else next) = pure addr) :
    parseBindingResponse (encodeResponse txnId (others ++ attr :: trailing)) txnId () =
      .ok addr () := by
  generalize hdata : encodeResponse txnId (others ++ attr :: trailing) = data
  have hlength : data.length =
      20 + ((others ++ attr :: trailing).flatMap Attribute.encode).length := by
    rw [← hdata, encodeResponse, List.length_append, length_encodeHeader]
  have hparse := parseBindingResponse_encode txnId hlen
  rw [hdata] at hparse
  rw [encodeResponse, List.flatMap_append, List.flatMap_cons] at hdata
  obtain ⟨rounds, hrounds⟩ : ∃ rounds, data.length = rounds + 1 + others.length := by
    have hle := length_le_length_flatMap_encode (others ++ attr :: trailing)
    rw [List.length_append, List.length_cons] at hle
    exact ⟨data.length - 1 - others.length, by omega⟩
  have hskip := parseAttributes_skip hdata.symm (fun other hother =>
    ⟨length_value_lt hlen (List.mem_append_left _ hother), (hothers other hother).2,
      (hothers other hother).1⟩) (rounds + 1)
  rw [← List.append_assoc] at hdata
  rw [← hrounds, length_encodeHeader, parseAttributes_succ attr hdata.symm
    (length_value_lt hlen (by simp)), hattr] at hskip
  rw [hparse, hskip]
  rfl

/-! ## Accepted data -/

/-- The fields of the header that are compared. -/
structure HeaderMatches (data : List UInt8) (txnId : Vector UInt8 12) : Prop where
  msgType : data.take 2 = [0x01, 0x01]
  cookie : (data.drop 4).take 4 = [0x21, 0x12, 0xA4, 0x42]
  txnId : (data.drop 8).take 12 = txnId.toList

/-- Two bytes are known by their number. -/
theorem eq_toBeBytes_of_word {a b : UInt8} {v : UInt16}
    (h : UInt16.ofNat (ofBeBytes [a, b]) = v) : [a, b] = toBeBytes 2 v.toNat := by
  have hlt : ofBeBytes [a, b] < 256 ^ 2 := ofBeBytes_lt [a, b]
  rw [← h, UInt16.toNat_ofNat_of_lt' hlt]
  exact (toBeBytes_ofBeBytes [a, b]).symm

/-- Four bytes are known by their number. -/
theorem eq_toBeBytes_of_doubleWord {a b c d : UInt8} {v : UInt32}
    (h : UInt32.ofNat (ofBeBytes [a, b, c, d]) = v) : [a, b, c, d] = toBeBytes 4 v.toNat := by
  have hlt : ofBeBytes [a, b, c, d] < 256 ^ 4 := ofBeBytes_lt [a, b, c, d]
  rw [← h, UInt32.toNat_ofNat_of_lt' hlt]
  exact (toBeBytes_ofBeBytes [a, b, c, d]).symm

/-- Only answers to the request are accepted. -/
theorem headerMatches_of_accepted {data : List UInt8} {txnId : Vector UInt8 12} {addr : SocketAddr}
    (h : parseBindingResponse data txnId () = .ok addr ()) : HeaderMatches data txnId := by
  rw [parseBindingResponse] at h
  split at h
  case isTrue => cases h
  case isFalse hshort =>
    have hheader : stunHeaderSize = 20 := rfl
    have hlen : 20 ≤ data.length := Nat.le_of_not_lt hshort
    simp (disch := omega) only [Exec.index_of_lt, be16_of_lt, pure_bind] at h
    obtain ⟨htype, h⟩ := Exec.ite_throw_eq_ok.mp h
    obtain ⟨hcookie, h⟩ := Exec.ite_throw_eq_ok.mp h
    rw [Exec.slice_eq_pure (by decide) hlen, pure_bind] at h
    obtain ⟨htxnId, -⟩ := Exec.ite_throw_eq_ok.mp h
    refine ⟨?_, ?_, ?_⟩
    · have htake : data.take 2 = [data[0], data[1]] := by
        rw [List.take_succ_eq_append_getElem (i := 1) (by omega),
          List.take_succ_eq_append_getElem (i := 0) (by omega)]
        rfl
      rw [htake, eq_toBeBytes_of_word (not_not.mp htype)]
      rfl
    · have htake : (data.drop 4).take 4 = [data[4], data[5], data[6], data[7]] := by
        rw [List.drop_eq_getElem_cons (i := 4) (by omega),
          List.drop_eq_getElem_cons (i := 5) (by omega),
          List.drop_eq_getElem_cons (i := 6) (by omega),
          List.drop_eq_getElem_cons (i := 7) (by omega)]
        rfl
      rw [htake, eq_toBeBytes_of_doubleWord (not_not.mp hcookie)]
      rfl
    · rw [← not_not.mp htxnId, List.drop_take]

/-- A mapped address is found through any other attributes, whether it is masked or not, and what
is accepted answers the request. -/
theorem binding_response_parsed :
    (∀ (txnId : Vector UInt8 12) (ip : Vector UInt8 4) (port : UInt16)
      (others trailing : List Attribute),
      (∀ other ∈ others,
        other.attrType ≠ attrMappedAddress ∧ other.attrType ≠ attrXorMappedAddress) →
      ∀ attr ∈ [xorMappedAddress ip port, mappedAddress ip port],
        ((others ++ attr :: trailing).flatMap Attribute.encode).length < 2 ^ 16 →
        parseBindingResponse (encodeResponse txnId (others ++ attr :: trailing)) txnId () =
          .ok ⟨.v4 ip, port⟩ ()) ∧
    ∀ (data : List UInt8) (txnId : Vector UInt8 12) (addr : SocketAddr),
      parseBindingResponse data txnId () = .ok addr () → HeaderMatches data txnId := by
  refine ⟨?_, fun data txnId addr => headerMatches_of_accepted⟩
  intro txnId ip port others trailing hothers attr hattr hlen
  refine parseBindingResponse_finds txnId hothers hlen fun next => ?_
  rcases List.mem_pair.mp hattr with rfl | rfl
  · exact parseXorMappedAddress_value ip port
  · exact parseMappedAddress_value ip port

end CekyP2P.Stun
