import CekyP2P.Core.Text
import CekyP2P.Crypto.Identity

/-!
# Texts of peer identifiers

`PeerId::from_str` reads two bytes of the text at a time. It slices the text, which panics inside a
character, and `u8::from_str_radix` also reads a plus sign and one digit.
-/

namespace CekyP2P.Crypto

/-- `char::to_digit(16)` of a byte. -/
def toDigit (c : UInt8) : Option UInt8 :=
  if 0x30 ≤ c ∧ c ≤ 0x39 then some (c - 0x30)
  else if 0x61 ≤ c ∧ c ≤ 0x66 then some (c - 0x61 + 10)
  else if 0x41 ≤ c ∧ c ≤ 0x46 then some (c - 0x41 + 10)
  else none

/-- The loop of `from_str_radix` over the digits. -/
def radixDigits (result : UInt8) : List UInt8 → Except String UInt8
  | [] => .ok result
  | c :: rest =>
    match toDigit c with
    | some digit => radixDigits (result * 16 + digit) rest
    | none => .error "invalid digit found in string"

/-- `u8::from_str_radix(src, 16)` of at most two bytes, where nothing overflows. -/
def fromStrRadix : List UInt8 → Except String UInt8
  | [] => .error "cannot parse integer from empty string"
  | sign :: rest =>
    if sign = 0x2b ∧ rest ≠ [] then radixDigits 0 rest else radixDigits 0 (sign :: rest)

/-- The closure of `hex_decode`. -/
def hexPairAt (bytes : List UInt8) (i : Nat) : Except (Stop String) UInt8 := do
  let pair ← Text.slice bytes i (i + 2)
  match fromStrRadix pair with
  | .ok byte => .ok byte
  | .error e => .error (.error s!"invalid hex at {i}: {e}")

/-- The bytes of a text of hexadecimal digits, two characters at a time. -/
def hexDecode (s : String) : Except (Stop String) (List UInt8) :=
  let bytes := Text.bytes s
  if bytes.length % 2 ≠ 0 then .error (.error "odd-length hex string")
  else (List.range' 0 (bytes.length / 2) 2).mapM (hexPairAt bytes)

/-- A digit of the format `x`. -/
def hexChar (digit : UInt8) : Char :=
  Char.ofUInt8 (if digit < 10 then 0x30 + digit else 0x61 + (digit - 10))

/-- Bytes as a text of hexadecimal digits. -/
def hexEncode (bytes : List UInt8) : String :=
  .ofList (bytes.flatMap fun b => [hexChar (b / 16), hexChar (b % 16)])

/-- `CryptoError::InvalidPeerId`, the only error of `from_str`. -/
structure InvalidPeerId where
  reason : String
  deriving DecidableEq

/-- The identifier in a text of 64 hexadecimal digits. -/
def PeerId.fromStr (s : String) : Except (Stop InvalidPeerId) PeerId :=
  match hexDecode s with
  | .ok bytes =>
    if h : bytes.length = 32 then .ok ⟨⟨bytes.toArray, size_toArray h⟩⟩
    else .error (.error ⟨s!"expected 32 bytes, got {bytes.length}"⟩)
  | .error (.error e) => .error (.error ⟨s!"invalid hex: {e}"⟩)
  | .error .panicked => .error .panicked
  | .error .blocked => .error .blocked

/-! ## Pairs of digits -/

/-- The value of two digits. -/
def digitPair (a b : UInt8) : Option UInt8 := do
  let high ← toDigit a
  let low ← toDigit b
  some (high * 16 + low)

/-- The value that `from_str_radix` gives two bytes. -/
def radixPair (a b : UInt8) : Option UInt8 := if a = 0x2b then toDigit b else digitPair a b

/-- A pair of characters is parsed to its value. -/
theorem fromStrRadix_pair_eq_ok {a b v : UInt8} :
    fromStrRadix [a, b] = .ok v ↔ radixPair a b = some v := by
  rw [fromStrRadix, radixPair, digitPair]
  by_cases hsign : a = 0x2b
  · rw [if_pos ⟨hsign, List.cons_ne_nil b []⟩, if_pos hsign, radixDigits]
    cases toDigit b <;> simp [radixDigits]
  · rw [if_neg fun h => hsign h.1, if_neg hsign, radixDigits]
    cases toDigit a with
    | none => simp
    | some high =>
      simp only [radixDigits]
      cases toDigit b <;> simp

/-- A byte that is a hexadecimal digit. -/
def isHexDigit (c : UInt8) : Bool :=
  0x30 ≤ c ∧ c ≤ 0x39 ∨ 0x61 ≤ c ∧ c ≤ 0x66 ∨ 0x41 ≤ c ∧ c ≤ 0x46

/-- Two digits, or a plus sign and a digit. -/
def readsPair (a b : UInt8) : Bool := (isHexDigit a || a == 0x2b) && isHexDigit b

/-- The digits are those that have a value. -/
theorem isSome_toDigit (c : UInt8) : (toDigit c).isSome = isHexDigit c := by
  revert c
  decide +kernel

/-- A pair of digits has a value. -/
theorem isSome_digitPair (a b : UInt8) :
    (digitPair a b).isSome = (isHexDigit a && isHexDigit b) := by
  rw [digitPair, ← isSome_toDigit, ← isSome_toDigit]
  cases toDigit a with
  | none => rfl
  | some high => cases toDigit b <;> rfl

/-- A pair is parsed if it is two digits, or a plus sign and a digit. -/
theorem isSome_radixPair (a b : UInt8) : (radixPair a b).isSome = readsPair a b := by
  rw [radixPair, readsPair]
  split
  case isTrue hsign => simp [hsign, isSome_toDigit]
  case isFalse hsign => rw [isSome_digitPair, beq_eq_false_iff_ne.mpr hsign, Bool.or_false]

/-- A plus sign is no digit. -/
theorem ne_sign_of_isHexDigit {c : UInt8} (h : isHexDigit c = true) : c ≠ 0x2b := by
  rintro rfl
  revert h
  decide

/-- Without a sign the two ways to read a pair agree. -/
theorem digitPair_eq_some {a b v : UInt8} :
    digitPair a b = some v ↔ radixPair a b = some v ∧ 0x2b ∉ [a, b] := by
  constructor
  · intro h
    have hdigits : (digitPair a b).isSome = true := Option.isSome_of_eq_some h
    rw [isSome_digitPair, Bool.and_eq_true] at hdigits
    have ha := ne_sign_of_isHexDigit hdigits.1
    have hb := ne_sign_of_isHexDigit hdigits.2
    refine ⟨by rw [radixPair, if_neg ha, h], ?_⟩
    simp [ha.symm, hb.symm]
  · rintro ⟨h, hsign⟩
    rw [List.mem_cons, not_or] at hsign
    rwa [radixPair, if_neg (Ne.symm hsign.1)] at h

/-- A text of digits is one that is parsed and has no plus sign. -/
theorem readPairs_digitPair_eq_some {l values : List UInt8} :
    Text.readPairs digitPair l = some values ↔
      Text.readPairs radixPair l = some values ∧ 0x2b ∉ l := by
  induction l using Text.readPairs.induct generalizing values with
  | case1 => simp [Text.readPairs]
  | case2 => simp [Text.readPairs]
  | case3 a b rest ih =>
    rw [Text.readPairs_cons_eq_some, Text.readPairs_cons_eq_some]
    constructor
    · rintro ⟨v, vs, hpair, hrest, rfl⟩
      obtain ⟨hpair, hsign⟩ := digitPair_eq_some.mp hpair
      obtain ⟨hrest, hsigns⟩ := ih.mp hrest
      refine ⟨⟨v, vs, hpair, hrest, rfl⟩, ?_⟩
      exact List.not_mem_append hsign hsigns
    · rintro ⟨⟨v, vs, hpair, hrest, rfl⟩, hsigns⟩
      have hsign : 0x2b ∉ [a, b] := fun h => hsigns (List.mem_append_left rest h)
      have hsigns : 0x2b ∉ rest := fun h => hsigns (List.mem_append_right [a, b] h)
      exact ⟨v, vs, digitPair_eq_some.mpr ⟨hpair, hsign⟩, ih.mpr ⟨hrest, hsigns⟩, rfl⟩

/-- A text is parsed if all its pairs are. -/
theorem isSome_readPairs_radixPair (l : List UInt8) :
    (Text.readPairs radixPair l).isSome = Text.allPairs readsPair l := by
  rw [Text.isSome_readPairs]
  simp only [isSome_radixPair]

/-- Digits are read if there is an even number of them. -/
theorem isSome_readPairs_digitPair (l : List UInt8) :
    (Text.readPairs digitPair l).isSome = true ↔
      l.length % 2 = 0 ∧ ∀ b ∈ l, isHexDigit b = true := by
  induction l using Text.readPairs.induct with
  | case1 => simp [Text.readPairs]
  | case2 => simp [Text.readPairs]
  | case3 a b rest ih =>
    rw [Text.isSome_readPairs] at ih ⊢
    rw [Text.allPairs, isSome_digitPair, Bool.and_eq_true, ih]
    have hlength : (a :: b :: rest).length % 2 = rest.length % 2 := Nat.add_mod_right _ 2
    rw [hlength, List.forall_mem_cons, List.forall_mem_cons, Bool.and_eq_true]
    constructor
    · rintro ⟨⟨ha, hb⟩, hlength, hrest⟩
      exact ⟨hlength, ha, hb, hrest⟩
    · rintro ⟨hlength, ha, hb, hrest⟩
      exact ⟨⟨ha, hb⟩, hlength, hrest⟩

/-! ## Lower case -/

/-- A digit is written in lower case. -/
theorem hexChar_of_toDigit {c d : UInt8} (h : toDigit c = some d) :
    d < 16 ∧ hexChar d = (Char.ofUInt8 c).toLower := by
  have hall : ∀ c : UInt8, ∀ d ∈ toDigit c, d < 16 ∧ hexChar d = (Char.ofUInt8 c).toLower := by
    decide +kernel
  exact hall c d h

/-- The value of two digits does not overflow. -/
theorem toNat_value {high low : UInt8} (hhigh : high < 16) (hlow : low < 16) :
    (high * 16 + low).toNat = 16 * high.toNat + low.toNat := by
  have hhigh : high.toNat < 16 := UInt8.lt_iff_toNat_lt.mp hhigh
  have hlow : low.toNat < 16 := UInt8.lt_iff_toNat_lt.mp hlow
  simp only [UInt8.toNat_add, UInt8.toNat_mul, UInt8.reduceToNat]
  omega

/-- The digits can be read off the value. -/
theorem digits_of_value {high low : UInt8} (hhigh : high < 16) (hlow : low < 16) :
    (high * 16 + low) / 16 = high ∧ (high * 16 + low) % 16 = low := by
  have hlow' : low.toNat < 16 := UInt8.lt_iff_toNat_lt.mp hlow
  rw [← UInt8.toNat_inj, ← UInt8.toNat_inj, UInt8.toNat_div, UInt8.toNat_mod,
    toNat_value hhigh hlow]
  simp only [UInt8.reduceToNat]
  omega

/-- Encoding what was read gives the digits back, in lower case. -/
theorem encode_readPairs {l values : List UInt8} (h : Text.readPairs digitPair l = some values) :
    values.flatMap (fun b => [hexChar (b / 16), hexChar (b % 16)]) =
      l.map fun c => (Char.ofUInt8 c).toLower := by
  induction l using Text.readPairs.induct generalizing values with
  | case1 =>
    cases h
    rfl
  | case2 => cases h
  | case3 a b rest ih =>
    obtain ⟨v, vs, hpair, hrest, rfl⟩ := Text.readPairs_cons_eq_some.mp h
    obtain ⟨high, hhigh, hpair⟩ := Option.bind_eq_some_iff.mp hpair
    obtain ⟨low, hlow, hpair⟩ := Option.bind_eq_some_iff.mp hpair
    cases hpair
    obtain ⟨hhigh, hfirst⟩ := hexChar_of_toDigit hhigh
    obtain ⟨hlow, hsecond⟩ := hexChar_of_toDigit hlow
    obtain ⟨hdiv, hmod⟩ := digits_of_value hhigh hlow
    rw [List.flatMap_cons, hdiv, hmod, hfirst, hsecond, ih hrest]
    rfl

/-! ## Reading a text -/

/-- After pairs that can be read comes one that ends inside a character. -/
def cutsCharacter : List UInt8 → Bool
  | a :: b :: c :: rest => Text.isContinuation c || readsPair a b && cutsCharacter (c :: rest)
  | _ => false

/-- The loop of `hex_decode` over the bytes that are left. -/
def hexPairsFrom (front rest : List UInt8) : Except (Stop String) (List UInt8) :=
  (List.range' front.length (rest.length / 2) 2).mapM (hexPairAt (front ++ rest))

section

variable {front rest : List UInt8} {a b : UInt8}

/-- The pairs are read one after the other. -/
theorem hexPairsFrom_cons : hexPairsFrom front (a :: b :: rest) =
    (do
      let byte ← hexPairAt (front ++ a :: b :: rest) front.length
      let bytes ← hexPairsFrom (front ++ [a, b]) rest
      pure (byte :: bytes)) := by
  have hlength : (a :: b :: rest).length / 2 = rest.length / 2 + 1 := 
    Nat.add_div_right rest.length Nat.two_pos
  rw [hexPairsFrom, hlength, List.range'_succ, List.mapM_cons, hexPairsFrom, List.length_append,
    List.append_assoc]
  rfl

/-- A pair that ends inside a character panics. -/
theorem hexPairsFrom_cut {c : UInt8} (hc : Text.isContinuation c = true) :
    hexPairsFrom front (a :: b :: c :: rest) = .error .panicked := by
  rw [hexPairsFrom_cons, hexPairAt, Text.slice_cut hc]
  rfl

variable (hstart : Text.isCharBoundary (front ++ a :: b :: rest) front.length = true)
  (hstop : ∀ c ∈ rest.head?, Text.isContinuation c = false)

include hstart hstop

/-- A pair that is parsed gives its value. -/
theorem hexPairAt_of_some {v : UInt8} (hv : radixPair a b = some v) :
    hexPairAt (front ++ a :: b :: rest) front.length = .ok v := by
  have hread := fromStrRadix_pair_eq_ok.mpr hv
  simp only [hexPairAt, Text.slice_pair hstart hstop, bind, Except.bind, hread]

/-- A pair that is not parsed gives an error. -/
theorem hexPairAt_of_none (hnone : radixPair a b = none) :
    ∃ e, hexPairAt (front ++ a :: b :: rest) front.length = .error (.error e) := by
  cases hread : fromStrRadix [a, b] with
  | ok v => cases (fromStrRadix_pair_eq_ok.mp hread).symm.trans hnone
  | error e =>
    simp only [hexPairAt, Text.slice_pair hstart hstop, bind, Except.bind, hread]
    exact ⟨_, rfl⟩

/-- After a pair that is parsed, the rest is read. -/
theorem hexPairsFrom_of_some {v : UInt8} (hv : radixPair a b = some v) :
    hexPairsFrom front (a :: b :: rest) = (v :: ·) <$> hexPairsFrom (front ++ [a, b]) rest := by
  rw [hexPairsFrom_cons, hexPairAt_of_some hstart hstop hv]
  rfl

/-- A pair that is not parsed ends the reading. -/
theorem hexPairsFrom_of_none (hnone : radixPair a b = none) :
    ∃ e, hexPairsFrom front (a :: b :: rest) = .error (.error e) := by
  obtain ⟨e, he⟩ := hexPairAt_of_none hstart hstop hnone
  exact ⟨e, by rw [hexPairsFrom_cons, he]; rfl⟩

end

/-- A character is cut behind a pair that is read. -/
theorem cutsCharacter_cons {rest : List UInt8} (a b : UInt8)
    (hstop : ∀ c ∈ rest.head?, Text.isContinuation c = false) :
    cutsCharacter (a :: b :: rest) = (readsPair a b && cutsCharacter rest) := by
  cases rest with
  | nil => simp [cutsCharacter]
  | cons c rest => rw [cutsCharacter, hstop c rfl, Bool.false_or]

/-- A byte inside a character is not read. -/
theorem readsPair_of_isContinuation {c : UInt8} (h : Text.isContinuation c = true) (d : UInt8) :
    readsPair c d = false := by
  have hc : (isHexDigit c || c == 0x2b) = false := by
    revert c
    decide +kernel
  rw [readsPair, hc, Bool.false_and]

/-- A text in which a character is cut has no value. -/
theorem readPairs_of_cutsCharacter {l : List UInt8} (h : cutsCharacter l = true) :
    Text.readPairs radixPair l = none := by
  rw [← Option.isSome_eq_false_iff.trans Option.isNone_iff_eq_none, isSome_readPairs_radixPair]
  induction l using cutsCharacter.induct with
  | case1 a b c rest ih =>
    rw [cutsCharacter, Bool.or_eq_true, Bool.and_eq_true] at h
    rw [Text.allPairs, Bool.and_eq_false_imp]
    intro _
    rcases h with hc | ⟨_, hrest⟩
    · cases rest with
      | nil => rfl
      | cons d rest => rw [Text.allPairs, readsPair_of_isContinuation hc d, Bool.false_and]
    · exact ih hrest
  | case2 l hshort =>
    rw [cutsCharacter.eq_2 l hshort] at h
    cases h

/-- How the loop of `hex_decode` ends. -/
inductive PairsRead (l : List UInt8) : Except (Stop String) (List UInt8) → Prop
  | values {bytes : List UInt8} : Text.readPairs radixPair l = some bytes → PairsRead l (.ok bytes)
  | cut : cutsCharacter l = true → PairsRead l (.error .panicked)
  | invalid (e : String) : Text.readPairs radixPair l = none → cutsCharacter l = false →
      PairsRead l (.error (.error e))

/-- What reading the rest of a text can come to. -/
theorem pairsRead_hexPairsFrom {front rest : List UInt8} (heven : rest.length % 2 = 0)
    (hstart : Text.isCharBoundary (front ++ rest) front.length = true) :
    PairsRead rest (hexPairsFrom front rest) := by
  induction rest using Text.readPairs.induct generalizing front with
  | case1 => exact .values rfl
  | case2 => cases heven
  | case3 a b rest ih =>
    by_cases hcut : ∃ c ∈ rest.head?, Text.isContinuation c = true
    · obtain ⟨c, hhead, hc⟩ := hcut
      obtain ⟨rest, rfl⟩ := List.head?_eq_some_iff.mp hhead
      rw [hexPairsFrom_cut hc]
      exact .cut (by rw [cutsCharacter, hc, Bool.true_or])
    · have hstop : ∀ c ∈ rest.head?, Text.isContinuation c = false := fun c hhead =>
        Bool.eq_false_iff.mpr fun hc => hcut ⟨c, hhead, hc⟩
      have hcuts := cutsCharacter_cons a b hstop
      rw [← isSome_radixPair] at hcuts
      cases hpair : radixPair a b with
      | none =>
        obtain ⟨e, he⟩ := hexPairsFrom_of_none hstart hstop hpair
        rw [he]
        rw [hpair, Option.isSome_none, Bool.false_and] at hcuts
        exact .invalid e (by simp [Text.readPairs, hpair]) hcuts
      | some v =>
        have heven : rest.length % 2 = 0 := by
          rw [List.length_cons, List.length_cons] at heven
          omega
        have hrest := ih heven (Text.isCharBoundary_append (front ++ [a, b]) hstop)
        rw [hpair, Option.isSome_some, Bool.true_and] at hcuts
        rw [hexPairsFrom_of_some hstart hstop hpair]
        generalize hexPairsFrom (front ++ [a, b]) rest = result at hrest ⊢
        cases hrest with
        | values hread => exact .values (by simp [Text.readPairs, hpair, hread])
        | cut hcut => exact .cut (hcuts.trans hcut)
        | invalid e hread hcut =>
          exact .invalid e (by simp [Text.readPairs, hpair, hread]) (hcuts.trans hcut)

/-- What reading a text can come to. -/
theorem pairsRead_hexDecode {s : String} (heven : (Text.bytes s).length % 2 = 0) :
    PairsRead (Text.bytes s) (hexDecode s) := by
  rw [hexDecode, if_neg (not_not_intro heven)]
  exact @pairsRead_hexPairsFrom [] (Text.bytes s) heven rfl

/-- How `from_str` ends. -/
inductive IdRead (s : String) : Except (Stop InvalidPeerId) PeerId → Prop
  | accepted {id : PeerId} : Text.readPairs radixPair (Text.bytes s) = some id.bytes.toList →
      IdRead s (.ok id)
  | cut : (Text.bytes s).length % 2 = 0 → cutsCharacter (Text.bytes s) = true →
      IdRead s (.error .panicked)
  | invalid (e : InvalidPeerId) :
      (∀ id : PeerId, Text.readPairs radixPair (Text.bytes s) ≠ some id.bytes.toList) →
      ((Text.bytes s).length % 2 = 0 → cutsCharacter (Text.bytes s) = false) →
      IdRead s (.error (.error e))

/-- What parsing an identifier can come to. -/
theorem idRead_fromStr (s : String) : IdRead s (PeerId.fromStr s) := by
  by_cases heven : (Text.bytes s).length % 2 = 0
  case neg =>
    rw [PeerId.fromStr, hexDecode, if_pos heven]
    refine .invalid _ ?_ fun h => absurd h heven
    intro id hread
    rw [Text.length_of_readPairs hread] at heven
    exact heven (Nat.mul_mod_right 2 _)
  have hread := pairsRead_hexDecode heven
  rw [PeerId.fromStr]
  generalize hexDecode s = result at hread
  cases hread with
  | @values bytes hread =>
    by_cases hlength : bytes.length = 32
    · simp only [hlength, ↓reduceDIte]
      exact .accepted hread
    · simp only [hlength, ↓reduceDIte]
      refine .invalid _ ?_ ?_
      · intro id hid
        cases hread.symm.trans hid
        exact hlength Vector.length_toList
      · intro _
        refine Bool.eq_false_iff.mpr fun hcut => ?_
        cases hread.symm.trans (readPairs_of_cutsCharacter hcut)
  | cut hcut => exact .cut heven hcut
  | invalid e hread hcut =>
    refine .invalid _ ?_ fun _ => hcut
    intro id hid
    cases hread.symm.trans hid

/-! ## Identifiers -/

/-- A character that is a hexadecimal digit. -/
def IsHexChar (c : Char) : Prop := '0' ≤ c ∧ c ≤ '9' ∨ 'a' ≤ c ∧ c ≤ 'f' ∨ 'A' ≤ c ∧ c ≤ 'F'

/-- A text of 64 hexadecimal digits. -/
def IsIdText (s : String) : Prop := s.length = 64 ∧ ∀ c ∈ s.toList, IsHexChar c

instance : DecidablePred IsHexChar := fun _ => inferInstanceAs (Decidable (_ ∨ _))

/-- Digits as characters and as bytes. -/
theorem isHexChar_ofUInt8 (b : UInt8) : IsHexChar (Char.ofUInt8 b) ↔ isHexDigit b = true := by
  revert b
  decide +kernel

/-- Digits are ASCII. -/
theorem lt_of_isHexDigit {b : UInt8} (h : isHexDigit b = true) : b < 0x80 := by
  revert b
  decide +kernel

/-- Digits are ASCII. -/
theorem le_of_isHexChar {c : Char} (h : IsHexChar c) : c.val ≤ 127 := by
  rcases h with h | h | h
  · exact UInt32.le_trans h.2 (by decide)
  · exact UInt32.le_trans h.2 (by decide)
  · exact UInt32.le_trans h.2 (by decide)

/-- The characters of such a text are its bytes. -/
theorem isIdText_iff {s : String} : IsIdText s ↔
    (Text.bytes s).length = 64 ∧ ∀ b ∈ Text.bytes s, isHexDigit b = true := by
  rw [IsIdText, ← String.length_toList]
  constructor
  · rintro ⟨hlength, hdigits⟩
    have hbytes := Text.bytes_of_ascii fun c hc => le_of_isHexChar (hdigits c hc)
    rw [hbytes, List.length_map, List.forall_mem_map]
    refine ⟨hlength, fun c hc => ?_⟩
    rw [← isHexChar_ofUInt8, Text.ofUInt8_toUInt8 (le_of_isHexChar (hdigits c hc))]
    exact hdigits c hc
  · rintro ⟨hlength, hdigits⟩
    have hchars := Text.toList_of_ascii fun b hb => lt_of_isHexDigit (hdigits b hb)
    rw [hchars, List.length_map, List.forall_mem_map]
    exact ⟨hlength, fun b hb => (isHexChar_ofUInt8 b).mpr (hdigits b hb)⟩

/-- An identifier is known by its bytes. -/
theorem PeerId.toList_inj {a b : PeerId} : a.bytes.toList = b.bytes.toList ↔ a = b := by
  obtain ⟨a⟩ := a
  obtain ⟨b⟩ := b
  rw [Vector.toList_inj, PeerId.mk.injEq]

/-- What is read are the bytes of an identifier just if there are 32 pairs. -/
theorem exists_readPairs_eq_iff {f : UInt8 → UInt8 → Option UInt8} {l : List UInt8} :
    (∃ id : PeerId, Text.readPairs f l = some id.bytes.toList) ↔
      l.length = 64 ∧ (Text.readPairs f l).isSome = true := by
  constructor
  · rintro ⟨id, hread⟩
    refine ⟨?_, Option.isSome_of_eq_some hread⟩
    rw [Text.length_of_readPairs hread, Vector.length_toList]
  · rintro ⟨hlength, hsome⟩
    obtain ⟨values, hread⟩ := Option.isSome_iff_exists.mp hsome
    have hvalues : values.toArray.size = 32 := by
      have := Text.length_of_readPairs hread
      rw [List.size_toArray]
      omega
    exact ⟨⟨⟨values.toArray, hvalues⟩⟩, hread⟩

/-- The texts of identifiers are those that are read as 32 pairs of digits. -/
theorem isIdText_iff_readPairs {s : String} : IsIdText s ↔
    ∃ id : PeerId, Text.readPairs digitPair (Text.bytes s) = some id.bytes.toList := by
  rw [isIdText_iff, exists_readPairs_eq_iff, isSome_readPairs_digitPair]
  refine and_congr_right fun hlength => ?_
  exact (and_iff_right (by rw [hlength])).symm

/-- The identifier of a text encodes to the text in lower case. -/
theorem hexEncode_of_readPairs {s : String} {values : List UInt8}
    (h : Text.readPairs digitPair (Text.bytes s) = some values) : hexEncode values = s.toLower := by
  have hdigits := (isSome_readPairs_digitPair _).mp (Option.isSome_of_eq_some h)
  have hchars := Text.toList_of_ascii fun b hb => lt_of_isHexDigit (hdigits.2 b hb)
  have hlower : s.toLower = s.map Char.toLower := rfl
  rw [← String.toList_inj, hexEncode, String.toList_ofList, encode_readPairs h, hlower,
    String.toList_map, hchars, List.map_map]
  rfl

end CekyP2P.Crypto
