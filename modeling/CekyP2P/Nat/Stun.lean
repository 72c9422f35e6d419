import CekyP2P.Core.Bytes
import CekyP2P.Core.Exec
import CekyP2P.Transfer.State

/-!
# STUN binding responses

The parser of the responses that tell a node its mapped address. It reads by position:
every index and slice panics where the datagram is too short, and the attribute loop is
given as many rounds as the datagram has bytes.
-/

namespace CekyP2P.Stun

open Transfer

/-- The errors of the NAT crate, without the one that wraps an I/O error. -/
inductive NatError
  | stunFailed (reason : String)
  | stunTimeout (timeoutMs : UInt64)
  | holePunchFailed (reason : String)
  | relayRefused (reason : String)
  | symmetricNat
  | noStunServers
  deriving DecidableEq

/-- `MAGIC_COOKIE`. -/
def magicCookie : UInt32 := 0x2112A442

/-- `BINDING_RESPONSE`. -/
def bindingResponse : UInt16 := 0x0101

/-- `ATTR_MAPPED_ADDRESS`. -/
def attrMappedAddress : UInt16 := 0x0001

/-- `ATTR_XOR_MAPPED_ADDRESS`. -/
def attrXorMappedAddress : UInt16 := 0x0020

/-- `STUN_HEADER_SIZE`. -/
def stunHeaderSize : Nat := 20

/-- A parser has no state. -/
abbrev Parser (α : Type) := Exec NatError Unit α

/-- A number in lower-case hexadecimal, with leading zeros up to the width. -/
def hex (width n : Nat) : String :=
  let digits := Nat.toDigits 16 n
  "0x" ++ String.ofList (List.replicate (width - digits.length) '0' ++ digits)

/-- The parser gives up. -/
def fail {α : Type} (reason : String) : Parser α := throw (.error (.stunFailed reason))

/-- `u16::from_be_bytes([data[i], data[i + 1]])`. -/
def be16 (data : List UInt8) (i : Nat) : Parser UInt16 := do
  let high ← Exec.index data i
  let low ← Exec.index data (i + 1)
  pure (UInt16.ofNat (ofBeBytes [high, low]))

/-- The address in a MAPPED-ADDRESS attribute. -/
def parseMappedAddress (data : List UInt8) : Parser SocketAddr := do
  if data.length < 8 then fail "MAPPED-ADDRESS too short"
  else do
    let family ← Exec.index data 1
    let port ← be16 data 2
    if family = 0x01 then do
      let a ← Exec.index data 4
      let b ← Exec.index data 5
      let c ← Exec.index data 6
      let d ← Exec.index data 7
      pure ⟨.v4 (Ipv4Addr.new a b c d), port⟩
    else fail ("unsupported address family: " ++ hex 2 family.toNat)

/-- The address in a XOR-MAPPED-ADDRESS attribute. -/
def parseXorMappedAddress (data : List UInt8) : Parser SocketAddr := do
  if data.length < 8 then fail "XOR-MAPPED-ADDRESS too short"
  else do
    let family ← Exec.index data 1
    let xorPort ← be16 data 2
    let port := xorPort ^^^ (magicCookie >>> 16).toUInt16
    if family = 0x01 then do
      let cookieBytes := toBeBytes 4 magicCookie.toNat
      let a := (← Exec.index data 4) ^^^ (← Exec.index cookieBytes 0)
      let b := (← Exec.index data 5) ^^^ (← Exec.index cookieBytes 1)
      let c := (← Exec.index data 6) ^^^ (← Exec.index cookieBytes 2)
      let d := (← Exec.index data 7) ^^^ (← Exec.index cookieBytes 3)
      pure ⟨.v4 (Ipv4Addr.new a b c d), port⟩
    else fail ("unsupported address family: " ++ hex 2 family.toNat)

/-- The loop over the attributes, which are padded to multiples of four bytes. -/
def parseAttributes (data : List UInt8) (stop : Nat) : Nat → Nat → Parser SocketAddr
  | 0, _ => throw .blocked
  | rounds + 1, offset =>
    if offset + 4 ≤ stop then do
      let attrType ← be16 data offset
      let attrLen := (← be16 data (offset + 2)).toNat
      let offset := offset + 4
      if stop < offset + attrLen then fail "no mapped address in response"
      else if attrType = attrXorMappedAddress then do
        let value ← Exec.slice data offset (offset + attrLen)
        parseXorMappedAddress value
      else if attrType = attrMappedAddress then do
        let value ← Exec.slice data offset (offset + attrLen)
        parseMappedAddress value
      else parseAttributes data stop rounds (offset + (attrLen + 3) / 4 * 4)
    else fail "no mapped address in response"

/-- The address in a binding response, from the first attribute that has one. -/
def parseBindingResponse (data : List UInt8) (expectedTxnId : Vector UInt8 12) :
    Parser SocketAddr := do
  if data.length < stunHeaderSize then
    fail ("response too short: " ++ toString data.length ++ " bytes")
  else do
    let msgType ← be16 data 0
    if msgType ≠ bindingResponse then fail ("unexpected message type: " ++ hex 4 msgType.toNat)
    else do
      let a ← Exec.index data 4
      let b ← Exec.index data 5
      let c ← Exec.index data 6
      let d ← Exec.index data 7
      let cookie := UInt32.ofNat (ofBeBytes [a, b, c, d])
      if cookie ≠ magicCookie then fail ("invalid magic cookie: " ++ hex 8 cookie.toNat)
      else do
        let txnId ← Exec.slice data 8 20
        if txnId ≠ expectedTxnId.toList then fail "transaction ID mismatch"
        else do
          let msgLen := (← be16 data 2).toNat
          if data.length < stunHeaderSize + msgLen then fail "truncated response"
          else parseAttributes data (stunHeaderSize + msgLen) data.length stunHeaderSize

/-! ## No panic -/

/-- Two bytes within the data. -/
theorem be16_of_lt {data : List UInt8} {i : Nat} (h : i + 1 < data.length) :
    be16 data i = pure (UInt16.ofNat (ofBeBytes [data[i], data[i + 1]])) := by
  rw [be16, Exec.index_of_lt (Nat.lt_of_succ_lt h), Exec.index_of_lt h, pure_bind, pure_bind]

/-- Parsing a MAPPED-ADDRESS attribute never panics. -/
theorem parseMappedAddress_returned (data : List UInt8) :
    Exec.Returned (parseMappedAddress data ()) := by
  rw [parseMappedAddress]
  split
  case isTrue => trivial
  case isFalse hlen =>
    simp (disch := omega) only [Exec.index_of_lt, be16_of_lt, pure_bind]
    split <;> trivial

/-- Parsing a XOR-MAPPED-ADDRESS attribute never panics. -/
theorem parseXorMappedAddress_returned (data : List UInt8) :
    Exec.Returned (parseXorMappedAddress data ()) := by
  rw [parseXorMappedAddress]
  split
  case isTrue => trivial
  case isFalse hlen =>
    simp (disch := omega) only [Exec.index_of_lt, be16_of_lt, pure_bind]
    rw [show toBeBytes 4 magicCookie.toNat = [0x21, 0x12, 0xA4, 0x42] by decide]
    split
    · exact True.intro
    · trivial

/-- Every round goes on by four bytes or more, so the rounds suffice. -/
theorem parseAttributes_returned {data : List UInt8} {stop : Nat} (hstop : stop ≤ data.length)
    {rounds offset : Nat} (hpos : 0 < rounds) (hrounds : stop < offset + rounds) :
    Exec.Returned (parseAttributes data stop rounds offset ()) := by
  induction rounds generalizing offset with
  | zero => exact absurd hpos (Nat.lt_irrefl 0)
  | succ rounds ih =>
    rw [parseAttributes]
    split
    case isFalse => trivial
    case isTrue hhead =>
      simp (disch := omega) only [be16_of_lt, pure_bind]
      split
      case isTrue => trivial
      case isFalse hfits =>
        have hslice : ∀ parser : List UInt8 → Parser SocketAddr,
            (∀ value, Exec.Returned (parser value ())) →
            ∀ stop', offset + 4 ≤ stop' → stop' ≤ stop →
              Exec.Returned ((Exec.slice data (offset + 4) stop' >>= parser) ()) := by
          intro parser hparser stop' hle hend
          rw [Exec.slice_eq_pure hle (hend.trans hstop), pure_bind]
          exact hparser _
        split
        · exact hslice _ parseXorMappedAddress_returned _ (by omega) (by omega)
        · split
          · exact hslice _ parseMappedAddress_returned _ (by omega) (by omega)
          · exact ih (by omega) (by omega)

/-- Parsing a response never panics. -/
theorem parseBindingResponse_returned (data : List UInt8) (expectedTxnId : Vector UInt8 12) :
    Exec.Returned (parseBindingResponse data expectedTxnId ()) := by
  rw [parseBindingResponse]
  split
  case isTrue => trivial
  case isFalse hshort =>
    have hheader : stunHeaderSize = 20 := rfl
    have hlen : 20 ≤ data.length := Nat.le_of_not_lt hshort
    simp (disch := omega) only [Exec.index_of_lt, be16_of_lt, pure_bind]
    split
    · trivial
    split
    · trivial
    rw [Exec.slice_eq_pure (by decide) hlen, pure_bind]
    split
    · trivial
    split
    · trivial
    case isFalse hmsg =>
      exact parseAttributes_returned (Nat.le_of_not_lt hmsg) (by omega) (by omega)

end CekyP2P.Stun
