import CekyP2P.Core.Buf
import CekyP2P.Transfer.State

/-!
# DHT messages

A lookup request and the peers that answer it. A response holds at most 255 peers, and its
decoder accepts exactly the encodings of such responses, whatever follows them: the addresses
in it are not checked.
-/

namespace CekyP2P.Protocol

open Reader Transfer

/-- `DHT_VERSION`. -/
def dhtVersion : UInt8 := 1

/-- The errors of the DHT messages. -/
inductive DhtError
  | unsupportedVersion (version : UInt8)
  | bufferTooShort (needed got : Nat)
  | invalidAddressFamily (family : UInt8)
  deriving DecidableEq

/-- Read the identifier of a peer. -/
def readPeerId : Reader DhtError (Vector UInt8 32) := do
  ensureRemaining .bufferTooShort 32
  copyToSlice 32

/-- An address with its family. -/
def writeSocketAddr (addr : SocketAddr) : List UInt8 :=
  match addr.ip with
  | .v4 octets => 4 :: (octets.toList ++ toBeBytes 2 addr.port.toNat)
  | .v6 octets => 6 :: (octets.toList ++ toBeBytes 2 addr.port.toNat)

/-- The octets and the port behind the family byte. -/
def readIpPort (n : Nat) (ip : Vector UInt8 n → IpAddr) : Reader DhtError SocketAddr := do
  ensureRemaining .bufferTooShort (n + 2)
  let octets ← copyToSlice n
  let port ← getU16
  pure ⟨ip octets, port⟩

/-- Read an address with its family. -/
def readSocketAddr : Reader DhtError SocketAddr := do
  ensureRemaining .bufferTooShort 1
  let family ← getU8
  if family = 4 then readIpPort 4 .v4
  else if family = 6 then readIpPort 16 .v6
  else throw (.error (.invalidAddressFamily family))

/-- The request for the closest peers to a target. -/
structure FindNode where
  target : Vector UInt8 32
  deriving DecidableEq

namespace FindNode

/-- The bytes of a request. -/
def encode (request : FindNode) : List UInt8 := dhtVersion :: request.target.toList

/-- Read a request. -/
def read : Reader DhtError FindNode := do
  ensureRemaining .bufferTooShort (1 + 32)
  let version ← getU8
  if version ≠ dhtVersion then throw (.error (.unsupportedVersion version))
  else do
    let target ← readPeerId
    pure ⟨target⟩

/-- The request in a payload. -/
def decode (payload : List UInt8) : Except (Stop DhtError) FindNode := FindNode.read.parse payload

end FindNode

/-- The answer to a request. -/
structure FindNodeResp where
  peers : List (Vector UInt8 32 × SocketAddr)
  deriving DecidableEq

namespace FindNodeResp

/-- A peer of an answer. -/
def writePeer (peer : Vector UInt8 32 × SocketAddr) : List UInt8 :=
  peer.1.toList ++ writeSocketAddr peer.2

/-- The bytes of an answer, with at most 255 peers. -/
def encode (resp : FindNodeResp) : List UInt8 :=
  let count := min resp.peers.length 255
  dhtVersion :: UInt8.ofNat count :: (resp.peers.take count).flatMap writePeer

/-- The loop of `decode`. -/
def readPeers : Nat → Reader DhtError (List (Vector UInt8 32 × SocketAddr))
  | 0 => pure []
  | n + 1 => do
    let id ← readPeerId
    let addr ← readSocketAddr
    let peers ← readPeers n
    pure ((id, addr) :: peers)

/-- Read an answer. -/
def read : Reader DhtError FindNodeResp := do
  ensureRemaining .bufferTooShort 2
  let version ← getU8
  if version ≠ dhtVersion then throw (.error (.unsupportedVersion version))
  else do
    let count ← getU8
    let peers ← readPeers count.toNat
    pure ⟨peers⟩

/-- The answer in a payload. -/
def decode (payload : List UInt8) : Except (Stop DhtError) FindNodeResp :=
  FindNodeResp.read.parse payload

end FindNodeResp

section

variable {buf rest : List UInt8}

/-- An identifier is read where the buffer begins with it. -/
theorem readPeerId_eq_ok {id : Vector UInt8 32} :
    readPeerId buf = .ok id rest ↔ buf = id.toList ++ rest := by
  rw [readPeerId, ensureRemaining_bind_eq_ok, copyToSlice_eq_ok, and_iff_right_iff_imp]
  rintro rfl
  simp

/-- An address is read where the buffer begins with its octets and its port. -/
theorem readIpPort_eq_ok {n : Nat} {ip : Vector UInt8 n → IpAddr} {addr : SocketAddr} :
    readIpPort n ip buf = .ok addr rest ↔
      ∃ octets, addr.ip = ip octets ∧
        buf = octets.toList ++ (toBeBytes 2 addr.port.toNat ++ rest) := by
  rw [readIpPort, ensureRemaining_bind_eq_ok]
  constructor
  · rintro ⟨-, h⟩
    obtain ⟨octets, _, hoctets, h⟩ := Exec.bind_eq_ok.mp h
    obtain ⟨port, _, hport, h⟩ := Exec.bind_eq_ok.mp h
    cases h
    rw [copyToSlice_eq_ok.mp hoctets, getU16_eq_ok.mp hport]
    exact ⟨octets, rfl, rfl⟩
  · rintro ⟨octets, hip, rfl⟩
    refine ⟨by simp, ?_⟩
    refine Exec.bind_eq_ok.mpr ⟨octets, _, copyToSlice_eq_ok.mpr rfl, ?_⟩
    refine Exec.bind_eq_ok.mpr ⟨addr.port, _, getU16_eq_ok.mpr rfl, ?_⟩
    rw [← hip]
    rfl

/-- An address is read where the buffer begins with its encoding. -/
theorem readSocketAddr_eq_ok {addr : SocketAddr} :
    readSocketAddr buf = .ok addr rest ↔ buf = writeSocketAddr addr ++ rest := by
  rw [readSocketAddr, ensureRemaining_bind_eq_ok]
  constructor
  · rintro ⟨-, h⟩
    obtain ⟨family, _, hfamily, h⟩ := Exec.bind_eq_ok.mp h
    rw [getU8_eq_ok.mp hfamily]
    split at h
    case isTrue hv4 =>
      obtain ⟨octets, hip, rfl⟩ := readIpPort_eq_ok.mp h
      simp [writeSocketAddr, hip, hv4]
    case isFalse =>
      split at h
      case isTrue hv6 =>
        obtain ⟨octets, hip, rfl⟩ := readIpPort_eq_ok.mp h
        simp [writeSocketAddr, hip, hv6]
      case isFalse => cases h
  · rintro rfl
    obtain ⟨ip, port⟩ := addr
    cases ip with
    | v4 octets =>
      refine ⟨by simp [writeSocketAddr], ?_⟩
      refine Exec.bind_eq_ok.mpr ⟨4, _, getU8_eq_ok.mpr rfl, ?_⟩
      rw [if_pos rfl]
      exact readIpPort_eq_ok.mpr ⟨octets, rfl, by simp⟩
    | v6 octets =>
      refine ⟨by simp [writeSocketAddr], ?_⟩
      refine Exec.bind_eq_ok.mpr ⟨6, _, getU8_eq_ok.mpr rfl, ?_⟩
      rw [if_neg (by decide), if_pos rfl]
      exact readIpPort_eq_ok.mpr ⟨octets, rfl, by simp⟩

namespace FindNodeResp

/-- Peers are read where the buffer begins with their encodings. -/
theorem readPeers_eq_ok {n : Nat} {peers : List (Vector UInt8 32 × SocketAddr)} :
    readPeers n buf = .ok peers rest ↔
      peers.length = n ∧ buf = peers.flatMap writePeer ++ rest := by
  induction n generalizing buf peers with
  | zero =>
    rw [readPeers, List.length_eq_zero_iff]
    constructor
    · intro h
      cases h
      exact ⟨rfl, rfl⟩
    · rintro ⟨rfl, rfl⟩
      rfl
  | succ n ih =>
    rw [readPeers]
    constructor
    · intro h
      obtain ⟨id, _, hid, h⟩ := Exec.bind_eq_ok.mp h
      obtain ⟨addr, _, haddr, h⟩ := Exec.bind_eq_ok.mp h
      obtain ⟨tail, _, htail, h⟩ := Exec.bind_eq_ok.mp h
      cases h
      obtain ⟨hlength, rfl⟩ := ih.mp htail
      rw [readPeerId_eq_ok.mp hid, readSocketAddr_eq_ok.mp haddr]
      simp [writePeer, hlength]
    · rintro ⟨hlength, rfl⟩
      obtain ⟨⟨id, addr⟩, tail, rfl⟩ := List.exists_cons_of_length_eq_add_one hlength
      rw [List.length_cons, Nat.add_right_cancel_iff] at hlength
      simp only [List.flatMap_cons, writePeer, List.append_assoc]
      refine Exec.bind_eq_ok.mpr ⟨id, _, readPeerId_eq_ok.mpr rfl, ?_⟩
      refine Exec.bind_eq_ok.mpr ⟨addr, _, readSocketAddr_eq_ok.mpr rfl, ?_⟩
      exact Exec.bind_eq_ok.mpr ⟨tail, _, ih.mpr ⟨hlength, rfl⟩, rfl⟩

/-- What is accepted is the encoding of a response of at most 255 peers, and more bytes. -/
theorem decode_eq_ok {payload : List UInt8} {resp : FindNodeResp} :
    decode payload = .ok resp ↔
      resp.peers.length ≤ 255 ∧ ∃ rest, payload = resp.encode ++ rest := by
  rw [decode, parse_eq_ok]
  constructor
  · rintro ⟨rest, h⟩
    rw [FindNodeResp.read, ensureRemaining_bind_eq_ok] at h
    obtain ⟨version, _, hversion, h⟩ := Exec.bind_eq_ok.mp h.2
    obtain ⟨heq, h⟩ := Exec.ite_throw_eq_ok.mp h
    obtain ⟨count, _, hcount, h⟩ := Exec.bind_eq_ok.mp h
    obtain ⟨peers, _, hpeers, h⟩ := Exec.bind_eq_ok.mp h
    cases h
    obtain ⟨hlength, rfl⟩ := readPeers_eq_ok.mp hpeers
    have hle : peers.length ≤ 255 := hlength ▸ Nat.le_of_lt_succ count.toNat_lt
    refine ⟨hle, rest, ?_⟩
    rw [getU8_eq_ok.mp hversion, not_not.mp heq, getU8_eq_ok.mp hcount]
    simp only [encode, Nat.min_eq_left hle, List.take_length, List.cons_append]
    rw [hlength, UInt8.ofNat_toNat]
  · rintro ⟨hle, rest, rfl⟩
    refine ⟨rest, ?_⟩
    simp only [encode, Nat.min_eq_left hle, List.take_length, List.cons_append]
    rw [FindNodeResp.read, ensureRemaining_bind_eq_ok]
    refine ⟨by simp, ?_⟩
    refine Exec.bind_eq_ok.mpr ⟨dhtVersion, _, getU8_eq_ok.mpr rfl, ?_⟩
    rw [if_neg (by simp)]
    refine Exec.bind_eq_ok.mpr ⟨_, _, getU8_eq_ok.mpr rfl, ?_⟩
    refine Exec.bind_eq_ok.mpr ⟨resp.peers, rest, readPeers_eq_ok.mpr ⟨?_, rfl⟩, rfl⟩
    rw [UInt8.toNat_ofNat_of_lt' (Nat.lt_succ_of_le hle)]

end FindNodeResp

end

/-! ## No panic -/

/-- Reading an identifier never panics. -/
theorem safe_readPeerId : Safe 0 readPeerId := .ensured (fits_copyToSlice 32).safe _

/-- Reading octets and a port never panics. -/
theorem safe_readIpPort (n : Nat) (ip : Vector UInt8 n → IpAddr) : Safe 0 (readIpPort n ip) :=
  .ensured ((fits_copyToSlice n).bind_safe fun _ => fits_getU16.safe.bind fun _ =>
    (fits_pure _).safe) _

/-- Reading an address never panics. -/
theorem safe_readSocketAddr : Safe 0 readSocketAddr := by
  refine .ensured (fits_getU8.safe.bind fun family => ?_) _
  split
  · exact safe_readIpPort 4 .v4
  · split
    · exact safe_readIpPort 16 .v6
    · exact (fits_throw 0 _).safe

/-- Decoding a request never panics. -/
theorem FindNode.decode_answered (payload : List UInt8) : Answered (FindNode.decode payload) := by
  refine (Safe.ensured ?_ _).parse (Nat.zero_le _)
  refine fits_getU8.bind_safe fun _ => .check _ fun _ => ?_
  exact (safe_readPeerId.bind fun _ => (fits_pure _).safe).mono (Nat.zero_le _)

/-- Whatever the count says, every peer is checked for before it is read. -/
theorem FindNodeResp.safe_readPeers (n : Nat) : Safe 0 (readPeers n) := by
  induction n with
  | zero => exact (fits_pure _).safe
  | succ n ih =>
    exact safe_readPeerId.bind fun _ => safe_readSocketAddr.bind fun _ =>
      ih.bind fun _ => (fits_pure _).safe

/-- Decoding an answer never panics. -/
theorem FindNodeResp.decode_answered (payload : List UInt8) :
    Answered (FindNodeResp.decode payload) := by
  refine (Safe.ensured (n := 1 + 1) ?_ _).parse (Nat.zero_le _)
  refine fits_getU8.bind_safe fun _ => .check _ fun _ => fits_getU8.safe.bind fun count => ?_
  exact (safe_readPeers count.toNat).bind fun _ => (fits_pure _).safe

end CekyP2P.Protocol
