import CekyP2P.Protocol.Dht
import Mathlib.Data.Set.List

/-!
# Lookup responses on the wire

The addresses of the standard library have two more fields for IPv6, the flow info and the
scope. The wire format has neither, so a response comes back with both set to zero. Apart from
that the decoder is exact: it accepts a payload if and only if a version byte, a count and as
many well-formed entries stand at its beginning.
-/

namespace CekyP2P.Protocol

open Reader Transfer

/-- `std::net::SocketAddr` with all its fields. -/
inductive StdSocketAddr
  | v4 (ip : Vector UInt8 4) (port : UInt16)
  | v6 (ip : Vector UInt8 16) (port : UInt16) (flowinfo scopeId : UInt32)
  deriving DecidableEq

namespace StdSocketAddr

/-- `SocketAddr::new`. -/
def new (ip : IpAddr) (port : UInt16) : StdSocketAddr :=
  match ip with
  | .v4 octets => v4 octets port
  | .v6 octets => v6 octets port 0 0

/-- What `ip()` and `port()` give. -/
def toAddr : StdSocketAddr → SocketAddr
  | v4 ip port => ⟨.v4 ip, port⟩
  | v6 ip port _ _ => ⟨.v6 ip, port⟩

/-- `write_socket_addr`. -/
def write : StdSocketAddr → List UInt8
  | v4 ip port => 4 :: (ip.toList ++ toBeBytes 2 port.toNat)
  | v6 ip port _ _ => 6 :: (ip.toList ++ toBeBytes 2 port.toNat)

/-- The address without its flow info and scope. -/
def unscoped : StdSocketAddr → StdSocketAddr
  | v4 ip port => v4 ip port
  | v6 ip port _ _ => v6 ip port 0 0

/-- Scope and flow label are not written. -/
theorem write_eq (addr : StdSocketAddr) : addr.write = writeSocketAddr addr.toAddr := by
  cases addr <;> rfl

/-- An address without scope and flow label. -/
theorem new_toAddr (addr : StdSocketAddr) :
    new addr.toAddr.ip addr.toAddr.port = addr.unscoped := by
  cases addr <;> rfl

/-- An address that has none of them is kept. -/
theorem toAddr_new (addr : SocketAddr) : (new addr.ip addr.port).toAddr = addr := by
  obtain ⟨ip, port⟩ := addr
  cases ip <;> rfl

end StdSocketAddr

/-- A response with the addresses of the standard library. -/
structure StdFindNodeResp where
  peers : List (Vector UInt8 32 × StdSocketAddr)
  deriving DecidableEq

namespace StdFindNodeResp

/-- The bytes of an answer, with at most 255 peers. -/
def encode (resp : StdFindNodeResp) : List UInt8 :=
  let count := min resp.peers.length 255
  dhtVersion :: UInt8.ofNat count ::
    (resp.peers.take count).flatMap fun peer => peer.1.toList ++ peer.2.write

/-- Each address that is read ends in a call of `SocketAddr::new`. -/
def decode (payload : List UInt8) : Except (Stop DhtError) StdFindNodeResp :=
  (FindNodeResp.decode payload).map fun resp =>
    ⟨resp.peers.map fun peer => (peer.1, .new peer.2.ip peer.2.port)⟩

/-- The response without flow infos and scopes. -/
def toResp (resp : StdFindNodeResp) : FindNodeResp :=
  ⟨resp.peers.map fun peer => (peer.1, peer.2.toAddr)⟩

/-- Scope and flow label are not encoded. -/
theorem encode_eq (resp : StdFindNodeResp) : resp.encode = resp.toResp.encode := by
  simp only [encode, FindNodeResp.encode, toResp, List.length_map, ← List.map_take,
    List.flatMap_map, FindNodeResp.writePeer, StdSocketAddr.write_eq]

/-- What is decoded has addresses without scope and flow label. -/
theorem decode_eq_ok {payload : List UInt8} {resp : StdFindNodeResp} :
    decode payload = .ok resp ↔ ∃ short, FindNodeResp.decode payload = .ok short ∧
      (⟨short.peers.map fun peer => (peer.1, .new peer.2.ip peer.2.port)⟩ : StdFindNodeResp) =
        resp := by
  rw [decode]
  cases FindNodeResp.decode payload <;> simp [Except.map]

/-- A response comes back with its first 255 peers, and IPv6 addresses without flow info and
scope. -/
theorem decode_encode_unscoped (resp : StdFindNodeResp) :
    decode resp.encode =
      .ok ⟨(resp.peers.take (min 255 resp.peers.length)).map
        fun peer => (peer.1, peer.2.unscoped)⟩ := by
  let first : FindNodeResp :=
    ⟨(resp.peers.take (min 255 resp.peers.length)).map fun peer => (peer.1, peer.2.toAddr)⟩
  have hcount : first.peers.length = min 255 resp.peers.length := by
    simp [first]
  have hle : first.peers.length ≤ 255 := by omega
  have hencode : resp.encode = first.encode ++ [] := by
    rw [List.append_nil, encode_eq, FindNodeResp.encode, FindNodeResp.encode,
      Nat.min_eq_left hle, hcount, List.take_of_length_le (Nat.le_of_eq hcount)]
    simp [toResp, first, Nat.min_comm]
  refine decode_eq_ok.mpr ⟨first, FindNodeResp.decode_eq_ok.mpr ⟨hle, [], hencode⟩, ?_⟩
  simp [first, Function.comp_def, StdSocketAddr.new_toAddr]

/-- The scope of a link-local address does not survive. -/
theorem decode_encode_scope :
    decode (encode ⟨[(Vector.replicate 32 7, .v6 (Vector.replicate 16 1) 9000 0 3)]⟩) ≠
      .ok ⟨[(Vector.replicate 32 7, .v6 (Vector.replicate 16 1) 9000 0 3)]⟩ := by
  decide +kernel

/-! ## What is accepted -/

/-- The bytes of an entry: an identifier, a family, an address of that family and a port. -/
inductive IsEntry : List UInt8 → Prop
  | v4 {id ip port : List UInt8} : id.length = 32 → ip.length = 4 → port.length = 2 →
      IsEntry (id ++ 4 :: (ip ++ port))
  | v6 {id ip port : List UInt8} : id.length = 32 → ip.length = 16 → port.length = 2 →
      IsEntry (id ++ 6 :: (ip ++ port))

/-- The payload begins with version 1, the count `count` and as many entries. -/
def BeginsWith (count : UInt8) (payload : List UInt8) : Prop :=
  ∃ entries : List (List UInt8), entries.length = count.toNat ∧ (∀ entry ∈ entries, IsEntry entry) ∧
    1 :: count :: entries.flatten <+: payload

/-- Two bytes are a port. -/
theorem exists_port {bytes : List UInt8} (h : bytes.length = 2) :
    ∃ port : UInt16, toBeBytes 2 port.toNat = bytes := by
  have hlt : ofBeBytes bytes < 2 ^ 16 := by
    have := ofBeBytes_lt bytes
    rw [h] at this
    exact this
  refine ⟨UInt16.ofNat (ofBeBytes bytes), ?_⟩
  rw [UInt16.toNat_ofNat_of_lt' hlt, ← h, toBeBytes_ofBeBytes]

/-- The entries are what is written for the peers. -/
theorem isEntry_iff (entry : List UInt8) :
    IsEntry entry ↔ ∃ peer, FindNodeResp.writePeer peer = entry := by
  constructor
  · intro h
    cases h with
    | v4 hid hip hport =>
      obtain ⟨id, rfl⟩ := Exec.exists_vector_of_length hid
      obtain ⟨ip, rfl⟩ := Exec.exists_vector_of_length hip
      obtain ⟨port, rfl⟩ := exists_port hport
      exact ⟨(id, ⟨.v4 ip, port⟩), rfl⟩
    | v6 hid hip hport =>
      obtain ⟨id, rfl⟩ := Exec.exists_vector_of_length hid
      obtain ⟨ip, rfl⟩ := Exec.exists_vector_of_length hip
      obtain ⟨port, rfl⟩ := exists_port hport
      exact ⟨(id, ⟨.v6 ip, port⟩), rfl⟩
  · rintro ⟨⟨id, ip, port⟩, rfl⟩
    cases ip with
    | v4 ip => exact .v4 (by simp) (by simp) (by simp)
    | v6 ip => exact .v6 (by simp) (by simp) (by simp)

/-- The layout that is asked for is that of an answer. -/
theorem beginsWith_iff {count : UInt8} {payload : List UInt8} :
    BeginsWith count payload ↔ ∃ resp : FindNodeResp, resp.peers.length = count.toNat ∧
      resp.encode <+: payload := by
  have hencode : ∀ peers : List (Vector UInt8 32 × SocketAddr), peers.length = count.toNat →
      FindNodeResp.encode ⟨peers⟩ =
        1 :: count :: (peers.map FindNodeResp.writePeer).flatten := by
    intro peers hlength
    have hle : peers.length ≤ 255 := hlength ▸ Nat.le_of_lt_succ count.toNat_lt
    rw [FindNodeResp.encode, Nat.min_eq_left hle, List.take_length, hlength, UInt8.ofNat_toNat,
      List.flatMap_def]
    rfl
  constructor
  · rintro ⟨entries, hlength, hentries, hprefix⟩
    have hrange : entries ∈ Set.range (List.map FindNodeResp.writePeer) := by
      rw [Set.range_list_map]
      exact fun entry hentry => (isEntry_iff entry).mp (hentries entry hentry)
    obtain ⟨peers, rfl⟩ := hrange
    rw [List.length_map] at hlength
    exact ⟨⟨peers⟩, hlength, hencode peers hlength ▸ hprefix⟩
  · rintro ⟨⟨peers⟩, hlength, hprefix⟩
    refine ⟨peers.map FindNodeResp.writePeer, by rwa [List.length_map], ?_, ?_⟩
    · intro entry hentry
      obtain ⟨peer, -, rfl⟩ := List.mem_map.mp hentry
      exact (isEntry_iff _).mpr ⟨peer, rfl⟩
    · rwa [← hencode peers hlength]

/-- A payload with this layout is decoded. -/
theorem decode_of_beginsWith {count : UInt8} {payload : List UInt8}
    (h : BeginsWith count payload) : ∃ short : FindNodeResp,
      short.peers.length = count.toNat ∧ FindNodeResp.decode payload = .ok short := by
  obtain ⟨short, hlength, rest, hrest⟩ := beginsWith_iff.mp h
  have hle : short.peers.length ≤ 255 := hlength ▸ Nat.le_of_lt_succ count.toNat_lt
  exact ⟨short, hlength, FindNodeResp.decode_eq_ok.mpr ⟨hle, rest, hrest.symm⟩⟩

/-- What is decoded has this layout. -/
theorem beginsWith_of_decode {payload : List UInt8} {short : FindNodeResp}
    (h : FindNodeResp.decode payload = .ok short) : ∃ count, BeginsWith count payload := by
  obtain ⟨hle, rest, rfl⟩ := FindNodeResp.decode_eq_ok.mp h
  refine ⟨UInt8.ofNat short.peers.length, beginsWith_iff.mpr ⟨short, ?_, rest, rfl⟩⟩
  rw [UInt8.toNat_ofNat_of_lt' (Nat.lt_succ_of_le hle)]

/-- An answer is kept under addresses without scope and flow label. -/
theorem toResp_new (resp : FindNodeResp) :
    toResp ⟨resp.peers.map fun peer => (peer.1, .new peer.2.ip peer.2.port)⟩ = resp := by
  simp [toResp, Function.comp_def, StdSocketAddr.toAddr_new]

/-- A payload is accepted exactly if it begins with the entries that its count announces. Then
the response has that many peers and its encoding is what was read; everything else is an
error. -/
theorem decode_faithful (payload : List UInt8) :
    ((∃ resp, decode payload = .ok resp) ↔ ∃ count, BeginsWith count payload) ∧
      (∀ resp count, decode payload = .ok resp → BeginsWith count payload →
        resp.peers.length = count.toNat ∧ resp.encode <+: payload) ∧
      ((¬∃ count, BeginsWith count payload) → ∃ e, decode payload = .error (.error e)) := by
  refine ⟨⟨?_, ?_⟩, ?_, ?_⟩
  · rintro ⟨resp, hresp⟩
    obtain ⟨short, hshort, -⟩ := decode_eq_ok.mp hresp
    exact beginsWith_of_decode hshort
  · rintro ⟨count, hbegins⟩
    obtain ⟨short, -, hshort⟩ := decode_of_beginsWith hbegins
    exact ⟨_, decode_eq_ok.mpr ⟨short, hshort, rfl⟩⟩
  · intro resp count hresp hbegins
    obtain ⟨short, hlength, hshort⟩ := decode_of_beginsWith hbegins
    obtain ⟨other, hother, rfl⟩ := decode_eq_ok.mp hresp
    obtain rfl : short = other := Except.ok.inj (hshort.symm.trans hother)
    obtain ⟨-, rest, hpayload⟩ := FindNodeResp.decode_eq_ok.mp hshort
    refine ⟨by rw [List.length_map, hlength], rest, ?_⟩
    rw [encode_eq, toResp_new, hpayload]
  · intro hnot
    rcases FindNodeResp.decode_answered payload with ⟨short, hshort⟩ | ⟨e, herror⟩
    · exact absurd (beginsWith_of_decode hshort) hnot
    · refine ⟨e, ?_⟩
      rw [decode, herror]
      rfl

end StdFindNodeResp

end CekyP2P.Protocol
