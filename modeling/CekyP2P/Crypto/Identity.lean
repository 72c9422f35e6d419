import Mathlib.Data.Nat.Notation
import CekyP2P.Crypto.Types

/-!
# Peer identifiers

An identifier is the hash of an Ed25519 key, and that key signs the X25519 key of the
handshake. The XOR of two identifiers decides the bucket of a routing table in which one
node keeps the other. SHA-256 and the verification of signatures are parameters.
-/

namespace CekyP2P.Crypto

/-- The identifier of a peer, the hash of its public key. -/
structure PeerId where
  bytes : Vector UInt8 32
  deriving DecidableEq

/-- Bytes of the right number fill an identifier. -/
theorem PeerId.size_toArray {bytes : List UInt8} (h : bytes.length = 32) :
    bytes.toArray.size = 32 :=
  h

/-- `u8::leading_zeros`. -/
def leadingZeros (byte : UInt8) : Nat := if byte = 0 then 8 else 7 - byte.toNat.log2

namespace PeerId

/-- The identifier of a public key. -/
def fromPublicKey (sha256 : List UInt8 → Vector UInt8 32) (publicKey : Vector UInt8 32) : PeerId :=
  ⟨sha256 publicKey.toList⟩

/-- The distance of two identifiers, byte by byte. -/
def xorDistance (a b : PeerId) : Vector UInt8 32 := Vector.zipWith (· ^^^ ·) a.bytes b.bytes

/-- Different identifiers have different distances from a target. -/
theorem xorDistance_left_injective (target : PeerId) :
    Function.Injective fun id : PeerId => id.xorDistance target := by
  rintro ⟨a⟩ ⟨b⟩ h
  rw [PeerId.mk.injEq]
  ext i hi
  have hbyte := congrArg (fun v => v[i]) h
  simp only [xorDistance, Vector.getElem_zipWith] at hbyte
  rw [(UInt8.xor_left_inj _).mp hbyte]

/-- The loop of `bucket_index`, from byte `byteIdx` on. -/
def firstSetBit (byteIdx : Nat) : List UInt8 → Option Nat
  | [] => none
  | byte :: rest =>
    if byte ≠ 0 then some (byteIdx * 8 + (7 - leadingZeros byte))
    else firstSetBit (byteIdx + 1) rest

/-- The bucket of `b` in the routing table of `a`; none for `a` itself. -/
def bucketIndex (a b : PeerId) : Option Nat := firstSetBit 0 (a.xorDistance b).toList

/-- No bit is found if all bytes are zero. -/
theorem firstSetBit_eq_none {byteIdx : Nat} {bytes : List UInt8} :
    firstSetBit byteIdx bytes = none ↔ ∀ byte ∈ bytes, byte = 0 := by
  induction bytes generalizing byteIdx with
  | nil => simp [firstSetBit]
  | cons byte rest ih =>
    by_cases hzero : byte = 0
    · simp [firstSetBit, hzero, ih]
    · simp [firstSetBit, hzero]

/-- The index that is found lies within the bytes. -/
theorem firstSetBit_lt {byteIdx i : Nat} {bytes : List UInt8}
    (h : firstSetBit byteIdx bytes = some i) : i < (byteIdx + bytes.length) * 8 := by
  induction bytes generalizing byteIdx with
  | nil => cases h
  | cons byte rest ih =>
    rw [firstSetBit] at h
    split at h
    · cases h
      rw [List.length_cons]
      omega
    · have := ih h
      rw [List.length_cons]
      omega

/-- A node has a bucket for every identifier but its own. -/
theorem bucketIndex_eq_none {a b : PeerId} : a.bucketIndex b = none ↔ a = b := by
  rw [bucketIndex, firstSetBit_eq_none]
  constructor
  · intro h
    obtain ⟨a⟩ := a
    obtain ⟨b⟩ := b
    rw [PeerId.mk.injEq]
    ext i hi
    have hzero := h ((Vector.zipWith (· ^^^ ·) a b)[i]) (by
      rw [xorDistance]
      exact Vector.mem_toList_iff.mpr (Vector.getElem_mem hi))
    rw [Vector.getElem_zipWith] at hzero
    rw [UInt8.xor_eq_zero_iff.mp hzero]
  · rintro rfl byte hbyte
    obtain ⟨i, hi, rfl⟩ := Vector.mem_iff_getElem.mp (Vector.mem_toList_iff.mp hbyte)
    simp [xorDistance]

/-- Every identifier but one's own has a bucket. -/
theorem exists_bucketIndex {a b : PeerId} (h : a ≠ b) : ∃ i, a.bucketIndex b = some i :=
  Option.ne_none_iff_exists'.mp fun hnone => h (bucketIndex_eq_none.mp hnone)

/-- There are 256 buckets. -/
theorem bucketIndex_lt {a b : PeerId} {i : Nat} (h : a.bucketIndex b = some i) : i < 256 := by
  have := firstSetBit_lt h
  simpa using this

end PeerId

/-- `Verifier::verify` for a key, a message and a signature. -/
abbrev Ed25519Verify := Vector UInt8 32 → List UInt8 → Vector UInt8 64 → Bool

/-- `Identity::verify_peer_binding`: the owner of an identifier signed the X25519 key. -/
def verifyPeerBinding (sha256 : List UInt8 → Vector UInt8 32) (verify : Ed25519Verify)
    (ed25519Pk x25519Pk : Vector UInt8 32) (signature : Vector UInt8 64) :
    Except CryptoError PeerId :=
  if verify ed25519Pk x25519Pk.toList signature then .ok (.fromPublicKey sha256 ed25519Pk)
  else .error .invalidSignature

end CekyP2P.Crypto
