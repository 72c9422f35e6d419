import CekyP2P.Core.Bytes

/-!
# Authenticated encryption as the crypto crate uses it

The cipher is an external package and enters as a parameter: one pair of
functions on keys, 12-byte nonces, messages and associated data, over an
arbitrary alphabet of bytes. What the code relies on is stated once as
`Aead.Lawful`. The zero-tag cipher shows that these laws can be met and serves
for evaluation.
-/

namespace CekyP2P.Crypto

/-- `TAG_SIZE`: the authentication tag appended to every ciphertext. -/
def tagSize : Nat := 16

/-- An AEAD cipher; `none` stands for the opaque error of the package. -/
structure Aead (β : Type) where
  encrypt : (key : Vector β 32) → (nonce : Vector β 12) → (msg aad : List β) → Option (List β)
  decrypt : (key : Vector β 32) → (nonce : Vector β 12) → (msg aad : List β) → Option (List β)

/-- The documented behaviour of ChaCha20-Poly1305 on honest inputs. Encryption fails
only when the 32-bit block counter would run out. -/
structure Aead.Lawful {β : Type} (a : Aead β) : Prop where
  encrypt_isSome : ∀ key nonce msg aad, msg.length / 64 < 2 ^ 32 - 1 →
    (a.encrypt key nonce msg aad).isSome = true
  encrypt_length : ∀ {key nonce msg aad c}, a.encrypt key nonce msg aad = some c →
    c.length = msg.length + tagSize
  decrypt_encrypt : ∀ {key nonce msg aad c}, a.encrypt key nonce msg aad = some c →
    a.decrypt key nonce c aad = some msg
  decrypt_length : ∀ {key nonce msg aad p}, a.decrypt key nonce msg aad = some p →
    msg.length = p.length + tagSize

/-- A cipher that hides nothing: the message followed by a tag of 16 zero bytes. -/
def zeroTagAead : Aead UInt8 where
  encrypt _ _ msg _ :=
    if msg.length / 64 < 2 ^ 32 - 1 then some (msg ++ List.replicate tagSize 0) else none
  decrypt _ _ msg _ :=
    if tagSize ≤ msg.length ∧ msg.drop (msg.length - tagSize) = List.replicate tagSize 0 then
      some (msg.take (msg.length - tagSize))
    else none

/-- The cipher with a zero tag has the laws. -/
theorem zeroTagAead_lawful : zeroTagAead.Lawful where
  encrypt_isSome key nonce msg aad h := by simp only [zeroTagAead, if_pos h, Option.isSome_some]
  encrypt_length {key nonce msg aad c} h := by
    simp only [zeroTagAead, Option.ite_none_right_eq_some, Option.some.injEq] at h
    rw [← h.2, List.length_append, List.length_replicate]
  decrypt_encrypt {key nonce msg aad c} h := by
    simp only [zeroTagAead, Option.ite_none_right_eq_some, Option.some.injEq] at h
    simp [← h.2, zeroTagAead]
  decrypt_length {key nonce msg aad p} h := by
    simp only [zeroTagAead, Option.ite_none_right_eq_some, Option.some.injEq] at h
    rw [← h.2, List.length_take]
    have := h.1.1
    omega

/-- A checksum of one byte: the data as one number, modulo a prime. -/
def checksum (data : List UInt8) : UInt8 :=
  UInt8.ofNat (data.foldl (fun acc b => (256 * acc + b.toNat) % 251) 7)

/-- The tag of `checksumAead`. -/
def checksumTag (key : Vector UInt8 32) (msg aad : List UInt8) : List UInt8 :=
  List.replicate tagSize (checksum (key.toList ++ aad ++ msg))

/-- A cipher that hides nothing, but whose tag depends on the key and the associated data. -/
def checksumAead : Aead UInt8 where
  encrypt key _ msg aad :=
    if msg.length / 64 < 2 ^ 32 - 1 then some (msg ++ checksumTag key msg aad) else none
  decrypt key _ msg aad :=
    let plain := msg.take (msg.length - tagSize)
    if tagSize ≤ msg.length ∧ msg.drop (msg.length - tagSize) = checksumTag key plain aad then
      some plain
    else none

/-- The cipher with a checksum as its tag has the laws. -/
theorem checksumAead_lawful : checksumAead.Lawful where
  encrypt_isSome key nonce msg aad h := by simp only [checksumAead, if_pos h, Option.isSome_some]
  encrypt_length {key nonce msg aad c} h := by
    simp only [checksumAead, Option.ite_none_right_eq_some, Option.some.injEq] at h
    rw [← h.2, List.length_append, checksumTag, List.length_replicate]
  decrypt_encrypt {key nonce msg aad c} h := by
    simp only [checksumAead, Option.ite_none_right_eq_some, Option.some.injEq] at h
    simp [← h.2, checksumAead, checksumTag]
  decrypt_length {key nonce msg aad p} h := by
    simp only [checksumAead, Option.ite_none_right_eq_some, Option.some.injEq] at h
    rw [← h.2, List.length_take]
    have := h.1.1
    omega

end CekyP2P.Crypto
