import CekyP2P.Crypto.Aead

/-!
# The primitives of the handshake

X25519, SHA-256, HMAC and the cipher as one parameter, over an arbitrary
alphabet of bytes and an arbitrary type of secret scalars. HMAC is written out
in the crate, so the byte-level suite builds it from the hash.
-/

namespace CekyP2P.Crypto

/-- The primitives `Noise_XX_25519_ChaChaPoly_SHA256` is built from. -/
structure Suite (β σ : Type) where
  /-- A literal byte of the code. -/
  lit : UInt8 → β
  publicKey : σ → Vector β 32
  dh : σ → Vector β 32 → Vector β 32
  sha256 : List β → Vector β 32
  hmacSha256 : (key data : List β) → Vector β 32
  aead : Aead β

/-- What a lawful suite satisfies: both sides of a Diffie-Hellman exchange agree, and
the cipher behaves. -/
structure Suite.Lawful {β σ : Type} (S : Suite β σ) : Prop where
  dh_comm : ∀ a b, S.dh a (S.publicKey b) = S.dh b (S.publicKey a)
  aead : S.aead.Lawful

/-- The crate's own HMAC over a 64-byte block. -/
def hmacSha256 (sha256 : List UInt8 → Vector UInt8 32) (key data : List UInt8) :
    Vector UInt8 32 :=
  let kPrime := (if key.length ≤ 64 then key else (sha256 key).toList)
  let kPrime := kPrime ++ List.replicate (64 - kPrime.length) 0
  let ipad := kPrime.map (0x36 ^^^ ·)
  let opad := kPrime.map (0x5c ^^^ ·)
  sha256 (opad ++ (sha256 (ipad ++ data)).toList)

/-- The suite on real bytes, with the external packages as parameters. -/
def byteSuite {σ : Type} (publicKey : σ → Vector UInt8 32)
    (dh : σ → Vector UInt8 32 → Vector UInt8 32) (sha256 : List UInt8 → Vector UInt8 32)
    (aead : Aead UInt8) : Suite UInt8 σ where
  lit b := b
  publicKey := publicKey
  dh := dh
  sha256 := sha256
  hmacSha256 := CekyP2P.Crypto.hmacSha256 sha256
  aead := aead

/-- A suite for evaluation: the public key is the secret, `dh` is bytewise exclusive or,
the hash folds its input into one repeated byte, and the cipher is the zero-tag one. -/
def xorSuite : Suite UInt8 (Vector UInt8 32) :=
  byteSuite id (Vector.zipWith (· ^^^ ·))
    (fun data => Vector.replicate 32 (data.foldl (fun acc b => 31 * acc + b) 7)) zeroTagAead

/-- The suite has the laws. -/
theorem xorSuite_lawful : xorSuite.Lawful where
  dh_comm a b := by
    ext i hi
    simp [xorSuite, byteSuite, UInt8.xor_comm]
  aead := zeroTagAead_lawful

namespace Suite

variable {β σ : Type} (S : Suite β σ)

/-- The handshake's key derivation: two outputs from a chaining key and input material. -/
def hkdf (chainingKey : Vector β 32) (inputKeyMaterial : List β) : Vector β 32 × Vector β 32 :=
  let prk := S.hmacSha256 chainingKey.toList inputKeyMaterial
  let t1 := S.hmacSha256 prk.toList [S.lit 0x01]
  let t2 := S.hmacSha256 prk.toList (t1.toList ++ [S.lit 0x02])
  (t1, t2)

/-- The nonce of the AEAD helpers: four zero bytes and the little-endian counter. -/
def nonce (counter : UInt64) : Vector β 12 :=
  (Vector.replicate 4 (0 : UInt8) ++ toLeBytes counter).map S.lit

/-- `Noise_XX_25519_ChaChaPoly_SHA256` in ASCII. -/
def protocolName : List β :=
  ("Noise_XX_25519_ChaChaPoly_SHA256".toUTF8.toList).map S.lit

end Suite

end CekyP2P.Crypto
