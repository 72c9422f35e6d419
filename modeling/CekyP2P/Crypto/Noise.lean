import CekyP2P.Core.Exec
import CekyP2P.Crypto.Suite
import CekyP2P.Crypto.Types

/-!
# Noise XX handshake

The three-message handshake as the crate runs it, generic in the suite. Fresh
ephemeral secrets are arguments; every other step, including the order in which
`h` and `ck` are updated before an error is returned, follows the source.
-/

namespace CekyP2P.Crypto

variable {β σ : Type}

/-- The X25519 part of a node identity; both constructors of the source derive the
public key from the secret. -/
structure Identity (S : Suite β σ) where
  x25519Secret : σ
  x25519PublicKey : Vector β 32
  public_eq : x25519PublicKey = S.publicKey x25519Secret

/-- The identity with a given secret in the evaluation suite. -/
def xorIdentity (secret : Vector UInt8 32) : Identity xorSuite := ⟨secret, secret, rfl⟩

/-- The state of a handshake, with the keys that the next message needs. -/
inductive InternalState (β σ : Type)
  | new
  /-- Initiator sent msg1, ephemeral keypair stored. -/
  | initSentMsg1 (ephemeralSecret : σ) (ephemeralPublic : Vector β 32)
  /-- Responder processed msg1, created msg2, stores keys for msg3. -/
  | respSentMsg2 (remoteEphemeral : Vector β 32) (ourEphemeralSecret : σ)
  | complete (sendKey recvKey remoteStatic : Vector β 32)

/-- A handshake of one party. -/
structure NoiseHandshake (S : Suite β σ) where
  identity : Identity S
  isInitiator : Bool
  /-- Running handshake hash. -/
  h : Vector β 32
  /-- Chaining key. -/
  ck : Vector β 32
  state : InternalState β σ

namespace NoiseHandshake

variable {S : Suite β σ}

/-- A handshake method. -/
abbrev HandshakeM (S : Suite β σ) (α : Type) := Exec CryptoError (NoiseHandshake S) α

/-- `h = ck = HASH(protocol_name)`. -/
def initializeSymmetricState (S : Suite β σ) : Vector β 32 × Vector β 32 :=
  (S.sha256 S.protocolName, S.sha256 S.protocolName)

/-- The handshake of the party that sends the first message. -/
def newInitiator (identity : Identity S) : NoiseHandshake S where
  identity := identity
  isInitiator := true
  h := (initializeSymmetricState S).1
  ck := (initializeSymmetricState S).2
  state := .new

/-- The handshake of the party that waits for the first message. -/
def newResponder (identity : Identity S) : NoiseHandshake S where
  identity := identity
  isInitiator := false
  h := (initializeSymmetricState S).1
  ck := (initializeSymmetricState S).2
  state := .new

/-- Mix data into the handshake hash. -/
def mixHash (data : List β) : HandshakeM S Unit :=
  modify fun n => { n with h := S.sha256 (n.h.toList ++ data) }

/-- Derive the next chaining key and a cipher key; the source repeats these two lines
after every Diffie-Hellman exchange. -/
def advanceKey (inputKeyMaterial : List β) : HandshakeM S (Vector β 32) := do
  let n ← get
  let (ck, k) := S.hkdf n.ck inputKeyMaterial
  set { n with ck := ck }
  pure k

/-- Encrypt with the running hash as associated data. -/
def encryptWithAd (key : Vector β 32) (nonceCounter : UInt64) (plaintext : List β) :
    HandshakeM S (List β) := do
  let n ← get
  Exec.orError (.handshakeFailed "AEAD encryption failed")
    (S.aead.encrypt key (S.nonce nonceCounter) plaintext n.h.toList)

/-- Decrypt with the running hash as associated data. -/
def decryptWithAd (key : Vector β 32) (nonceCounter : UInt64) (ciphertext : List β) :
    HandshakeM S (List β) := do
  let n ← get
  Exec.orError .decryptionFailed
    (S.aead.decrypt key (S.nonce nonceCounter) ciphertext n.h.toList)

/-- Go on to the next state. -/
def setState (state : InternalState β σ) : HandshakeM S Unit :=
  modify fun n => { n with state := state }

/-- Initiator: create message 1 (-> e). -/
def createMessage1 (ephemeral : σ) : HandshakeM S (List β) := do
  let n ← get
  match n.isInitiator, n.state with
  | false, _ | true, .new =>
    mixHash (S.publicKey ephemeral).toList
    setState (.initSentMsg1 ephemeral (S.publicKey ephemeral))
    pure (S.publicKey ephemeral).toList
  | true, _ => throw (.error (.invalidHandshakeState "New" "\"not New\""))

/-- Responder: process message 1 and create message 2 (<- e, ee, s, es). -/
def processMessage1CreateMessage2 (ephemeral : σ) (msg1 : List β) : HandshakeM S (List β) := do
  if msg1.length ≠ 32 then
    throw (.error (.handshakeFailed s!"msg1 should be 32 bytes, got {msg1.length}"))
  else
    let remoteEphemeral ← Exec.copyFromSlice 32 msg1
    mixHash remoteEphemeral.toList
    mixHash (S.publicKey ephemeral).toList
    let k1 ← advanceKey (S.dh ephemeral remoteEphemeral).toList
    let n ← get
    let encryptedStatic ← encryptWithAd k1 0 n.identity.x25519PublicKey.toList
    mixHash encryptedStatic
    let k2 ← advanceKey (S.dh n.identity.x25519Secret remoteEphemeral).toList
    let encryptedPayload ← encryptWithAd k2 0 []
    mixHash encryptedPayload
    setState (.respSentMsg2 remoteEphemeral ephemeral)
    pure ((S.publicKey ephemeral).toList ++ encryptedStatic ++ encryptedPayload)

/-- Initiator: process message 2 and create message 3 (-> s, se). -/
def processMessage2CreateMessage3 (msg2 : List β) : HandshakeM S (List β) := do
  let n ← get
  match n.state with
  | .initSentMsg1 ephemeralSecret _ =>
    if msg2.length < 32 + 48 + 16 then
      throw (.error (.handshakeFailed s!"msg2 too short: {msg2.length} bytes"))
    else
      let remoteEphemeral ← Exec.copyFromSlice 32 (← Exec.slice msg2 0 32)
      mixHash remoteEphemeral.toList
      let k1 ← advanceKey (S.dh ephemeralSecret remoteEphemeral).toList
      let encryptedStatic ← Exec.slice msg2 32 (32 + 48)
      let remoteStaticBytes ← decryptWithAd k1 0 encryptedStatic
      mixHash encryptedStatic
      let remoteStatic ← Exec.copyFromSlice 32 remoteStaticBytes
      let k2 ← advanceKey (S.dh ephemeralSecret remoteStatic).toList
      let encryptedPayload ← Exec.slice msg2 (32 + 48) msg2.length
      let _ ← decryptWithAd k2 0 encryptedPayload
      mixHash encryptedPayload
      let k3 ← advanceKey []
      let encryptedOurStatic ← encryptWithAd k3 0 n.identity.x25519PublicKey.toList
      mixHash encryptedOurStatic
      let _ ← advanceKey (S.dh n.identity.x25519Secret remoteEphemeral).toList
      let last ← get
      let (sendKey, recvKey) := S.hkdf last.ck []
      setState (.complete sendKey recvKey remoteStatic)
      pure encryptedOurStatic
  | _ => throw (.error (.invalidHandshakeState "InitSentMsg1" "other"))

/-- Responder: process message 3 to complete the handshake. -/
def processMessage3 (msg3 : List β) : HandshakeM S Unit := do
  let n ← get
  match n.state with
  | .respSentMsg2 _ ourEphemeralSecret =>
    let k3 ← advanceKey []
    let remoteStaticBytes ← decryptWithAd k3 0 msg3
    mixHash msg3
    let remoteStatic ← Exec.copyFromSlice 32 remoteStaticBytes
    let _ ← advanceKey (S.dh ourEphemeralSecret remoteStatic).toList
    let last ← get
    let (recvKey, sendKey) := S.hkdf last.ck []
    setState (.complete sendKey recvKey remoteStatic)
  | _ => throw (.error (.invalidHandshakeState "RespSentMsg2" "other"))

/-- Extract the session keys after a successful handshake. -/
def intoSessionKeys (n : NoiseHandshake S) : Except CryptoError (SessionKeys β) :=
  match n.state with
  | .complete sendKey recvKey remoteStatic => .ok ⟨sendKey, recvKey, remoteStatic⟩
  | _ => .error (.invalidHandshakeState "Complete" "not complete")

end NoiseHandshake

end CekyP2P.Crypto
