/-!
# Errors and key material shared by the handshake and the session
-/

namespace CekyP2P.Crypto

/-- The errors that identities, the handshake and the session return. -/
inductive CryptoError
  | handshakeFailed (reason : String)
  | invalidHandshakeState (expected got : String)
  | decryptionFailed
  | nonceOverflow
  | replayDetected (nonce : UInt64)
  | invalidSignature
  deriving DecidableEq, Repr

/-- Session keys derived from a completed handshake. -/
structure SessionKeys (β : Type) where
  sendKey : Vector β 32
  recvKey : Vector β 32
  remoteStatic : Vector β 32

end CekyP2P.Crypto
