/-!
# Errors of the DHT
-/

namespace CekyP2P.Dht

/-- The errors of this crate that the model returns. -/
inductive DhtError
  | bucketFull (bucket : Nat)
  | invalidKey (reason : String)
  deriving DecidableEq

end CekyP2P.Dht
