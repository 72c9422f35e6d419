import Mathlib.Algebra.Order.Ring.Unbundled.Rat
import CekyP2P.Crypto.Identity
import CekyP2P.Transfer.State

/-!
# Peers of a routing table

Instants and durations are counted in nanoseconds. The arithmetic of `f64` is a parameter.
-/

namespace CekyP2P.Dht

open Crypto Transfer

/-- The operations of `f64` that scores use. -/
structure F64 (F : Type) where
  ofNat : Nat → F
  add : F → F → F
  sub : F → F → F
  mul : F → F → F
  div : F → F → F
  min : F → F → F
  max : F → F → F
  log2 : F → F
  lt : F → F → Bool
  /-- `f64::MAX`. -/
  greatest : F

/-- Exact arithmetic in place of the floating-point one; logarithms are rounded down to natural
numbers. -/
def F64.exact : F64 ℚ where
  ofNat n := n
  add := (· + ·)
  sub := (· - ·)
  mul := (· * ·)
  div := (· / ·)
  min := Min.min
  max := Max.max
  log2 x := x.floor.toNat.log2
  lt a b := a < b
  greatest := (2 ^ 53 - 1) * 2 ^ 971

/-- What is known of a peer's availability. -/
inductive PeerState
  | discovered | active | suspect | dead
  deriving DecidableEq

/-- The counters from which a peer is scored. -/
structure PeerScore (F : Type) where
  avgLatencyMs : F
  successes : UInt64
  failures : UInt64
  bytesRelayed : UInt64
  uptime : Nat
  firstSeen : Nat
  latencySumMs : F
  deriving DecidableEq

variable {F : Type} (f64 : F64 F)

namespace PeerScore

/-- The score of a peer that nothing is known of. -/
def new (now : Nat) : PeerScore F where
  avgLatencyMs := f64.ofNat 0
  successes := 0
  failures := 0
  bytesRelayed := 0
  uptime := 0
  firstSeen := now
  latencySumMs := f64.ofNat 0

/-- `Duration::as_secs_f64`. -/
def asSecs (duration : Nat) : F :=
  f64.add (f64.ofNat (duration / 1000000000))
    (f64.div (f64.ofNat (duration % 1000000000)) (f64.ofNat 1000000000))

/-- A peer has answered. -/
def recordSuccess (latency now : Nat) (s : PeerScore F) : PeerScore F :=
  let successes := s.successes + 1
  let latencyMs := f64.mul (asSecs f64 latency) (f64.ofNat 1000)
  let latencySumMs := f64.add s.latencySumMs latencyMs
  { s with
    successes, latencySumMs
    avgLatencyMs := f64.div latencySumMs (f64.ofNat successes.toNat)
    uptime := now - s.firstSeen }

/-- A peer has not answered. -/
def recordFailure (now : Nat) (s : PeerScore F) : PeerScore F :=
  { s with failures := s.failures + 1, uptime := now - s.firstSeen }

/-- One number from the reliability, the latency, the uptime and the traffic of a peer. -/
def compositeScore (s : PeerScore F) : F :=
  let reliability := f64.div (f64.mul (f64.ofNat s.successes.toNat) (f64.ofNat 10))
    (f64.add (f64.ofNat s.failures.toNat) (f64.ofNat 1))
  let latencyPenalty := f64.div s.avgLatencyMs (f64.ofNat 100)
  let uptimeBonus := f64.div
    (f64.min (f64.ofNat (s.uptime / 1000000000)) (f64.ofNat 3600)) (f64.ofNat 360)
  let relayBonus := f64.div
    (f64.max (f64.log2 (f64.ofNat s.bytesRelayed.toNat)) (f64.ofNat 0)) (f64.ofNat 10)
  f64.add (f64.add (f64.sub reliability latencyPenalty) uptimeBonus) relayBonus

end PeerScore

/-- An entry of the routing table. -/
structure PeerInfo (F : Type) where
  peerId : PeerId
  addr : SocketAddr
  state : PeerState
  score : PeerScore F
  lastSeen : Nat
  addedAt : Nat
  deriving DecidableEq

namespace PeerInfo

/-- A peer that was just discovered. -/
def new (peerId : PeerId) (addr : SocketAddr) (now : Nat) : PeerInfo F where
  peerId := peerId
  addr := addr
  state := .discovered
  score := .new f64 now
  lastSeen := now
  addedAt := now

/-- The peer has answered. -/
def markActive (latency now : Nat) (p : PeerInfo F) : PeerInfo F :=
  { p with state := .active, lastSeen := now, score := p.score.recordSuccess f64 latency now }

/-- The peer has not answered. -/
def markSuspect (now : Nat) (p : PeerInfo F) : PeerInfo F :=
  { p with state := .suspect, score := p.score.recordFailure now }

/-- The peer is given up. -/
def markDead (p : PeerInfo F) : PeerInfo F := { p with state := .dead }

/-- The peer was seen. -/
def touch (now : Nat) (p : PeerInfo F) : PeerInfo F := { p with lastSeen := now }

/-- The peer may be asked and returned. -/
def isUsable (p : PeerInfo F) : Bool := p.state = .discovered ∨ p.state = .active

end PeerInfo

end CekyP2P.Dht
