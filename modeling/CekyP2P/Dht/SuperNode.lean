import CekyP2P.Core.FiniteMap
import CekyP2P.Dht.PeerInfo
import Mathlib.Data.List.Sort

/-!
# Tracked performance of peers

The manager of super nodes keeps a record for every peer it has heard of. A call of
`record_performance` creates the record or updates it: it counts successes and failures, and folds
a latency into the average that promotions look at. `evaluate_all` gives every peer the tier that
its record earns, and `prune` forgets the worst regular peers if there are too many. Counters are
64-bit words, and every call has one time.
-/

namespace CekyP2P.Dht

open Crypto Transfer

/-- How far a node is trusted with other nodes' traffic. -/
inductive SuperNodeTier
  | regular | candidate | superNode | elite
  deriving DecidableEq

/-- The derived order: the later variant is the greater one. -/
def SuperNodeTier.rank : SuperNodeTier → Nat
  | regular => 0
  | candidate => 1
  | superNode => 2
  | elite => 3

instance : LT SuperNodeTier := ⟨fun a b => a.rank < b.rank⟩

instance (a b : SuperNodeTier) : Decidable (a < b) := inferInstanceAs (Decidable (_ < _))

/-- What a node has to show for each tier. -/
structure PromotionCriteria (F : Type) where
  candidateUptime : Nat
  supernodeUptime : Nat
  eliteUptime : Nat
  minSuccessRate : F
  maxAvgLatencyMs : F
  minSuccesses : UInt64
  eliteMinSuccesses : UInt64
  observationPeriod : Nat
  deriving DecidableEq

/-- What is tracked of a node. -/
structure SuperNodeInfo (F : Type) where
  peerId : PeerId
  addr : SocketAddr
  tier : SuperNodeTier
  promotedAt : Option Nat
  tierSince : Nat
  totalSuccesses : UInt64
  totalFailures : UInt64
  avgLatencyMs : F
  bytesRelayed : UInt64
  trackedSince : Nat
  deriving DecidableEq

/-- The nodes that are tracked, and the criteria. -/
structure SuperNodeManager (F : Type) where
  criteria : PromotionCriteria F
  nodes : AList fun _ : PeerId => SuperNodeInfo F
  maxTracked : Nat

/-- `f64` with `<=`, which is not the negation of `>` for NaN. -/
structure F64Ord (F : Type) extends F64 F where
  le : F → F → Bool

/-- Rational numbers in the place of `f64`. -/
def F64Ord.exact : F64Ord ℚ where
  toF64 := F64.exact
  le a b := a ≤ b

/-- The arguments of a call of `record_performance`, and the time of it. -/
structure PerformanceReport (F : Type) where
  peerId : PeerId
  addr : SocketAddr
  success : Bool
  latencyMs : Option F
  now : Nat
  deriving DecidableEq

variable {F : Type} (f64 : F64 F)

/-- `PromotionCriteria::default`: one, four and 24 hours, and an observation of 30 minutes. -/
def PromotionCriteria.default : PromotionCriteria F where
  candidateUptime := 3600 * 1000000000
  supernodeUptime := 4 * 3600 * 1000000000
  eliteUptime := 24 * 3600 * 1000000000
  minSuccessRate := f64.div (f64.ofNat 95) (f64.ofNat 100)
  maxAvgLatencyMs := f64.ofNat 100
  minSuccesses := 100
  eliteMinSuccesses := 1000
  observationPeriod := 1800 * 1000000000

namespace SuperNodeInfo

/-- A node that is tracked from now on. -/
def new (peerId : PeerId) (addr : SocketAddr) (now : Nat) : SuperNodeInfo F where
  peerId := peerId
  addr := addr
  tier := .regular
  promotedAt := none
  tierSince := now
  totalSuccesses := 0
  totalFailures := 0
  avgLatencyMs := f64.ofNat 0
  bytesRelayed := 0
  trackedSince := now

/-- The average after another latency; `n` is the number of successes. -/
def averaged (n lat avgLatencyMs : F) : F :=
  f64.add (f64.mul avgLatencyMs (f64.div (f64.sub n (f64.ofNat 1)) n)) (f64.div lat n)

/-- The record after a report. The divisor counts the successes, not the latencies. -/
def recorded (report : PerformanceReport F) (info : SuperNodeInfo F) : SuperNodeInfo F :=
  let info : SuperNodeInfo F := { info with addr := report.addr }
  if report.success then
    let totalSuccesses := info.totalSuccesses + 1
    match report.latencyMs with
    | some lat =>
      { info with
        totalSuccesses
        avgLatencyMs := averaged f64 (f64.ofNat totalSuccesses.toNat) lat info.avgLatencyMs }
    | none => { info with totalSuccesses }
  else { info with totalFailures := info.totalFailures + 1 }

/-- How long a node has been tracked. -/
def uptime (now : Nat) (info : SuperNodeInfo F) : Nat := now - info.trackedSince

/-- The part of the reports that were successes. -/
def successRate (info : SuperNodeInfo F) : F :=
  let total := info.totalSuccesses + info.totalFailures
  if total = 0 then f64.ofNat 0
  else f64.div (f64.ofNat info.totalSuccesses.toNat) (f64.ofNat total.toNat)

end SuperNodeInfo

namespace SuperNodeManager

/-- A manager that tracks nobody. -/
def new (criteria : PromotionCriteria F) (maxTracked : Nat) : SuperNodeManager F where
  criteria := criteria
  nodes := ∅
  maxTracked := maxTracked

/-- The record of a peer, or a new one. -/
def entry (report : PerformanceReport F) (m : SuperNodeManager F) : SuperNodeInfo F :=
  (m.nodes.lookup report.peerId).getD (.new f64 report.peerId report.addr report.now)

/-- A report is entered, for a new node as well. -/
def recordPerformance (m : SuperNodeManager F) (report : PerformanceReport F) :
    SuperNodeManager F :=
  { m with nodes := m.nodes.insert report.peerId ((m.entry f64 report).recorded f64 report) }

/-- A report changes the entry of its node. -/
theorem lookup_recordPerformance (m : SuperNodeManager F) (report : PerformanceReport F)
    (peerId : PeerId) : (m.recordPerformance f64 report).nodes.lookup peerId =
      if peerId = report.peerId then some ((m.entry f64 report).recorded f64 report)
      else m.nodes.lookup peerId :=
  FiniteMap.lookup_insert _ _ _ _

end SuperNodeManager

/-! ## Tiers -/

section

variable (f64 : F64Ord F) (criteria : PromotionCriteria F) (now : Nat)

/-- The tier of a node: the highest that it has earned, unless it is demoted. -/
def evaluateTier (info : SuperNodeInfo F) : SuperNodeTier :=
  let uptime := info.uptime now
  let successRate := info.successRate f64.toF64
  if f64.lt successRate criteria.minSuccessRate ∧
      10 < info.totalSuccesses + info.totalFailures then .regular
  else if f64.lt criteria.maxAvgLatencyMs info.avgLatencyMs ∧ 10 < info.totalSuccesses then
    .regular
  else if criteria.eliteUptime ≤ uptime ∧ f64.le criteria.minSuccessRate successRate ∧
      criteria.eliteMinSuccesses ≤ info.totalSuccesses ∧
      f64.le info.avgLatencyMs criteria.maxAvgLatencyMs then .elite
  else if criteria.supernodeUptime ≤ uptime ∧ f64.le criteria.minSuccessRate successRate ∧
      criteria.minSuccesses ≤ info.totalSuccesses ∧
      f64.le info.avgLatencyMs criteria.maxAvgLatencyMs then .superNode
  else if criteria.candidateUptime ≤ uptime ∧ f64.le criteria.minSuccessRate successRate then
    .candidate
  else .regular

/-- The body of the loop of `evaluate_all`. -/
def evaluated (info : SuperNodeInfo F) : SuperNodeInfo F :=
  let newTier := evaluateTier f64 criteria now info
  if newTier ≠ info.tier then
    { info with
      tier := newTier
      tierSince := now
      promotedAt :=
        if info.tier = .regular ∧ newTier ≠ .regular then some now else info.promotedAt }
  else info

/-- What the loop pushes for a node. -/
def tierChange (info : SuperNodeInfo F) : Option (PeerId × SuperNodeTier × SuperNodeTier) :=
  let newTier := evaluateTier f64 criteria now info
  if newTier ≠ info.tier then some (info.peerId, info.tier, newTier) else none

end

namespace SuperNodeManager

/-- The changes, in the order in which the map is iterated over, and the manager after them. -/
def evaluateAll (f64 : F64Ord F) (now : Nat) (m : SuperNodeManager F) :
    List (PeerId × SuperNodeTier × SuperNodeTier) × SuperNodeManager F :=
  (m.nodes.entries.filterMap fun entry => tierChange f64 m.criteria now entry.2,
    { m with nodes := FiniteMap.mapValues m.nodes (evaluated f64 m.criteria now) })

/-! ## Pruning -/

/-- The regular nodes with their successes, in the order in which the map is iterated over. -/
def regulars (m : SuperNodeManager F) : List (PeerId × UInt64) :=
  (m.nodes.entries.filter fun entry => entry.2.tier = .regular).map fun entry =>
    (entry.1, entry.2.totalSuccesses)

/-- The number of nodes that were removed, and the manager without them. The sort is stable. -/
def prune (m : SuperNodeManager F) : Nat × SuperNodeManager F :=
  if m.nodes.keys.length ≤ m.maxTracked then (0, m)
  else
    let excess := m.nodes.keys.length - m.maxTracked
    let regulars := m.regulars.insertionSort fun a b => a.2 ≤ b.2
    let pruned := min regulars.length excess
    (pruned, { m with nodes := FiniteMap.eraseAll m.nodes ((regulars.take pruned).map (·.1)) })

end SuperNodeManager

end CekyP2P.Dht
