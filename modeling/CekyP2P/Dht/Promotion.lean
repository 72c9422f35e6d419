import CekyP2P.Core.Exec
import CekyP2P.Dht.SuperNode

/-!
# Promotions and the observation period

The criteria have an observation period, but `evaluate_tier` does not read it: a node gets the
highest tier that its record earns, however short the time in its tier was. So promotions keep to
the period only where no node earns a higher tier before the period is over.
-/

namespace CekyP2P.Dht

open Crypto Transfer

variable {F : Type} (f64 : F64Ord F)

/-! ## What a record earns -/

section

variable (criteria : PromotionCriteria F) (now : Nat) (info : SuperNodeInfo F)

/-- The record of more than ten requests has too few successes, or too high a latency. -/
def Demoted : Prop :=
  f64.lt (info.successRate f64.toF64) criteria.minSuccessRate ∧
      10 < info.totalSuccesses + info.totalFailures ∨
    f64.lt criteria.maxAvgLatencyMs info.avgLatencyMs ∧ 10 < info.totalSuccesses

/-- The thresholds of a tier. -/
def Earns : SuperNodeTier → Prop
  | .regular => True
  | .candidate => criteria.candidateUptime ≤ info.uptime now ∧
      f64.le criteria.minSuccessRate (info.successRate f64.toF64)
  | .superNode => criteria.supernodeUptime ≤ info.uptime now ∧
      f64.le criteria.minSuccessRate (info.successRate f64.toF64) ∧
      criteria.minSuccesses ≤ info.totalSuccesses ∧
      f64.le info.avgLatencyMs criteria.maxAvgLatencyMs
  | .elite => criteria.eliteUptime ≤ info.uptime now ∧
      f64.le criteria.minSuccessRate (info.successRate f64.toF64) ∧
      criteria.eliteMinSuccesses ≤ info.totalSuccesses ∧
      f64.le info.avgLatencyMs criteria.maxAvgLatencyMs

instance : DecidablePred (Earns f64 criteria now info)
  | .regular => .isTrue trivial
  | .candidate => inferInstanceAs (Decidable (_ ∧ _))
  | .superNode => inferInstanceAs (Decidable (_ ∧ _))
  | .elite => inferInstanceAs (Decidable (_ ∧ _))

end

variable {f64} {criteria : PromotionCriteria F} {now : Nat} {info : SuperNodeInfo F}
  {tier : SuperNodeTier}

/-- A demoted node is regular. -/
theorem evaluateTier_of_demoted (h : Demoted f64 criteria info) :
    evaluateTier f64 criteria now info = .regular := by
  rw [evaluateTier]
  rcases h with hrate | hlatency
  · rw [if_pos hrate]
  · rw [if_pos hlatency, ite_self]

/-- Without a demotion the thresholds are tried from the highest tier on. -/
theorem evaluateTier_of_not_demoted (h : ¬Demoted f64 criteria info) :
    evaluateTier f64 criteria now info =
      if Earns f64 criteria now info .elite then .elite
      else if Earns f64 criteria now info .superNode then .superNode
      else if Earns f64 criteria now info .candidate then .candidate
      else .regular := by
  obtain ⟨hrate, hlatency⟩ := not_or.mp h
  rw [evaluateTier, if_neg hrate, if_neg hlatency]
  rfl

/-- A node that is not demoted gets a tier that it has earned. -/
theorem earns_evaluateTier (h : ¬Demoted f64 criteria info) :
    Earns f64 criteria now info (evaluateTier f64 criteria now info) := by
  rw [evaluateTier_of_not_demoted h]
  split
  · assumption
  · split
    · assumption
    · split
      · assumption
      · trivial

/-- The tier of a node is the highest one that it earns. -/
theorem rank_le_evaluateTier (h : ¬Demoted f64 criteria info)
    (hearns : Earns f64 criteria now info tier) :
    tier.rank ≤ (evaluateTier f64 criteria now info).rank := by
  rw [evaluateTier_of_not_demoted h]
  cases tier with
  | regular => exact Nat.zero_le _
  | candidate => split_ifs <;> decide
  | superNode => split_ifs <;> decide
  | elite => split_ifs; decide

/-- A node is above a tier just if it has earned a higher one and is not demoted. -/
theorem lt_evaluateTier_iff : tier < evaluateTier f64 criteria now info ↔
    ¬Demoted f64 criteria info ∧ ∃ earned, tier < earned ∧ Earns f64 criteria now info earned := by
  constructor
  · intro hlt
    have hdemoted : ¬Demoted f64 criteria info := by
      intro hdemoted
      rw [evaluateTier_of_demoted hdemoted] at hlt
      exact Nat.not_lt_zero _ hlt
    exact ⟨hdemoted, _, hlt, earns_evaluateTier hdemoted⟩
  · rintro ⟨hdemoted, earned, hlt, hearns⟩
    exact Nat.lt_of_lt_of_le hlt (rank_le_evaluateTier hdemoted hearns)

/-- An evaluation sets the tier. -/
theorem tier_evaluated :
    (evaluated f64 criteria now info).tier = evaluateTier f64 criteria now info := by
  rw [evaluated]
  split
  case isTrue => rfl
  case isFalse h => exact (not_not.mp h).symm

/-! ## Runs of the manager -/

/-- A call of the manager, with the time of it. -/
inductive ManagerCall (F : Type)
  | recordPerformance (report : PerformanceReport F)
  | evaluateAll (now : Nat)

/-- The time of a call. -/
def ManagerCall.time : ManagerCall F → Nat
  | recordPerformance report => report.now
  | evaluateAll now => now

namespace SuperNodeManager

variable (f64)

/-- What a call makes of the manager. -/
def next (m : SuperNodeManager F) : ManagerCall F → SuperNodeManager F
  | .recordPerformance report => m.recordPerformance f64.toF64 report
  | .evaluateAll now => (m.evaluateAll f64 now).2

/-- A node that the call raises has been in its tier for the observation period. -/
def Observed (m : SuperNodeManager F) : ManagerCall F → Prop
  | .recordPerformance _ => True
  | .evaluateAll now => ∀ id info info', m.nodes.lookup id = some info →
      (m.evaluateAll f64 now).2.nodes.lookup id = some info' → info.tier < info'.tier →
        m.criteria.observationPeriod ≤ now - info.tierSince

/-- At an evaluation, a node that is still observed earns no higher tier than it has. -/
def HeldBack (m : SuperNodeManager F) : ManagerCall F → Prop
  | .recordPerformance _ => True
  | .evaluateAll now => ∀ id info, m.nodes.lookup id = some info →
      now - info.tierSince < m.criteria.observationPeriod →
        Demoted f64 m.criteria info ∨
          ∀ tier, info.tier < tier → ¬Earns f64 m.criteria now info tier

variable {f64}

/-- Every node is evaluated. -/
theorem lookup_evaluateAll (m : SuperNodeManager F) (id : PeerId) :
    (m.evaluateAll f64 now).2.nodes.lookup id =
      (m.nodes.lookup id).map (evaluated f64 m.criteria now) :=
  FiniteMap.lookup_mapValues _ _ _

/-- Only a lookup before the call is left. -/
theorem observed_evaluateAll_iff (m : SuperNodeManager F) : m.Observed f64 (.evaluateAll now) ↔
    ∀ id info, m.nodes.lookup id = some info →
      info.tier < evaluateTier f64 m.criteria now info →
        m.criteria.observationPeriod ≤ now - info.tierSince := by
  constructor
  · intro h id info hlookup hlt
    refine h id info (evaluated f64 m.criteria now info) hlookup ?_ ?_
    · rw [lookup_evaluateAll, hlookup, Option.map_some]
    · rw [tier_evaluated]
      exact hlt
  · intro h id info info' hlookup hlookup' hlt
    rw [lookup_evaluateAll, hlookup, Option.map_some] at hlookup'
    rw [← Option.some.inj hlookup', tier_evaluated] at hlt
    exact h id info hlookup hlt

/-- What is observed of a call is that nodes are held back as they should be. -/
theorem observed_iff_heldBack (m : SuperNodeManager F) (call : ManagerCall F) :
    m.Observed f64 call ↔ m.HeldBack f64 call := by
  cases call with
  | recordPerformance report => exact Iff.rfl
  | evaluateAll now =>
    rw [observed_evaluateAll_iff]
    refine forall_congr' fun id => forall_congr' fun info => forall_congr' fun _ => ?_
    rw [lt_evaluateTier_iff, ← not_imp_not, Nat.not_le, not_and_or, not_not]
    simp only [not_exists, not_and]

end SuperNodeManager

/-- Every promotion of a run comes after the observation period just if every evaluation finds the
nodes that are still observed held back by the thresholds. -/
theorem promotions_observed_iff (f64 : F64Ord F) (criteria : PromotionCriteria F)
    (maxTracked : Nat) (calls : List (ManagerCall F)) :
    Along (SuperNodeManager.Observed f64) (SuperNodeManager.next f64) (.new criteria maxTracked)
        calls ↔
      Along (SuperNodeManager.HeldBack f64) (SuperNodeManager.next f64) (.new criteria maxTracked)
        calls :=
  along_congr _ SuperNodeManager.observed_iff_heldBack _ _

/-- A success of a node at time 0. -/
def earlySuccess : PerformanceReport ℚ :=
  ⟨⟨Vector.replicate 32 7⟩, ⟨.v4 (Ipv4Addr.new 10 0 0 2), 7000⟩, true, none, 0⟩

/-- A hundred successes at time 0, and evaluations a second before the node has been tracked for
four hours and a second later: it becomes a candidate, and then a super node. -/
def hastyCalls : List (ManagerCall ℚ) :=
  List.replicate 100 (.recordPerformance earlySuccess) ++
    [.evaluateAll (14399 * 1000000000), .evaluateAll (14400 * 1000000000)]

/-- The default criteria ask for 30 minutes as a candidate. -/
theorem promotion_after_a_second : (hastyCalls.map (·.time)).Pairwise (· ≤ ·) ∧
    ¬Along (SuperNodeManager.Observed .exact) (SuperNodeManager.next .exact)
      (.new (.default F64.exact) 500) hastyCalls := by
  refine ⟨by decide +kernel, ?_⟩
  intro h
  have hlast := (SuperNodeManager.observed_evaluateAll_iff _).mp (along_append.mp h).2.2.1
  let candidate : SuperNodeInfo ℚ :=
    { SuperNodeInfo.new F64.exact earlySuccess.peerId earlySuccess.addr 0 with
      tier := .candidate
      promotedAt := some (14399 * 1000000000)
      tierSince := 14399 * 1000000000
      totalSuccesses := 100 }
  have hperiod := hlast earlySuccess.peerId candidate (by decide +kernel) (by decide +kernel)
  revert hperiod
  decide +kernel

end CekyP2P.Dht
