import CekyP2P.Core.Trace
import CekyP2P.Dht.SuperNode
import Mathlib.Data.List.Infix
import Mathlib.Tactic.FieldSimp
import Mathlib.Tactic.Ring

/-!
# The tracked latency

The average latency of a peer is updated with the number of successes as divisor. It stays the mean
of the latencies as long as every success comes with a latency; after a success without one, only a
latency that is itself the mean leaves it right. The arithmetic is exact.
-/

namespace CekyP2P.Dht

open Crypto Transfer

/-- The mean of some samples, zero without any. -/
def mean (samples : List ℚ) : ℚ :=
  if samples = [] then 0 else samples.sum / samples.length

/-- The sum is the mean times the count. -/
theorem length_mul_mean (samples : List ℚ) : samples.length * mean samples = samples.sum := by
  rw [mean]
  split
  case isTrue hempty => simp [hempty]
  case isFalse hne =>
    have hlength : (samples.length : ℚ) ≠ 0 := by
      rw [Nat.cast_ne_zero]
      exact fun hzero => hne (List.length_eq_zero_iff.mp hzero)
    exact mul_div_cancel₀ _ hlength

/-- The mean with one more sample. -/
theorem mean_concat (samples : List ℚ) (lat : ℚ) :
    mean (samples ++ [lat]) = (samples.sum + lat) / (samples.length + 1) := by
  rw [mean, if_neg (by simp)]
  simp

/-- The update with divisor `n` gives the mean of one sample more exactly if `n` is the number of
samples or the new one is the mean. -/
theorem averaged_eq_mean_concat_iff (samples : List ℚ) (lat : ℚ) {n : Nat} (hn : n ≠ 0) :
    SuperNodeInfo.averaged F64.exact n lat (mean samples) = mean (samples ++ [lat]) ↔
      n = samples.length + 1 ∨ lat = mean samples := by
  have hn' : (n : ℚ) ≠ 0 := Nat.cast_ne_zero.mpr hn
  have hk : (samples.length : ℚ) + 1 ≠ 0 := by
    exact_mod_cast Nat.succ_ne_zero samples.length
  have hdiff : SuperNodeInfo.averaged F64.exact n lat (mean samples) - mean (samples ++ [lat]) =
      (lat - mean samples) * ((samples.length + 1 : ℚ) - n) / (n * (samples.length + 1)) := by
    rw [mean_concat, ← length_mul_mean]
    change mean samples * ((n - ((1 : Nat) : ℚ)) / n) + lat / n - _ = _
    field_simp
    push_cast
    ring
  have hdenom : (n : ℚ) * (samples.length + 1) ≠ 0 := mul_ne_zero hn' hk
  rw [← sub_eq_zero, hdiff, div_eq_zero_iff, or_iff_left hdenom, mul_eq_zero, sub_eq_zero,
    sub_eq_zero, or_comm]
  refine or_congr_left ?_
  constructor
  · intro heq
    exact_mod_cast heq.symm
  · rintro rfl
    push_cast
    rfl

/-- A divisor of zero leaves zero. -/
theorem averaged_zero (lat avg : ℚ) :
    SuperNodeInfo.averaged F64.exact ((0 : Nat) : ℚ) lat avg = 0 := by
  change avg * ((((0 : Nat) : ℚ) - ((1 : Nat) : ℚ)) / ((0 : Nat) : ℚ)) + lat / ((0 : Nat) : ℚ) = 0
  simp

/-- When a mean is zero. -/
theorem mean_concat_eq_zero_iff (samples : List ℚ) (lat : ℚ) :
    mean (samples ++ [lat]) = 0 ↔ samples.sum + lat = 0 := by
  have hk : (samples.length : ℚ) + 1 ≠ 0 := by
    exact_mod_cast Nat.succ_ne_zero samples.length
  rw [mean_concat, div_eq_zero_iff, or_iff_left hk]

/-! ## Runs -/

/-- The latencies that were reported with successes of a peer. -/
def samples (peerId : PeerId) (reports : List (PerformanceReport ℚ)) : List ℚ :=
  reports.filterMap fun report =>
    if report.peerId = peerId ∧ report.success then report.latencyMs else none

/-- The number of successes that were reported of a peer. -/
def successes (peerId : PeerId) (reports : List (PerformanceReport ℚ)) : Nat :=
  reports.countP fun report => report.peerId = peerId ∧ report.success

/-- The manager after some reports. -/
def managerAfter (criteria : PromotionCriteria ℚ) (maxTracked : Nat)
    (reports : List (PerformanceReport ℚ)) : SuperNodeManager ℚ :=
  reports.foldl (SuperNodeManager.recordPerformance F64.exact) (.new criteria maxTracked)

variable {criteria : PromotionCriteria ℚ} {maxTracked : Nat} {peerId : PeerId}
  {earlier reports : List (PerformanceReport ℚ)} {report : PerformanceReport ℚ}

variable (criteria maxTracked earlier report) in
/-- The entry of a reported peer after its report. -/
theorem lookup_managerAfter_self :
    (managerAfter criteria maxTracked (earlier ++ [report])).nodes.lookup report.peerId =
      some (((managerAfter criteria maxTracked earlier).entry F64.exact report).recorded
        F64.exact report) := by
  rw [managerAfter, List.foldl_concat, SuperNodeManager.lookup_recordPerformance, if_pos rfl]
  rfl

/-- A report is about one peer. -/
theorem lookup_managerAfter_of_ne (hne : report.peerId ≠ peerId) :
    (managerAfter criteria maxTracked (earlier ++ [report])).nodes.lookup peerId =
      (managerAfter criteria maxTracked earlier).nodes.lookup peerId := by
  rw [managerAfter, List.foldl_concat, SuperNodeManager.lookup_recordPerformance,
    if_neg hne.symm]
  rfl

/-- A successful report with a latency is a sample. -/
theorem samples_concat : samples peerId (earlier ++ [report]) =
    samples peerId earlier ++
      (if report.peerId = peerId ∧ report.success then report.latencyMs else none).toList := by
  rw [samples, List.filterMap_append, samples]
  cases hlat : (if report.peerId = peerId ∧ report.success then report.latencyMs else none) with
  | none => simp [hlat]
  | some lat => simp [hlat]

/-- A successful report counts. -/
theorem successes_concat : successes peerId (earlier ++ [report]) =
    successes peerId earlier + if report.peerId = peerId ∧ report.success then 1 else 0 := by
  rw [successes, List.countP_append, List.countP_singleton, successes]
  simp

/-- Other reports are no samples. -/
theorem samples_concat_of_not (h : ¬(report.peerId = peerId ∧ report.success)) :
    samples peerId (earlier ++ [report]) = samples peerId earlier := by
  rw [samples_concat, if_neg h, Option.toList_none, List.append_nil]

/-- Reports on other peers do not count. -/
theorem successes_concat_of_ne (hne : report.peerId ≠ peerId) :
    successes peerId (earlier ++ [report]) = successes peerId earlier := by
  rw [successes_concat, if_neg fun h => hne h.1, Nat.add_zero]

/-- What the record of a peer says of its successes; without a record there were no reports. -/
structure Counted (m : SuperNodeManager ℚ) (peerId : PeerId)
    (reports : List (PerformanceReport ℚ)) : Prop where
  counter : ∀ info ∈ m.nodes.lookup peerId,
    info.totalSuccesses = UInt64.ofNat (successes peerId reports)
  untracked : m.nodes.lookup peerId = none →
    successes peerId reports = 0 ∧ samples peerId reports = []

/-- A report counts its success. -/
theorem totalSuccesses_recorded (info : SuperNodeInfo ℚ) :
    (info.recorded F64.exact report).totalSuccesses =
      if report.success then info.totalSuccesses + 1 else info.totalSuccesses := by
  rw [SuperNodeInfo.recorded]
  split
  · split <;> rfl
  · rfl

/-- The entry that a report finds has the count so far. -/
theorem Counted.entry {m : SuperNodeManager ℚ} (h : Counted m report.peerId earlier) :
    (m.entry F64.exact report).totalSuccesses =
      UInt64.ofNat (successes report.peerId earlier) := by
  rw [SuperNodeManager.entry]
  cases hinfo : m.nodes.lookup report.peerId with
  | none =>
    rw [(h.untracked hinfo).1]
    rfl
  | some info => exact h.counter info hinfo

/-- The counter is the number of successes, up to overflow. -/
theorem counted_managerAfter (criteria : PromotionCriteria ℚ) (maxTracked : Nat) (peerId : PeerId)
    (reports : List (PerformanceReport ℚ)) :
    Counted (managerAfter criteria maxTracked reports) peerId reports := by
  induction reports using List.reverseRecOn with
  | nil => exact ⟨nofun, fun _ => ⟨rfl, rfl⟩⟩
  | append_singleton earlier report ih =>
    by_cases hpeer : report.peerId = peerId
    · subst hpeer
      have hlookup := lookup_managerAfter_self criteria maxTracked earlier report
      refine ⟨?_, fun hnone => nomatch hlookup.symm.trans hnone⟩
      intro info hinfo
      cases hlookup.symm.trans hinfo
      rw [totalSuccesses_recorded, ih.entry, successes_concat]
      cases report.success with
      | true => simp
      | false => simp
    · have hsamples : samples peerId (earlier ++ [report]) = samples peerId earlier :=
        samples_concat_of_not fun h => hpeer h.1
      refine ⟨?_, ?_⟩
      · rw [lookup_managerAfter_of_ne hpeer, successes_concat_of_ne hpeer]
        exact ih.counter
      · rw [lookup_managerAfter_of_ne hpeer, successes_concat_of_ne hpeer, hsamples]
        exact ih.untracked

/-- The average latency of a peer is the mean of its latencies. -/
def AvgIsMean (criteria : PromotionCriteria ℚ) (maxTracked : Nat) (peerId : PeerId)
    (reports : List (PerformanceReport ℚ)) : Prop :=
  ∀ info ∈ (managerAfter criteria maxTracked reports).nodes.lookup peerId,
    info.avgLatencyMs = mean (samples peerId reports)

/-- What a report with a latency has to meet, after the earlier ones: with it the peer has as many
latencies as successes, or it is the mean so far. The counter of successes has 64 bits; where it
is zero, both quotients are. -/
def KeepsMean (peerId : PeerId) (earlier : List (PerformanceReport ℚ))
    (report : PerformanceReport ℚ) : Prop :=
  report.peerId = peerId → report.success → ∀ lat ∈ report.latencyMs,
    if (successes peerId earlier + 1) % 2 ^ 64 = 0 then (samples peerId earlier).sum + lat = 0
    else (successes peerId earlier + 1) % 2 ^ 64 = (samples peerId earlier).length + 1 ∨
      lat = mean (samples peerId earlier)

/-- The entry that a report finds has the mean so far. -/
theorem avgLatencyMs_entry (h : AvgIsMean criteria maxTracked report.peerId earlier) :
    ((managerAfter criteria maxTracked earlier).entry F64.exact report).avgLatencyMs =
      mean (samples report.peerId earlier) := by
  rw [SuperNodeManager.entry]
  cases hinfo : (managerAfter criteria maxTracked earlier).nodes.lookup report.peerId with
  | none =>
    have hnone := (counted_managerAfter criteria maxTracked report.peerId earlier).untracked hinfo
    rw [hnone.2]
    rfl
  | some info => exact h info hinfo

/-- Whether the mean is right after a report depends on this report. -/
theorem avgIsMean_self_iff : AvgIsMean criteria maxTracked report.peerId (earlier ++ [report]) ↔
    (((managerAfter criteria maxTracked earlier).entry F64.exact report).recorded F64.exact
      report).avgLatencyMs = mean (samples report.peerId (earlier ++ [report])) := by
  rw [AvgIsMean, lookup_managerAfter_self]
  simp

/-- With a latency the average is updated by the number of successes, which has 64 bits. -/
theorem avgLatencyMs_recorded (h : AvgIsMean criteria maxTracked report.peerId earlier)
    (hsuccess : report.success = true) {lat : ℚ} (hlat : report.latencyMs = some lat) :
    (((managerAfter criteria maxTracked earlier).entry F64.exact report).recorded F64.exact
      report).avgLatencyMs = SuperNodeInfo.averaged F64.exact
        (((successes report.peerId earlier + 1) % 2 ^ 64 : Nat) : ℚ) lat
          (mean (samples report.peerId earlier)) := by
  have hcount := (counted_managerAfter criteria maxTracked report.peerId earlier).entry
  have hdivisor : (UInt64.ofNat (successes report.peerId earlier) + 1).toNat =
      (successes report.peerId earlier + 1) % 2 ^ 64 := by
    simp [UInt64.toNat_add]
  rw [← hdivisor, ← hcount, ← avgLatencyMs_entry h]
  simp only [SuperNodeInfo.recorded, hsuccess, hlat]
  rfl

/-- When a successful report with a latency keeps the mean. -/
theorem keepsMean_iff_of_latency (hsuccess : report.success = true) {lat : ℚ}
    (hlat : report.latencyMs = some lat) : KeepsMean report.peerId earlier report ↔
      if (successes report.peerId earlier + 1) % 2 ^ 64 = 0 then
        (samples report.peerId earlier).sum + lat = 0
      else (successes report.peerId earlier + 1) % 2 ^ 64 =
          (samples report.peerId earlier).length + 1 ∨
        lat = mean (samples report.peerId earlier) := by
  simp [KeepsMean, hsuccess, hlat]

/-- One report: an average that was right stays right just if the report keeps the mean. -/
theorem avgIsMean_concat_iff (h : AvgIsMean criteria maxTracked peerId earlier) :
    AvgIsMean criteria maxTracked peerId (earlier ++ [report]) ↔
      KeepsMean peerId earlier report := by
  by_cases hpeer : report.peerId = peerId
  case neg =>
    have hsamples : samples peerId (earlier ++ [report]) = samples peerId earlier :=
      samples_concat_of_not fun h => hpeer h.1
    rw [AvgIsMean, lookup_managerAfter_of_ne hpeer, hsamples]
    exact iff_of_true h fun heq => absurd heq hpeer
  subst hpeer
  have havg := avgLatencyMs_entry h
  rw [avgIsMean_self_iff, samples_concat]
  cases hsuccess : report.success with
  | false =>
    refine iff_of_true ?_ (by simp [KeepsMean, hsuccess])
    rw [if_neg (by simp), Option.toList_none, List.append_nil, ← havg]
    simp [SuperNodeInfo.recorded, hsuccess]
  | true =>
    rw [if_pos ⟨rfl, rfl⟩]
    cases hlat : report.latencyMs with
    | none =>
      refine iff_of_true ?_ (by simp [KeepsMean, hlat])
      rw [Option.toList_none, List.append_nil, ← havg]
      simp [SuperNodeInfo.recorded, hsuccess, hlat]
    | some lat =>
      rw [avgLatencyMs_recorded h hsuccess hlat, keepsMean_iff_of_latency hsuccess hlat,
        Option.toList_some]
      split
      case isTrue hzero =>
        rw [hzero, averaged_zero, eq_comm]
        exact mean_concat_eq_zero_iff _ _
      case isFalse hne => exact averaged_eq_mean_concat_iff _ _ hne

/-- After every report the average is the mean of the latencies exactly if every latency came when
all successes had one, or was itself the mean. -/
theorem avg_latency_is_mean_iff (criteria : PromotionCriteria ℚ) (maxTracked : Nat)
    (peerId : PeerId) (reports : List (PerformanceReport ℚ)) :
    (∀ taken, taken <+: reports → AvgIsMean criteria maxTracked peerId taken) ↔
      ∀ earlier report, earlier ++ [report] <+: reports → KeepsMean peerId earlier report :=
  forall_prefix_iff_forall_concat nofun (fun _ _ => avgIsMean_concat_iff) reports

/-- A success without a latency, then one of 100 ms: the average is 50 ms. -/
theorem avg_latency_halved : ¬AvgIsMean (.default F64.exact) 500 ⟨Vector.replicate 32 7⟩
    [⟨⟨Vector.replicate 32 7⟩, ⟨.v4 #v[10, 0, 0, 2], 7000⟩, true, none, 0⟩,
      ⟨⟨Vector.replicate 32 7⟩, ⟨.v4 #v[10, 0, 0, 2], 7000⟩, true, some 100, 1⟩] := by
  intro hmean
  have havg := hmean _ rfl
  revert havg
  decide +kernel

end CekyP2P.Dht
