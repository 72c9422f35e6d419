import CekyP2P.Core.Words
import CekyP2P.Core.AntiReplay

/-!
# Replay window of a secure session

`check_and_mark` and `shift_left` on the four-word bitmap. The word loops are
identified with one 256-bit shift, so every call either leaves the window as it
is, moves it up, or marks one clear position inside it. With that the bitmap
tracks the set of accepted nonces through every sequence of calls.
-/

namespace CekyP2P.Crypto

/-- `REPLAY_WINDOW_SIZE`: how many nonces the window covers. -/
def replayWindowSize : Nat := 256

/-- Bit `i` of the bitmap stands for nonce `maxNonce - i`. -/
structure ReplayWindow where
  maxNonce : UInt64
  bitmap : Vector UInt64 (replayWindowSize / 64)
  deriving DecidableEq

namespace ReplayWindow

/-- A window that has seen nothing. -/
def new : ReplayWindow := ⟨0, Vector.replicate _ 0⟩

/-- Slide the bitmap up in place, highest word first. Amounts of 64 and more are
split into whole words and a remainder. -/
def shiftLeft (w : ReplayWindow) (amount : Nat) : ReplayWindow :=
  if 64 ≤ amount then
    if 0 < amount % 64 then
      { w with bitmap := shiftBits (shiftWords w.bitmap (amount / 64)) (amount % 64) }
    else { w with bitmap := shiftWords w.bitmap (amount / 64) }
  else if 0 < amount then { w with bitmap := shiftBits w.bitmap amount }
  else w

/-- Whether the nonce is new, and the window with it marked. -/
def checkAndMark (w : ReplayWindow) (nonce : UInt64) : Bool × ReplayWindow :=
  if nonce > w.maxNonce then
    let shift := (nonce - w.maxNonce).toNat
    let w := if replayWindowSize ≤ shift then { w with bitmap := Vector.replicate _ 0 }
      else w.shiftLeft shift
    have h0 : 0 < replayWindowSize / 64 := by decide
    (true, { maxNonce := nonce, bitmap := w.bitmap.set 0 (w.bitmap[0] ||| 1) })
  else
    let diff := (w.maxNonce - nonce).toNat
    if hdiff : replayWindowSize ≤ diff then (false, w)
    else
      have hword : diff / 64 < replayWindowSize / 64 := by
        simp only [replayWindowSize] at hdiff ⊢
        omega
      let wordIdx := diff / 64
      let bitIdx := diff % 64
      if w.bitmap[wordIdx] &&& (1 <<< UInt64.ofNat bitIdx) != 0 then (false, w)
      else
        let marked := w.bitmap.set wordIdx (w.bitmap[wordIdx] ||| 1 <<< UInt64.ofNat bitIdx)
        (true, { w with bitmap := marked })

/-- Bit `i` of the 256-bit bitmap. -/
def bit (w : ReplayWindow) (i : Nat) : Bool := wordsBit w.bitmap i

/-- A new window has no marks. -/
@[simp] theorem new_bit (i : Nat) : new.bit i = false := wordsBit_replicate_zero i

/-- The in-place word loops shift the whole bitmap, for every amount. -/
theorem shiftLeft_bit (w : ReplayWindow) (amount : Nat) {i : Nat} (hi : i < replayWindowSize) :
    (w.shiftLeft amount).bit i = (decide (amount ≤ i) && w.bit (i - amount)) := by
  have hi' : i < 64 * (replayWindowSize / 64) := hi
  unfold shiftLeft bit
  split
  · have hsplit : amount = 64 * (amount / 64) + amount % 64 := by omega
    have hmod : amount % 64 < 64 := Nat.mod_lt _ (by decide)
    split
    next hpos =>
      rw [wordsBit_shiftBits _ hpos hmod hi']
      by_cases hle : amount % 64 ≤ i
      · rw [wordsBit_shiftWords _ _ (by omega)]
        have hsub : i - amount % 64 - 64 * (amount / 64) = i - amount := by omega
        have hiff : 64 * (amount / 64) ≤ i - amount % 64 ↔ amount ≤ i := by omega
        simp [hle, hsub, hiff]
      · have hno : ¬ amount ≤ i := by omega
        simp [hle, hno]
    next hpos =>
      rw [wordsBit_shiftWords _ _ hi']
      have heq : 64 * (amount / 64) = amount := by omega
      rw [heq]
  · split
    next hlt hpos => exact wordsBit_shiftBits _ hpos (by omega) hi'
    next hlt hpos =>
      have hzero : amount = 0 := by omega
      simp [hzero]

/-- `shift_left` with every shift of a single word checked. -/
def checkedShiftLeft (w : ReplayWindow) (amount : Nat) : Option ReplayWindow :=
  if 64 ≤ amount then
    if 0 < amount % 64 then do
      let bitmap ← checkedShiftBits (shiftWords w.bitmap (amount / 64)) (amount % 64)
      some { w with bitmap }
    else some { w with bitmap := shiftWords w.bitmap (amount / 64) }
  else if 0 < amount then do
    let bitmap ← checkedShiftBits w.bitmap amount
    some { w with bitmap }
  else some w

/-- No shift of a word overflows, so the checks never fail. -/
theorem checkedShiftLeft_eq_some (w : ReplayWindow) (amount : Nat) :
    w.checkedShiftLeft amount = some (w.shiftLeft amount) := by
  have hmod : amount % 64 < 64 := Nat.mod_lt _ (by decide)
  unfold checkedShiftLeft shiftLeft
  split
  · split
    case isTrue hpos =>
      rw [checkedShiftBits_eq_some _ hpos hmod]
      rfl
    case isFalse => rfl
  · split
    case isTrue hlt hpos =>
      rw [checkedShiftBits_eq_some _ hpos (Nat.not_le.mp hlt)]
      rfl
    case isFalse => rfl

/-- The shift multiplies the number of the bitmap by `2 ^ amount`, as far as it fits in 256 bits,
and shifts no word by 64 or more. -/
theorem shift_left_is_mul_pow (w : ReplayWindow) (amount : Nat) :
    w.checkedShiftLeft amount = some (w.shiftLeft amount) ∧
      wordsValue (w.shiftLeft amount).bitmap = wordsValue w.bitmap * 2 ^ amount % 2 ^ 256 := by
  refine ⟨w.checkedShiftLeft_eq_some amount, ?_⟩
  exact wordsValue_of_shifted fun j hj => w.shiftLeft_bit amount hj

/-! ## What one call does -/

/-- A nonce above the window moves it up and is accepted. -/
theorem checkAndMark_of_gt {w : ReplayWindow} {nonce : UInt64} (h : w.maxNonce < nonce) :
    (w.checkAndMark nonce).1 = true ∧ (w.checkAndMark nonce).2.maxNonce = nonce ∧
      ∀ i, i < replayWindowSize → (w.checkAndMark nonce).2.bit i =
        (decide (i = 0) || (decide (nonce.toNat - w.maxNonce.toNat ≤ i) &&
          w.bit (i - (nonce.toNat - w.maxNonce.toNat)))) := by
  have hsub : (nonce - w.maxNonce).toNat = nonce.toNat - w.maxNonce.toNat :=
    UInt64.toNat_sub_of_le _ _ (UInt64.le_of_lt h)
  unfold checkAndMark
  rw [if_pos h]
  refine ⟨rfl, rfl, fun i hi => ?_⟩
  simp only [bit]
  rw [wordsBit_mark_zero _ (by decide)]
  congr 1
  by_cases hfar : replayWindowSize ≤ (nonce - w.maxNonce).toNat
  · rw [if_pos hfar]
    have hno : ¬ nonce.toNat - w.maxNonce.toNat ≤ i := by omega
    simp [hno]
  · rw [if_neg hfar]
    have hshift := w.shiftLeft_bit (nonce - w.maxNonce).toNat hi
    rw [hsub] at hshift ⊢
    exact hshift

/-- A nonce at or below the top is accepted exactly when its own bit is in the
window and clear, and then only that bit changes. -/
theorem checkAndMark_of_le {w : ReplayWindow} {nonce : UInt64} (h : nonce ≤ w.maxNonce) :
    (w.maxNonce.toNat - nonce.toNat < replayWindowSize ∧
        w.bit (w.maxNonce.toNat - nonce.toNat) = false →
      (w.checkAndMark nonce).1 = true ∧ (w.checkAndMark nonce).2.maxNonce = w.maxNonce ∧
        ∀ i, (w.checkAndMark nonce).2.bit i =
          (decide (i = w.maxNonce.toNat - nonce.toNat) || w.bit i)) ∧
    (¬ (w.maxNonce.toNat - nonce.toNat < replayWindowSize ∧
        w.bit (w.maxNonce.toNat - nonce.toNat) = false) →
      w.checkAndMark nonce = (false, w)) := by
  have hsub : (w.maxNonce - nonce).toNat = w.maxNonce.toNat - nonce.toNat :=
    UInt64.toNat_sub_of_le _ _ h
  have hmod : (w.maxNonce - nonce).toNat % 64 < 64 := Nat.mod_lt _ (by decide)
  unfold checkAndMark
  rw [if_neg (by simpa using h), ← hsub]
  by_cases hold : replayWindowSize ≤ (w.maxNonce - nonce).toNat
  · rw [dif_pos hold]
    exact ⟨fun hc => absurd hc.1 (by omega), fun _ => rfl⟩
  · rw [dif_neg hold]
    have hword : (w.maxNonce - nonce).toNat / 64 < replayWindowSize / 64 := by
      simp only [replayWindowSize] at hold ⊢
      omega
    have hseen : (w.bitmap[(w.maxNonce - nonce).toNat / 64] &&&
        (1 <<< UInt64.ofNat ((w.maxNonce - nonce).toNat % 64)) != 0) =
        w.bit (w.maxNonce - nonce).toNat := by
      rw [and_mask_ne_zero _ hmod, bit, wordsBit_eq _ hword]
    simp only [hseen]
    cases hbit : w.bit (w.maxNonce - nonce).toNat with
    | true => exact ⟨fun hc => by simp at hc, fun _ => rfl⟩
    | false =>
      refine ⟨fun _ => ⟨rfl, rfl, fun i => wordsBit_mark w.bitmap hword i⟩, fun hc => ?_⟩
      exact absurd ⟨by omega, rfl⟩ hc

/-- A rejected nonce leaves the window as it was. -/
theorem checkAndMark_rejected {w : ReplayWindow} {nonce : UInt64}
    (h : (w.checkAndMark nonce).1 = false) : w.checkAndMark nonce = (false, w) := by
  by_cases hgt : w.maxNonce < nonce
  · rw [(checkAndMark_of_gt hgt).1] at h
    cases h
  · obtain ⟨hacc, hrej⟩ := checkAndMark_of_le (UInt64.not_lt.mp hgt)
    apply hrej
    intro hc
    rw [(hacc hc).1] at h
    cases h

/-- The nonce is too far behind the window, or its bit is already set. -/
def Refuses (w : ReplayWindow) (nonce : UInt64) : Prop :=
  nonce ≤ w.maxNonce ∧ (replayWindowSize ≤ w.maxNonce.toNat - nonce.toNat ∨
    w.bit (w.maxNonce.toNat - nonce.toNat) = true)

instance (w : ReplayWindow) (nonce : UInt64) : Decidable (w.Refuses nonce) :=
  inferInstanceAs (Decidable (_ ∧ _))

/-- When a nonce is refused. -/
theorem checkAndMark_eq_false_iff {w : ReplayWindow} {nonce : UInt64} :
    (w.checkAndMark nonce).1 = false ↔ w.Refuses nonce := by
  by_cases hgt : w.maxNonce < nonce
  · rw [(checkAndMark_of_gt hgt).1]
    exact ⟨fun h => (nomatch h), fun h => absurd h.1 (UInt64.not_le.mpr hgt)⟩
  · have hle := UInt64.not_lt.mp hgt
    obtain ⟨hacc, hrej⟩ := checkAndMark_of_le hle
    constructor
    · intro h
      refine ⟨hle, ?_⟩
      by_contra hc
      rw [not_or, not_le, Bool.not_eq_true] at hc
      rw [(hacc hc).1] at h
      cases h
    · rintro ⟨-, h⟩
      rw [hrej]
      rintro ⟨hwin, hclear⟩
      rcases h with h | h
      · omega
      · rw [hclear] at h
        cases h

/-- An accepted nonce is refused from then on. -/
theorem refuses_after_accept {w : ReplayWindow} {nonce : UInt64}
    (h : ¬ w.Refuses nonce) : (w.checkAndMark nonce).2.Refuses nonce := by
  by_cases hgt : w.maxNonce < nonce
  · obtain ⟨-, hmax, hbit⟩ := checkAndMark_of_gt hgt
    refine ⟨by rw [hmax]; exact UInt64.le_refl _, Or.inr ?_⟩
    rw [hmax, Nat.sub_self, hbit 0 (by decide)]
    rfl
  · have hle := UInt64.not_lt.mp hgt
    rw [← checkAndMark_eq_false_iff, Bool.not_eq_false] at h
    obtain ⟨hacc, hrej⟩ := checkAndMark_of_le hle
    have hwin : w.maxNonce.toNat - nonce.toNat < replayWindowSize ∧
        w.bit (w.maxNonce.toNat - nonce.toNat) = false := by
      by_contra hc
      rw [hrej hc] at h
      cases h
    obtain ⟨-, hmax, hbit⟩ := hacc hwin
    refine ⟨by rw [hmax]; exact hle, Or.inr ?_⟩
    rw [hmax, hbit]
    simp

/-! ## Refinement of the set specification -/

/-- The bitmap records exactly the accepted nonces in its window. -/
def Records (w : ReplayWindow) (accepted : Finset Nat) : Prop :=
  Tracks replayWindowSize accepted w.maxNonce.toNat w.bit

/-- A new window records nothing. -/
theorem records_new : new.Records ∅ := by
  have hbit : new.bit = fun _ => false := funext new_bit
  rw [Records, hbit]
  exact tracks_empty replayWindowSize

/-- One call answers and moves as the set specification does. -/
theorem Records.checkAndMark {w : ReplayWindow} {accepted : Finset Nat}
    (h : w.Records accepted) (nonce : UInt64) :
    (w.checkAndMark nonce).1 = (freshStep replayWindowSize accepted nonce.toNat).1 ∧
      (w.checkAndMark nonce).2.Records
        (freshStep replayWindowSize accepted nonce.toNat).2 := by
  by_cases hgt : w.maxNonce < nonce
  · obtain ⟨hres, hmax, hbit⟩ := checkAndMark_of_gt hgt
    have hlt : w.maxNonce.toNat < nonce.toNat := UInt64.lt_iff_toNat_lt.mp hgt
    rw [freshStep, if_pos (Tracks.fresh_of_gt h hlt)]
    refine ⟨hres, ?_⟩
    have hadv := Tracks.advance h hlt hbit
    simpa only [Records, hmax] using hadv
  · have hle := UInt64.not_lt.mp hgt
    have hle' : nonce.toNat ≤ w.maxNonce.toNat := UInt64.le_iff_toNat_le.mp hle
    obtain ⟨hacc, hrej⟩ := checkAndMark_of_le hle
    have hiff := Tracks.fresh_iff h hle'
    by_cases hfresh : Fresh replayWindowSize accepted nonce.toNat
    · obtain ⟨hres, hmax, hbit⟩ := hacc (hiff.mp hfresh)
      rw [freshStep, if_pos hfresh]
      refine ⟨hres, ?_⟩
      have hmark := Tracks.mark h hle' fun i _ => hbit i
      simpa only [Records, hmax] using hmark
    · rw [freshStep, if_neg hfresh, hrej (fun hc => hfresh (hiff.mpr hc))]
      exact ⟨rfl, h⟩

/-- The window after a sequence of calls. -/
def feed (w : ReplayWindow) (nonces : List UInt64) : ReplayWindow :=
  nonces.foldl (fun w n => (w.checkAndMark n).2) w

/-- The nonces of a sequence of calls for which the call returned `true`, in order. -/
def accepted (w : ReplayWindow) : List UInt64 → List UInt64
  | [] => []
  | n :: ns =>
    if (w.checkAndMark n).1 then n :: accepted (w.checkAndMark n).2 ns
    else accepted (w.checkAndMark n).2 ns

/-- The largest nonce of a list, 0 if there is none. -/
def largest (nonces : List UInt64) : Nat := (nonces.map UInt64.toNat).foldr max 0

/-- The largest nonce is the least upper bound of all. -/
theorem largest_eq_sup (nonces : List UInt64) :
    largest nonces = (nonces.map UInt64.toNat).toFinset.sup id := by
  induction nonces with
  | nil => rfl
  | cons n ns ih =>
    have hcons : largest (n :: ns) = max n.toNat (largest ns) := rfl
    rw [hcons, ih, List.map_cons, List.toFinset_cons, Finset.sup_insert]
    rfl

/-- Nonces as numbers. -/
theorem mem_toNat_iff (nonces : List UInt64) (n : UInt64) :
    n.toNat ∈ (nonces.map UInt64.toNat).toFinset ↔ n ∈ nonces := by
  rw [List.mem_toFinset, List.mem_map]
  exact ⟨fun ⟨m, hm, he⟩ => UInt64.toNat_inj.mp he ▸ hm, fun h => ⟨n, h, rfl⟩⟩

/-- Through any sequence of calls the bitmap records what was accepted before and
during the sequence. -/
theorem Records.feed {w : ReplayWindow} {before : Finset Nat} (h : w.Records before)
    (nonces : List UInt64) :
    (w.feed nonces).Records (before ∪ ((w.accepted nonces).map UInt64.toNat).toFinset) := by
  induction nonces generalizing w before with
  | nil => simpa [ReplayWindow.feed, accepted] using h
  | cons n ns ih =>
    obtain ⟨hres, hnext⟩ := h.checkAndMark n
    have hrest := ih hnext
    have hfeed : w.feed (n :: ns) = (w.checkAndMark n).2.feed ns := rfl
    rw [hfeed]
    by_cases hfresh : Fresh replayWindowSize before n.toNat
    · rw [freshStep, if_pos hfresh] at hres hrest
      rw [accepted, if_pos hres, List.map_cons, List.toFinset_cons, Finset.union_insert,
        ← Finset.insert_union]
      exact hrest
    · rw [freshStep, if_neg hfresh] at hres hrest
      rw [accepted, if_neg (by simp [hres])]
      exact hrest

/-- The window answers every call as the set of accepted nonces prescribes, and its
bitmap spells out that set below the highest nonce, after every sequence of calls. -/
theorem checkAndMark_refines_nonce_set (nonces : List UInt64) :
    (∀ nonce : UInt64, ((new.feed nonces).checkAndMark nonce).1 = true ↔
      nonce ∉ new.accepted nonces ∧
        nonce.toNat + 256 > largest (new.accepted nonces)) ∧
    ∀ i, i < 256 → i ≤ (new.feed nonces).maxNonce.toNat →
      ((new.feed nonces).bit i = true ↔
        (new.feed nonces).maxNonce - UInt64.ofNat i ∈ new.accepted nonces) := by
  have hrec := records_new.feed nonces
  rw [Finset.empty_union] at hrec
  constructor
  · intro nonce
    rw [(hrec.checkAndMark nonce).1, freshStep, largest_eq_sup, ← mem_toNat_iff]
    by_cases hfresh : Fresh replayWindowSize
        ((new.accepted nonces).map UInt64.toNat).toFinset nonce.toNat
    · rw [if_pos hfresh]
      exact ⟨fun _ => hfresh, fun _ => rfl⟩
    · rw [if_neg hfresh]
      exact ⟨fun h => (Bool.false_ne_true h).elim, fun h => (hfresh h).elim⟩
  · intro i hi hmax
    have hi64 : (UInt64.ofNat i).toNat = i := UInt64.toNat_ofNat_of_lt' (by
      simp only [UInt64.size]
      omega)
    have hsub : ((new.feed nonces).maxNonce - UInt64.ofNat i).toNat =
        (new.feed nonces).maxNonce.toNat - i := by
      rw [UInt64.toNat_sub_of_le _ _ (UInt64.le_iff_toNat_le.mpr (by omega)), hi64]
    rw [← mem_toNat_iff, hsub]
    exact hrec.bit_iff i hi hmax

end ReplayWindow

end CekyP2P.Crypto
