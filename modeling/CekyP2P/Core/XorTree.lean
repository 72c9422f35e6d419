import Mathlib.Data.Finset.Max
import Mathlib.Data.Nat.Bitwise
import CekyP2P.Core.Least

/-!
# Searching by XOR distance

Numbers at a distance below `2 ^ l` from each other form a block, and seen from anywhere a block
lies on one side of every number outside it. A participant that knows somebody in each block that
is split off on the way to its own place therefore always knows somebody nearer to a target than
itself, if there is anybody nearer. A search that asks everybody it keeps ends with the nearest
participants of all.
-/

namespace CekyP2P.XorTree

/-- Numbers of one block. -/
theorem xor_lt_two_pow_iff {a b l : ℕ} : a ^^^ b < 2 ^ l ↔ a / 2 ^ l = b / 2 ^ l := by
  rw [← Nat.xor_eq_zero_iff, ← Nat.xor_div_two_pow, Nat.div_eq_zero_iff_lt (Nat.two_pow_pos l)]

/-- Numbers that differ are ordered by their blocks, if they are in different ones. -/
theorem lt_iff_div_lt_div {a b l : ℕ} (h : a / 2 ^ l ≠ b / 2 ^ l) :
    a < b ↔ a / 2 ^ l < b / 2 ^ l := by
  refine ⟨fun hlt => ?_, Nat.lt_of_div_lt_div⟩
  exact lt_of_le_of_ne (Nat.div_le_div_right hlt.le) h

/-- Numbers are combined block by block. -/
theorem add_xor_add {p q r s l : ℕ} (hq : q < 2 ^ l) (hs : s < 2 ^ l) :
    (p * 2 ^ l + q) ^^^ (r * 2 ^ l + s) = (p ^^^ r) * 2 ^ l + (q ^^^ s) := by
  have hparts : ∀ {p q : ℕ}, q < 2 ^ l →
      (p * 2 ^ l + q) / 2 ^ l = p ∧ (p * 2 ^ l + q) % 2 ^ l = q := by
    intro p q hq
    rw [Nat.add_comm, Nat.add_mul_div_right _ _ (Nat.two_pow_pos _), Nat.div_eq_of_lt hq,
      Nat.add_mul_mod_self_right, Nat.mod_eq_of_lt hq, Nat.zero_add]
    exact ⟨rfl, rfl⟩
  calc (p * 2 ^ l + q) ^^^ (r * 2 ^ l + s)
      = ((p * 2 ^ l + q) ^^^ (r * 2 ^ l + s)) / 2 ^ l * 2 ^ l +
          ((p * 2 ^ l + q) ^^^ (r * 2 ^ l + s)) % 2 ^ l := (Nat.div_add_mod' _ _).symm
    _ = (p ^^^ r) * 2 ^ l + (q ^^^ s) := by
      rw [Nat.xor_div_two_pow, Nat.xor_mod_two_pow, (hparts hq).1, (hparts hq).2,
        (hparts hs).1, (hparts hs).2]

/-- Whoever is outside a block is nearer to the target than all of it, or than nobody in it. -/
theorem lt_iff_of_block {x m y t l : ℕ} (hx : x ^^^ m < 2 ^ l) (hy : ¬y ^^^ m < 2 ^ l) :
    y ^^^ t < x ^^^ t ↔ y ^^^ t < m ^^^ t := by
  rw [xor_lt_two_pow_iff] at hx hy
  have hxt : (x ^^^ t) / 2 ^ l = (m ^^^ t) / 2 ^ l := by
    rw [Nat.xor_div_two_pow, Nat.xor_div_two_pow, hx]
  have hyt : (y ^^^ t) / 2 ^ l ≠ (m ^^^ t) / 2 ^ l := by
    rw [Nat.xor_div_two_pow, Nat.xor_div_two_pow]
    exact fun h => hy (Nat.xor_left_inj.mp h)
  rw [lt_iff_div_lt_div (hxt ▸ hyt), lt_iff_div_lt_div hyt, hxt]

section

variable {α : Type} (number : α → ℕ)

/-- The numbers that a participant `q` sees in the block of `m`: nearer to `m` than to itself. -/
def SameSide (q m x : α) : Prop := number x ^^^ number m < 2 ^ (number q ^^^ number m).log2

/-- A participant knows somebody on the side of every other member of a network. -/
def Populated (network : Finset α) (q : α) (table : Finset α) : Prop :=
  ∀ m ∈ network, m ≠ q → ∃ x ∈ table, SameSide number q m x

variable {number} {network supplied table : Finset α} {known answer : List α} {q m x : α}
  {t k cap : ℕ}

/-- Whoever is as far away, up to a factor of two, is on the same side. -/
theorem sameSide_of_bounds {l : ℕ} (hx : 2 ^ l ≤ number q ^^^ number x)
    (hx' : number q ^^^ number x < 2 ^ (l + 1)) (hm : 2 ^ l ≤ number q ^^^ number m)
    (hm' : number q ^^^ number m < 2 ^ (l + 1)) : SameSide number q m x := by
  have hone : ∀ {d : ℕ}, 2 ^ l ≤ d → d < 2 ^ (l + 1) → d / 2 ^ l = 1 := by
    intro d hle hlt
    rw [Nat.div_eq_iff (Nat.two_pow_pos l)]
    rw [pow_succ] at hlt
    omega
  have hlog : (number q ^^^ number m).log2 = l := by
    have hne : number q ^^^ number m ≠ 0 := Nat.ne_of_gt (lt_of_lt_of_le (Nat.two_pow_pos l) hm)
    exact (Nat.log2_eq_iff hne).mpr ⟨hm, hm'⟩
  have hblock : (number q ^^^ number x) / 2 ^ l = (number q ^^^ number m) / 2 ^ l :=
    (hone hx hx').trans (hone hm hm').symm
  rw [Nat.xor_div_two_pow, Nat.xor_div_two_pow] at hblock
  rw [SameSide, hlog, xor_lt_two_pow_iff]
  exact Nat.xor_right_inj.mp hblock

/-- A participant is on the other side. -/
theorem not_sameSide_self (hinj : Function.Injective number) (hne : m ≠ q) :
    ¬SameSide number q m q := by
  refine Nat.not_lt.mpr (Nat.log2_self_le ?_)
  exact fun hzero => hne (hinj (Nat.xor_eq_zero_iff.mp hzero)).symm

/-- If somebody is nearer to the target than a participant, so is its whole side. -/
theorem lt_of_sameSide (hinj : Function.Injective number) (hne : m ≠ q)
    (hx : SameSide number q m x) (hm : number m ^^^ t < number q ^^^ t) :
    number x ^^^ t < number q ^^^ t := by
  have hself := not_sameSide_self hinj hne
  have hle : ¬number q ^^^ t < number x ^^^ t := by
    rw [lt_iff_of_block hx hself]
    exact Nat.lt_asymm hm
  refine lt_of_le_of_ne (Nat.not_lt.mp hle) fun heq => hself ?_
  rw [hinj (Nat.xor_left_inj.mp heq)] at hx
  exact hx

/-- Whoever is the nearest of all that a search has heard of, and has told it whom it knows nearest
to the target, is the nearest of the network. Somebody on the side of a nearer member is known to
it, and the answer has nobody farther than that one. -/
theorem nearest_of_answered (hinj : Function.Injective number) (hk : 0 < k)
    (hpopulated : Populated number network q table)
    (hanswer : Least (fun x => number x ^^^ t) k table answer)
    (hnearest : ∀ x ∈ answer, number q ^^^ t ≤ number x ^^^ t) (hm : m ∈ network) :
    number q ^^^ t ≤ number m ^^^ t := by
  classical
  by_contra hlt
  rw [Nat.not_le] at hlt
  have hne : m ≠ q := by
    rintro rfl
    exact Nat.lt_irrefl _ hlt
  obtain ⟨x, hx, hside⟩ := hpopulated m hm hne
  have hnear := lt_of_sameSide hinj hne hside hlt
  by_cases hmem : x ∈ answer
  · exact Nat.not_le.mpr hnear (hnearest x hmem)
  · have hpos : 0 < answer.length := by
      rw [hanswer.length_of_not_mem hx hmem]
      exact hk
    obtain ⟨y, hy⟩ := List.exists_mem_of_length_pos hpos
    exact Nat.not_le.mpr ((hanswer.below x hx hmem y hy).trans hnear) (hnearest y hy)

/-- What is known about a search once it has asked everybody it keeps: each of them knows somebody
on every side, and the nearest that it knows have been supplied. -/
structure Answered (number : α → ℕ) (t k : ℕ) (network supplied : Finset α) (q : α) : Prop where
  answer : ∃ table answer, Populated number network q table ∧
    Least (fun x => number x ^^^ t) k table answer ∧ ∀ x ∈ answer, x ∈ supplied

/-- A member that was never heard of is farther than all the nearest that are kept. The one that is
nearest to the missing member knows somebody on its side, and only a full answer can have left them
out. -/
theorem full_of_not_supplied (hinj : Function.Injective number) (hcap : k ≤ cap)
    (hknown : Least (fun x => number x ^^^ t) cap supplied known) (hne : known ≠ [])
    (hanswered : ∀ q ∈ known, Answered number t k network supplied q) (hm : m ∈ network)
    (hnot : m ∉ supplied) :
    (known.take k).length = k ∧ ∀ y ∈ known.take k, number y ^^^ t < number m ^^^ t := by
  classical
  obtain ⟨first, hfirst⟩ := List.exists_mem_of_ne_nil known hne
  obtain ⟨q, hq, hmin⟩ := Finset.exists_min_image known.toFinset (fun y => number y ^^^ number m)
    ⟨first, List.mem_toFinset.mpr hfirst⟩
  rw [List.mem_toFinset] at hq
  have hqm : m ≠ q := by
    rintro rfl
    exact hnot (hknown.subset m hq)
  have hoff : ∀ y ∈ known, ¬SameSide number q m y := fun y hy hside =>
    not_sameSide_self hinj hqm ((hmin y (List.mem_toFinset.mpr hy)).trans_lt hside)
  have hfull : ∀ x, SameSide number q m x → x ∈ supplied →
      (known.take k).length = k ∧ ∀ y ∈ known.take k, number y ^^^ t < number m ^^^ t := by
    intro x hside hx
    have hxknown : x ∉ known := fun hmem => hoff x hmem hside
    have hlength := hknown.length_of_not_mem hx hxknown
    refine ⟨by rw [List.length_take]; omega, fun y hy => ?_⟩
    have hy := List.mem_of_mem_take hy
    exact (lt_iff_of_block hside (hoff y hy)).mp (hknown.below x hx hxknown y hy)
  obtain ⟨table, answer, hpopulated, hleast, hsupplied⟩ := (hanswered q hq).answer
  obtain ⟨x, hx, hside⟩ := hpopulated m hm hqm
  by_cases hany : ∃ y ∈ answer, SameSide number q m y
  · obtain ⟨y, hy, hyside⟩ := hany
    exact hfull y hyside (hsupplied y hy)
  · have hxanswer : x ∉ answer := fun hmem => hany ⟨x, hmem, hside⟩
    refine (hknown.take hcap).below_of_many hleast.nodup
      (hleast.length_of_not_mem hx hxanswer) fun y hy => ⟨hsupplied y hy, ?_⟩
    exact (lt_iff_of_block hside fun hyside => hany ⟨y, hy, hyside⟩).mp
      (hleast.below x hx hxanswer y hy)

/-- A search that has asked everybody it keeps has found the nearest members of the network. -/
theorem least_of_answered (hinj : Function.Injective number) (hcap : k ≤ cap)
    (hknown : Least (fun x => number x ^^^ t) cap supplied known) (hne : known ≠ [])
    (hmembers : supplied ⊆ network)
    (hanswered : ∀ q ∈ known, Answered number t k network supplied q) :
    Least (fun x => number x ^^^ t) k network (known.take k) :=
  (hknown.take hcap).of_superset hmembers fun _ hm hnot =>
    full_of_not_supplied hinj hcap hknown hne hanswered hm hnot

end

end CekyP2P.XorTree
