import CekyP2P.Core.Bytes
import CekyP2P.Crypto.Identity
import Mathlib.Data.Nat.Log

/-!
# The XOR distance as a number

Distances are compared byte by byte, most significant byte first, which is the order of the
256-bit numbers. The bucket index counts bytes from the same end but bits from the other one:
it is the logarithm of the distance with the order of the bytes reversed, and so never the
logarithm itself.
-/

namespace CekyP2P.Crypto.PeerId

/-- The XOR distance, read as a big-endian number. -/
def distance (a b : PeerId) : Nat := ofBeBytes (a.xorDistance b).toList

variable {a b c target : PeerId}

/-- Distances are compared as byte strings. -/
theorem distance_lt_distance :
    a.distance target < b.distance target ↔
      (a.xorDistance target).toList < (b.xorDistance target).toList :=
  ofBeBytes_lt_ofBeBytes (by simp)

/-- Different identifiers have different distances from a target. -/
theorem distance_left_injective (target : PeerId) :
    Function.Injective fun id : PeerId => id.distance target := by
  intro a b h
  have hbytes : (a.xorDistance target).toList = (b.xorDistance target).toList :=
    (ofBeBytes_inj (by simp)).mp h
  exact xorDistance_left_injective target (Vector.toList_inj.mp hbytes)

/-! ## The bucket index -/

/-- The position of the highest bit of a byte. -/
theorem highest_bit_bounds {byte : UInt8} (h : byte ≠ 0) :
    7 - leadingZeros byte < 8 ∧ 2 ^ (7 - leadingZeros byte) ≤ byte.toNat ∧
      byte.toNat < 2 ^ (7 - leadingZeros byte + 1) := by
  have hne : byte.toNat ≠ 0 := fun hzero => h (UInt8.toNat_inj.mp hzero)
  have hlog : byte.toNat.log2 < 8 := (Nat.log2_lt hne).mpr byte.toNat_lt
  have hbit : 7 - leadingZeros byte = byte.toNat.log2 := by
    rw [leadingZeros, if_neg h]
    omega
  rw [hbit]
  exact ⟨hlog, Nat.log2_self_le hne, Nat.lt_log2_self⟩

/-- The scan stops at the byte that gives the size of the number. -/
theorem firstSetBit_bounds {byteIdx i : Nat} {bytes : List UInt8}
    (h : firstSetBit byteIdx bytes = some i) : ∃ k j, k < bytes.length ∧ j < 8 ∧
      i = 8 * (byteIdx + k) + j ∧ 2 ^ (8 * (bytes.length - 1 - k) + j) ≤ ofBeBytes bytes ∧
      ofBeBytes bytes < 2 ^ (8 * (bytes.length - 1 - k) + j + 1) := by
  induction bytes generalizing byteIdx with
  | nil => cases h
  | cons byte rest ih =>
    rw [firstSetBit] at h
    split at h
    case isTrue hne =>
      cases h
      obtain ⟨hj, hlow, hhigh⟩ := highest_bit_bounds hne
      obtain ⟨hle, hlt⟩ := ofBeBytes_cons_bounds hlow hhigh rest
      refine ⟨0, 7 - leadingZeros byte, Nat.zero_lt_succ _, hj, by omega, ?_, ?_⟩
      · simpa using hle
      · simpa using hlt
    case isFalse hzero =>
      obtain ⟨k, j, hk, hj, hi, hle, hlt⟩ := ih h
      have hvalue : ofBeBytes (byte :: rest) = ofBeBytes rest := by
        simp [ofBeBytes, not_not.mp hzero]
      have hlength : (byte :: rest).length - 1 - (k + 1) = rest.length - 1 - k := by
        rw [List.length_cons]
        omega
      refine ⟨k + 1, j, ?_, hj, by omega, ?_⟩
      · rw [List.length_cons]
        omega
      · rw [hvalue, hlength]
        exact ⟨hle, hlt⟩

/-- Only an identifier itself has the distance zero. -/
theorem distance_pos_iff : 0 < a.distance b ↔ a ≠ b := by
  have hself : b.distance b = 0 := by
    have hzero : ∀ byte ∈ (b.xorDistance b).toList, byte = 0 :=
      firstSetBit_eq_none.mp (bucketIndex_eq_none.mpr rfl)
    rw [distance]
    generalize (b.xorDistance b).toList = bytes at hzero
    induction bytes with
    | nil => rfl
    | cons byte rest ih =>
      obtain ⟨hbyte, hrest⟩ := List.forall_mem_cons.mp hzero
      simp [ofBeBytes, hbyte, ih hrest]
  rw [Nat.pos_iff_ne_zero, not_iff_not, ← hself]
  exact (distance_left_injective b).eq_iff

/-- The logarithm of the distances that belong in a bucket. -/
def level (i : Nat) : Nat := 8 * (31 - i / 8) + i % 8

/-- Different indices stand for different distances. -/
theorem level_injOn {i j : Nat} (hi : i < 256) (hj : j < 256) (h : level i = level j) : i = j := by
  unfold level at h
  omega

/-- No bucket is in its place. -/
theorem level_ne (i : Nat) : level i ≠ i := by
  unfold level
  omega

/-- A number lies between two powers of two only once. -/
theorem eq_of_two_pow_bounds {d k l : Nat} (hk : 2 ^ k ≤ d) (hk' : d < 2 ^ (k + 1))
    (hl : 2 ^ l ≤ d) (hl' : d < 2 ^ (l + 1)) : k = l := by
  have hup := (Nat.pow_lt_pow_iff_right (by decide)).mp (hk.trans_lt hl')
  have hdown := (Nat.pow_lt_pow_iff_right (by decide)).mp (hl.trans_lt hk')
  omega

/-- Where the source puts a peer. -/
theorem bucketIndex_eq_some_iff {i : Nat} : a.bucketIndex b = some i ↔
    i < 256 ∧ 2 ^ level i ≤ a.distance b ∧ a.distance b < 2 ^ (level i + 1) := by
  have hbounds : ∀ {i}, a.bucketIndex b = some i →
      i < 256 ∧ 2 ^ level i ≤ a.distance b ∧ a.distance b < 2 ^ (level i + 1) := by
    intro i h
    obtain ⟨k, j, hk, hj, hi, hle, hlt⟩ := firstSetBit_bounds h
    rw [Vector.length_toList] at hk hle hlt
    have hlevel : level i = 8 * (32 - 1 - k) + j := by
      unfold level
      omega
    rw [hlevel]
    exact ⟨by omega, hle, hlt⟩
  refine ⟨hbounds, ?_⟩
  rintro ⟨hi, hle, hlt⟩
  cases hindex : a.bucketIndex b with
  | none =>
    have hpos := distance_pos_iff.mp (lt_of_lt_of_le (Nat.two_pow_pos _) hle)
    exact absurd (bucketIndex_eq_none.mp hindex) hpos
  | some i' =>
    obtain ⟨hi', hle', hlt'⟩ := hbounds hindex
    rw [level_injOn hi' hi (eq_of_two_pow_bounds hle' hlt' hle hlt)]

/-- The bucket index is the logarithm of the distance. -/
structure LogIndex (a b : PeerId) : Prop where
  some_iff : ∀ i, a.bucketIndex b = some i ↔ 2 ^ i ≤ a.distance b ∧ a.distance b < 2 ^ (i + 1)
  none_iff : a.bucketIndex b = none ↔ a = b

/-- A peer that is no farther than another has no higher index. -/
def InOrder (a b c : PeerId) : Prop :=
  ∀ i j, a.bucketIndex b = some i → a.bucketIndex c = some j → i ≤ j

/-- The number of bytes of a distance, less one, from its logarithm. -/
theorem log_256_eq {d l : Nat} (hle : 2 ^ l ≤ d) (hlt : d < 2 ^ (l + 1)) :
    Nat.log 256 d = l / 8 := by
  have hpow : ∀ m, (256 : Nat) ^ m = 2 ^ (8 * m) := fun m => (pow_mul 2 8 m).symm
  have hne : d ≠ 0 := Nat.ne_of_gt (lt_of_lt_of_le (Nat.two_pow_pos _) hle)
  rw [Nat.log_eq_iff (.inr ⟨by decide, hne⟩), hpow, hpow]
  constructor
  · exact (Nat.pow_le_pow_right (by decide) (by omega)).trans hle
  · exact hlt.trans_le (Nat.pow_le_pow_right (by decide) (by omega))

/-- No index is the logarithm of a distance: bytes are counted from the other end. -/
theorem logIndex_iff_eq : a.LogIndex b ↔ a = b := by
  constructor
  · intro h
    by_contra hne
    obtain ⟨i, hi⟩ := exists_bucketIndex hne
    obtain ⟨-, hle, hlt⟩ := bucketIndex_eq_some_iff.mp hi
    obtain ⟨hle', hlt'⟩ := (h.some_iff i).mp hi
    exact level_ne i (eq_of_two_pow_bounds hle hlt hle' hlt')
  · intro heq
    have hnone := bucketIndex_eq_none.mpr heq
    have hzero : a.distance b = 0 := by
      by_contra hne
      exact distance_pos_iff.mp (Nat.pos_of_ne_zero hne) heq
    refine ⟨fun i => ?_, bucketIndex_eq_none⟩
    rw [hnone, hzero]
    exact iff_of_false nofun fun h => absurd h.1 (Nat.not_le.mpr (Nat.two_pow_pos i))

/-- The indices of two peers are in the order of the distances within a byte only. -/
theorem inOrder_iff (hne : a ≠ b) (hlt : a.distance b < a.distance c) :
    a.InOrder b c ↔ Nat.log 256 (a.distance b) = Nat.log 256 (a.distance c) := by
  have hne' : a ≠ c := distance_pos_iff.mp (Nat.zero_lt_of_lt hlt)
  obtain ⟨i, hi⟩ := exists_bucketIndex hne
  obtain ⟨j, hj⟩ := exists_bucketIndex hne'
  obtain ⟨hi256, hile, hilt⟩ := bucketIndex_eq_some_iff.mp hi
  obtain ⟨hj256, hjle, hjlt⟩ := bucketIndex_eq_some_iff.mp hj
  have hlevel : level i < level j + 1 :=
    (Nat.pow_lt_pow_iff_right (by decide)).mp (hile.trans_lt (hlt.trans hjlt))
  have horder : a.InOrder b c ↔ i ≤ j := by
    refine ⟨fun h => h i j hi hj, fun hij i' j' hi' hj' => ?_⟩
    rw [hi] at hi'
    rw [hj] at hj'
    cases hi'
    cases hj'
    exact hij
  rw [horder, log_256_eq hile hilt, log_256_eq hjle hjlt]
  unfold level at *
  omega

/-- The index of a peer is the logarithm of its distance only for the peer that has no index, and
of two peers the nearer one has no higher index just if both distances have as many bytes. -/
theorem logIndex_iff (a : PeerId) : (∀ b, a.LogIndex b ↔ a = b) ∧
    ∀ b c, a ≠ b → a.distance b < a.distance c →
      (a.InOrder b c ↔ Nat.log 256 (a.distance b) = Nat.log 256 (a.distance c)) := by
  constructor
  · intro b
    exact logIndex_iff_eq
  · intro b c hne hlt
    exact inOrder_iff hne hlt

/-- Identifiers that differ in the lowest bit are at distance 1, and in bucket 248. -/
theorem nearest_peer_in_bucket_248 :
    ¬LogIndex ⟨Vector.replicate 32 0⟩ ⟨(Vector.replicate 32 0).set 31 1⟩ := by
  intro h
  have hindex := (h.some_iff 248).mp (by decide +kernel)
  exact absurd hindex (by decide +kernel)

end CekyP2P.Crypto.PeerId
