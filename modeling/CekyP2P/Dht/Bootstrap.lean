import CekyP2P.Crypto.XorMetric
import CekyP2P.Dht.RoutingInvariant

/-!
# Lookups that fill the buckets

A node looks for identifiers that it makes up to fall in certain buckets: it flips one bit of
its own identifier and, for a first filling of the table, scrambles the bytes behind it.
-/

namespace CekyP2P.Dht

open Crypto

variable {F : Type}

/-- The fields of the configuration that the targets depend on. -/
structure BootstrapConfig where
  /-- A `usize`. -/
  randomLookups : UInt64
  refreshInterval : Nat

/-- What decides on the lookups of a node that joins. -/
structure BootstrapManager where
  config : BootstrapConfig

/-- `target[bucket / 8] ^= 1 << (bucket % 8)`, if there is such a byte. -/
def flipBit (bytes : Vector UInt8 32) (bucket : Nat) : Vector UInt8 32 :=
  if h : bucket / 8 < 32 then
    bytes.set (bucket / 8) (bytes[bucket / 8] ^^^ (1 <<< UInt8.ofNat (bucket % 8)))
  else bytes

/-- The bytes from an index on, with a seed XORed into each. -/
def scramble (bytes : Vector UInt8 32) (start : Nat) (seed : UInt8) : Vector UInt8 32 :=
  bytes.mapIdx fun i byte => if i < start then byte else byte ^^^ seed

namespace BootstrapManager

/-- One round of the loop of `generate_bucket_fill_targets`; the product is a `usize`. -/
def bucketFillTarget (m : BootstrapManager) (localId : PeerId) (i : UInt64) : PeerId :=
  let targetBucket := (i * UInt64.ofNat numBuckets / max m.config.randomLookups 1).toNat
  let seed := i.toUInt8 * 0x9E + 0x37
  ⟨scramble (flipBit localId.bytes targetBucket) (targetBucket / 8 + 1) seed⟩

/-- The targets of the lookups that fill the buckets. -/
def generateBucketFillTargets (m : BootstrapManager) (localId : PeerId) : List PeerId :=
  (List.range m.config.randomLookups.toNat).map fun i =>
    m.bucketFillTarget localId (UInt64.ofNat i)

end BootstrapManager

/-- The buckets that hold a peer and have not been refreshed for longer than `maxAge`. -/
def RoutingTable.staleBuckets (t : RoutingTable F) (maxAge now : Nat) : List Nat :=
  (t.buckets.zipIdx.filter fun (b, _) => !b.peers.isEmpty && maxAge < now - b.lastRefresh).map (·.2)

/-- The targets of the lookups that refresh buckets. -/
def BootstrapManager.staleBucketTargets (m : BootstrapManager) (localId : PeerId)
    (t : RoutingTable F) (now : Nat) : List PeerId :=
  (t.staleBuckets m.config.refreshInterval now).map fun bucketIdx =>
    ⟨flipBit localId.bytes bucketIdx⟩

/-! ## Flipped bits -/

/-- One bit of one byte is flipped. -/
theorem getElem_flipBit (bytes : Vector UInt8 32) {bucket : Nat} (h : bucket < 256) {i : Nat}
    (hi : i < 32) : (flipBit bytes bucket)[i] =
      if i = bucket / 8 then bytes[i] ^^^ (1 <<< UInt8.ofNat (bucket % 8)) else bytes[i] := by
  have hbyte : bucket / 8 < 32 := by omega
  rw [flipBit, dif_pos hbyte, Vector.getElem_set]
  split
  case isTrue heq =>
    subst heq
    rw [if_pos rfl]
  case isFalse hne => rw [if_neg (Ne.symm hne)]

/-- The bytes behind a place are changed. -/
theorem getElem_scramble (bytes : Vector UInt8 32) (start : Nat) (seed : UInt8) {i : Nat}
    (hi : i < 32) :
    (scramble bytes start seed)[i] = if i < start then bytes[i] else bytes[i] ^^^ seed := by
  simp [scramble]

/-- The bit that is flipped in a byte is the highest one of the difference. -/
theorem shifted_one {j : Nat} (hj : j < 8) : (1 : UInt8) <<< UInt8.ofNat j ≠ 0 ∧
    7 - leadingZeros (1 <<< UInt8.ofNat j) = j := by
  revert j
  decide

/-- The scan passes over zero bytes. -/
theorem firstSetBit_of_zeros {byteIdx k : Nat} {bytes : List UInt8} {byte : UInt8}
    (hzero : ∀ m, m < k → bytes[m]? = some 0) (hk : bytes[k]? = some byte) (hne : byte ≠ 0) :
    PeerId.firstSetBit byteIdx bytes = some ((byteIdx + k) * 8 + (7 - leadingZeros byte)) := by
  induction bytes generalizing byteIdx k with
  | nil => cases hk
  | cons first rest ih =>
    rw [PeerId.firstSetBit]
    cases k with
    | zero =>
      cases hk
      rw [if_pos hne]
      rfl
    | succ k =>
      have hfirst : first = 0 := Option.some.inj (hzero 0 (Nat.zero_lt_succ k))
      rw [if_neg (not_not.mpr hfirst), ih (fun m hm => hzero (m + 1) (Nat.succ_lt_succ hm)) hk,
        Nat.add_assoc, Nat.add_comm 1 k]

/-- An identifier whose first difference is one bit falls in the bucket of this bit. -/
theorem bucketIndex_of_flipped {localId target : PeerId} {bucket : Nat} (h : bucket < 256)
    (hbytes : ∀ (i : Nat) (hi : i < 32), i ≤ bucket / 8 →
      target.bytes[i] = (flipBit localId.bytes bucket)[i]) :
    localId.bucketIndex target = some bucket := by
  obtain ⟨hne, hbit⟩ := shifted_one (Nat.mod_lt bucket (by decide : 0 < 8))
  have hget : ∀ i, i ≤ bucket / 8 → (localId.xorDistance target).toList[i]? =
      some (if i = bucket / 8 then 1 <<< UInt8.ofNat (bucket % 8) else 0) := by
    intro i hi
    have hlt : i < 32 := by omega
    rw [List.getElem?_eq_getElem (by simpa using hlt), Vector.getElem_toList]
    simp only [PeerId.xorDistance, Vector.getElem_zipWith, hbytes i hlt hi,
      getElem_flipBit localId.bytes h hlt]
    split
    · rw [← UInt8.xor_assoc, UInt8.xor_self, UInt8.zero_xor]
    · rw [UInt8.xor_self]
  rw [PeerId.bucketIndex, firstSetBit_of_zeros (k := bucket / 8) ?_ (hget _ le_rfl) ?_]
  · rw [if_pos rfl, hbit]
    congr 1
    omega
  · intro m hm
    rw [hget m hm.le, if_neg (by omega)]
  · rw [if_pos rfl]
    exact hne

/-! ## Targets and their buckets -/

namespace BootstrapManager

variable {m : BootstrapManager}

/-- The bucket that a round aims at, without overflow. -/
theorem targetBucket_eq (hpos : 1 ≤ m.config.randomLookups)
    (hfits : m.config.randomLookups.toNat * numBuckets < 2 ^ 64) {i : Nat}
    (hi : i < m.config.randomLookups.toNat) :
    (UInt64.ofNat i * UInt64.ofNat numBuckets / max m.config.randomLookups 1).toNat =
      i * 256 / m.config.randomLookups.toNat := by
  have hbuckets : numBuckets = 256 := rfl
  rw [hbuckets] at hfits
  have hmax : max m.config.randomLookups 1 = m.config.randomLookups := by
    change (if m.config.randomLookups ≤ 1 then 1 else m.config.randomLookups) = _
    split
    case isTrue hle => exact UInt64.le_antisymm hpos hle
    case isFalse => rfl
  have hproduct : i * 256 < 2 ^ 64 := (Nat.mul_le_mul_right 256 hi.le).trans_lt hfits
  have hi64 : i < 2 ^ 64 := (Nat.le_mul_of_pos_right i (by decide)).trans_lt hproduct
  rw [hmax, UInt64.toNat_div, UInt64.toNat_mul, UInt64.toNat_ofNat', UInt64.toNat_ofNat', hbuckets,
    Nat.mod_eq_of_lt hi64, Nat.mod_eq_of_lt (by decide : 256 < 2 ^ 64), Nat.mod_eq_of_lt hproduct]

/-- The buckets of the targets are spread evenly, as long as the product does not overflow. -/
theorem bucketIndex_bucketFillTarget (hpos : 1 ≤ m.config.randomLookups)
    (hfits : m.config.randomLookups.toNat * numBuckets < 2 ^ 64) (localId : PeerId) {i : Nat}
    (hi : i < m.config.randomLookups.toNat) :
    localId.bucketIndex (m.bucketFillTarget localId (UInt64.ofNat i)) =
      some (i * 256 / m.config.randomLookups.toNat) := by
  have hlt : i * 256 / m.config.randomLookups.toNat < 256 := by
    rw [Nat.div_lt_iff_lt_mul (by omega)]
    omega
  rw [bucketFillTarget]
  simp only [targetBucket_eq hpos hfits hi]
  apply bucketIndex_of_flipped hlt
  intro k hk hle
  rw [getElem_scramble _ _ _ hk, if_pos (by omega)]

/-- With at most as many rounds as buckets, every round has a bucket of its own. -/
theorem bucket_lt_bucket {n i j : Nat} (hn : n ≤ 256) (hpos : 0 < n) (hij : i < j) :
    i * 256 / n < j * 256 / n := by
  calc i * 256 / n < i * 256 / n + 1 := Nat.lt_succ_self _
    _ = (i * 256 + n) / n := (Nat.add_div_right _ hpos).symm
    _ ≤ j * 256 / n := Nat.div_le_div_right (by omega)

/-- A stale bucket is one of the table. -/
theorem staleBuckets_lt {t : RoutingTable F} (h : t.buckets.length = numBuckets)
    {maxAge now i : Nat} (hi : i ∈ t.staleBuckets maxAge now) : i < 256 := by
  obtain ⟨⟨b, k⟩, hmem, rfl⟩ := List.mem_map.mp hi
  have hget := List.mem_zipIdx_iff_getElem?.mp (List.mem_filter.mp hmem).1
  have hlt := (List.getElem?_eq_some_iff.mp hget).1
  rw [h] at hlt
  exact hlt

/-- Every target falls in the bucket that it is made for. -/
theorem targets_hit_buckets (m : BootstrapManager) (localId : PeerId)
    (hpos : 1 ≤ m.config.randomLookups)
    (hfits : m.config.randomLookups.toNat * numBuckets < 2 ^ 64) :
    (m.generateBucketFillTargets localId).map localId.bucketIndex =
      (List.range m.config.randomLookups.toNat).map
        (fun i => some (i * numBuckets / m.config.randomLookups.toNat)) ∧
    (m.config.randomLookups.toNat ≤ numBuckets →
      ((m.generateBucketFillTargets localId).map localId.bucketIndex).Nodup) ∧
    ∀ (F : Type) (f64 : F64 F) (created : Nat) (calls : List Mutation) (now : Nat),
      (m.staleBucketTargets localId ((RoutingTable.new localId created).run f64 calls) now).map
          localId.bucketIndex =
        (((RoutingTable.new localId created).run f64 calls).staleBuckets
          m.config.refreshInterval now).map some := by
  have hfill : (m.generateBucketFillTargets localId).map localId.bucketIndex =
      (List.range m.config.randomLookups.toNat).map
        (fun i => some (i * numBuckets / m.config.randomLookups.toNat)) := by
    rw [generateBucketFillTargets, List.map_map]
    apply List.map_congr_left
    intro i hi
    exact bucketIndex_bucketFillTarget hpos hfits localId (List.mem_range.mp hi)
  refine ⟨hfill, ?_, ?_⟩
  · intro hle
    rw [hfill, List.Nodup, List.pairwise_map]
    refine List.pairwise_lt_range.imp ?_
    intro i j hij heq
    have hlt := bucket_lt_bucket hle (UInt64.le_iff_toNat_le.mp hpos) hij
    exact Nat.ne_of_lt hlt (Option.some.inj heq)
  · intro F f64 created calls now
    have hlength := ((RoutingTable.valid_new localId created).run f64 calls).1.length_buckets
    generalize (RoutingTable.new localId created).run f64 calls = t at hlength
    rw [staleBucketTargets, List.map_map]
    apply List.map_congr_left
    intro bucketIdx hmem
    exact bucketIndex_of_flipped (staleBuckets_lt hlength hmem) fun _ _ _ => rfl

/-- The default configuration. -/
def withDefaults : BootstrapManager := ⟨3, 3600 * 1000000000⟩

/-- With the default configuration, three buckets are looked up. -/
theorem default_targets_hit_buckets :
    withDefaults.config.randomLookups.toNat * numBuckets < 2 ^ 64 ∧
    (withDefaults.generateBucketFillTargets ⟨Vector.replicate 32 0⟩).map
      (PeerId.bucketIndex ⟨Vector.replicate 32 0⟩) = [some 0, some 85, some 170] :=
  ⟨by decide, (targets_hit_buckets withDefaults ⟨Vector.replicate 32 0⟩ (by decide) (by decide)).1⟩

end BootstrapManager

end CekyP2P.Dht
