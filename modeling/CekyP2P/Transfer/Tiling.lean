import CekyP2P.Transfer.State

/-!
# Chunk ranges

The chunk count is narrowed to 32 bits and chunk offsets are products in 32 bits.
The ranges cover the file exactly when neither loses anything.
-/

namespace CekyP2P.Transfer

open Protocol

/-- Number of chunks of a file, without narrowing. -/
def chunkCount (fileLen chunkSize : Nat) : Nat := (fileLen + (chunkSize - 1)) / chunkSize

/-- Chunks start inside the file. -/
theorem mul_lt_of_lt_chunkCount {fileLen chunkSize i : Nat} (hpos : 0 < chunkSize)
    (hi : i < chunkCount fileLen chunkSize) : i * chunkSize < fileLen := by
  have := (Nat.lt_div_iff_mul_lt hpos).mp hi
  omega

/-- The chunks reach the end of the file. -/
theorem le_chunkCount_mul (fileLen : Nat) {chunkSize : Nat} (hpos : 0 < chunkSize) :
    fileLen ≤ chunkCount fileLen chunkSize * chunkSize := by
  have := Nat.lt_div_mul_add (a := fileLen + (chunkSize - 1)) hpos
  rw [← chunkCount] at this
  omega

section

variable {fileSize : UInt64} {chunkSize : UInt32}

/-- A chunk size that is not zero is positive. -/
theorem toNat_pos_of_ne_zero (hc : chunkSize ≠ 0) : 0 < chunkSize.toNat := by
  have : chunkSize.toNat ≠ 0 := fun h => hc (UInt32.toNat_inj.mp (by simpa using h))
  omega

/-- The code's quotient is the number of chunks, modulo the narrowing. -/
theorem toNat_computeTotalChunks (hc : chunkSize ≠ 0) :
    (computeTotalChunks fileSize chunkSize).toNat =
      chunkCount fileSize.toNat chunkSize.toNat % 2 ^ 32 := by
  have hpos := toNat_pos_of_ne_zero hc
  by_cases hf : fileSize = 0
  · subst hf
    have : (chunkSize.toNat - 1) / chunkSize.toNat = 0 := Nat.div_eq_of_lt (by omega)
    simp [computeTotalChunks, chunkCount, this]
  · have hfpos : 0 < fileSize.toNat := by
      have : fileSize.toNat ≠ 0 := fun h => hf (UInt64.toNat_inj.mp (by simpa using h))
      omega
    have hone : 1 ≤ fileSize := UInt64.le_iff_toNat_le.mpr (Nat.succ_le_of_lt hfpos)
    have hquot : (fileSize.toNat - 1) / chunkSize.toNat ≤ fileSize.toNat - 1 := Nat.div_le_self _ _
    have hlt := fileSize.toNat_lt
    have hceil : chunkCount fileSize.toNat chunkSize.toNat =
        (fileSize.toNat - 1) / chunkSize.toNat + 1 := by
      rw [chunkCount, ← Nat.add_div_right _ hpos]
      congr 1
      omega
    rw [computeTotalChunks, if_neg (by simp [hf, hc]), hceil, UInt64.toNat_toUInt32,
      UInt64.toNat_add, UInt64.toNat_div, UInt64.toNat_sub_of_le _ _ hone, UInt32.toNat_toUInt64]
    simp only [UInt64.reduceToNat]
    omega

/-- Every chunk with an index below the code's count starts inside the file. -/
theorem mul_lt_of_lt_computeTotalChunks {i : Nat}
    (hi : i < (computeTotalChunks fileSize chunkSize).toNat) :
    i * chunkSize.toNat < fileSize.toNat := by
  have hc : chunkSize ≠ 0 := by
    rintro rfl
    simp [computeTotalChunks] at hi
  have hcount : i < chunkCount fileSize.toNat chunkSize.toNat := by
    rw [toNat_computeTotalChunks hc] at hi
    exact hi.trans_le (Nat.mod_le _ _)
  exact mul_lt_of_lt_chunkCount (toNat_pos_of_ne_zero hc) hcount

/-- So does the range computed for it, wrapped or not. -/
theorem chunkStart_lt {i : UInt32} (hi : i < computeTotalChunks fileSize chunkSize) :
    chunkStart i chunkSize < fileSize.toNat := by
  rw [chunkStart, UInt32.toNat_mul]
  exact (Nat.mod_le _ _).trans_lt
    (mul_lt_of_lt_computeTotalChunks (UInt32.lt_iff_toNat_lt.mp hi))

end

/-- The ranges of a file's chunks are non-empty, follow one another, and cover the file. -/
structure Tiles (fileSize : UInt64) (chunkSize : UInt32) : Prop where
  nonempty : ∀ i < computeTotalChunks fileSize chunkSize,
    chunkStart i chunkSize < chunkEnd fileSize.toNat i chunkSize
  increasing : ∀ i j, i < j → j < computeTotalChunks fileSize chunkSize →
    chunkEnd fileSize.toNat i chunkSize ≤ chunkStart j chunkSize
  covers : ∀ x, x < fileSize.toNat ↔ ∃ i < computeTotalChunks fileSize chunkSize,
    chunkStart i chunkSize ≤ x ∧ x < chunkEnd fileSize.toNat i chunkSize

/-- Neither the chunk count nor the offset of the last chunk exceeds 32 bits. -/
def OffsetsFit (fileLen chunkSize : Nat) : Prop :=
  chunkCount fileLen chunkSize < 2 ^ 32 ∧ (chunkCount fileLen chunkSize - 1) * chunkSize < 2 ^ 32

section

variable {fileSize : UInt64} {chunkSize : UInt32}

/-- Without loss the count is the number of chunks. -/
theorem toNat_computeTotalChunks_of_fit (hc : chunkSize ≠ 0)
    (hfit : chunkCount fileSize.toNat chunkSize.toNat < 2 ^ 32) :
    (computeTotalChunks fileSize chunkSize).toNat =
      chunkCount fileSize.toNat chunkSize.toNat := by
  rw [toNat_computeTotalChunks hc, Nat.mod_eq_of_lt hfit]

/-- Without loss every offset is the product. -/
theorem chunkStart_of_lt {i : UInt32} (h : i.toNat * chunkSize.toNat < 2 ^ 32) :
    chunkStart i chunkSize = i.toNat * chunkSize.toNat := by
  rw [chunkStart, UInt32.toNat_mul, Nat.mod_eq_of_lt h]

/-- Offsets that fit let the chunks tile the file. -/
theorem tiles_of_offsetsFit (hc : chunkSize ≠ 0)
    (hfit : OffsetsFit fileSize.toNat chunkSize.toNat) : Tiles fileSize chunkSize := by
  have hpos := toNat_pos_of_ne_zero hc
  have htotal := toNat_computeTotalChunks_of_fit hc hfit.1
  have hmul : ∀ i : UInt32, i < computeTotalChunks fileSize chunkSize →
      i.toNat * chunkSize.toNat < 2 ^ 32 := by
    intro i hi
    have hlt := UInt32.lt_iff_toNat_lt.mp hi
    rw [htotal] at hlt
    exact (Nat.mul_le_mul_right _ (by omega)).trans_lt hfit.2
  refine ⟨?_, ?_, ?_⟩
  · intro i hi
    have := chunkStart_lt hi
    rw [chunkEnd]
    omega
  · intro i j hij hj
    rw [chunkEnd, chunkStart_of_lt (hmul i (UInt32.lt_trans hij hj)), chunkStart_of_lt (hmul j hj)]
    have := Nat.mul_le_mul_right chunkSize.toNat (UInt32.lt_iff_toNat_lt.mp hij)
    rw [Nat.succ_mul] at this
    omega
  · intro x
    constructor
    · intro hx
      have hdiv : x / chunkSize.toNat < chunkCount fileSize.toNat chunkSize.toNat := by
        rw [chunkCount, Nat.lt_div_iff_mul_lt hpos]
        have := Nat.div_mul_le_self x chunkSize.toNat
        omega
      have htoNat : (UInt32.ofNat (x / chunkSize.toNat)).toNat = x / chunkSize.toNat := by
        rw [UInt32.toNat_ofNat', Nat.mod_eq_of_lt (hdiv.trans hfit.1)]
      have hi : UInt32.ofNat (x / chunkSize.toNat) < computeTotalChunks fileSize chunkSize := by
        rw [UInt32.lt_iff_toNat_lt, htoNat, htotal]
        exact hdiv
      refine ⟨_, hi, ?_⟩
      have hstart := chunkStart_of_lt (hmul _ hi)
      rw [htoNat] at hstart
      have hle := Nat.div_mul_le_self x chunkSize.toNat
      have hlt := Nat.lt_div_mul_add (a := x) hpos
      rw [chunkEnd, hstart]
      omega
    · rintro ⟨i, -, -, hx⟩
      rw [chunkEnd] at hx
      omega

/-- If the ranges follow one another, the last one reaches the end of the file. -/
theorem Tiles.fileSize_le (h : Tiles fileSize chunkSize) (hf : 0 < fileSize.toNat) :
    ∃ j : UInt32, j.toNat + 1 = (computeTotalChunks fileSize chunkSize).toNat ∧
      fileSize.toNat ≤ chunkStart j chunkSize + chunkSize.toNat := by
  obtain ⟨i, hi, -, hend⟩ := (h.covers (fileSize.toNat - 1)).mp (by omega)
  have hlt := UInt32.lt_iff_toNat_lt.mp hi
  have hbound := (computeTotalChunks fileSize chunkSize).toNat_lt
  have htoNat : (UInt32.ofNat ((computeTotalChunks fileSize chunkSize).toNat - 1)).toNat =
      (computeTotalChunks fileSize chunkSize).toNat - 1 := by
    rw [UInt32.toNat_ofNat', Nat.mod_eq_of_lt (by omega)]
  refine ⟨.ofNat ((computeTotalChunks fileSize chunkSize).toNat - 1), by omega, ?_⟩
  generalize UInt32.ofNat ((computeTotalChunks fileSize chunkSize).toNat - 1) = j at htoNat
  by_cases hij : i < j
  · have hfollow := h.increasing i j hij (by rw [UInt32.lt_iff_toNat_lt]; omega)
    omega
  · have hji : i = j := by
      apply UInt32.toNat_inj.mp
      rw [UInt32.lt_iff_toNat_lt] at hij
      omega
    rw [chunkEnd, hji] at hend
    omega

/-- Chunks that tile a file have offsets that fit. The ranges reach no further than the count, so
that nothing was cut off it. -/
theorem offsetsFit_of_tiles (hc : chunkSize ≠ 0) (h : Tiles fileSize chunkSize) :
    OffsetsFit fileSize.toNat chunkSize.toNat := by
  have hpos := toNat_pos_of_ne_zero hc
  rcases Nat.eq_zero_or_pos fileSize.toNat with hf | hf
  · have : (chunkSize.toNat - 1) / chunkSize.toNat = 0 := Nat.div_eq_of_lt (by omega)
    simp [OffsetsFit, chunkCount, hf, this]
  obtain ⟨j, hj, hreach⟩ := h.fileSize_le hf
  rw [toNat_computeTotalChunks hc] at hj
  rw [chunkStart, UInt32.toNat_mul] at hreach
  generalize hN : chunkCount fileSize.toNat chunkSize.toNat = N at hj
  have hlast : (N - 1) * chunkSize.toNat < fileSize.toNat := by
    have hle : 0 < N := by
      rw [← hN, chunkCount]
      exact Nat.div_pos (by omega) hpos
    exact mul_lt_of_lt_chunkCount hpos (by omega)
  have hcount : N = N % 2 ^ 32 := by
    have hle : N % 2 ^ 32 ≤ N := Nat.mod_le _ _
    have hwrap : j.toNat * chunkSize.toNat % 2 ^ 32 ≤ j.toNat * chunkSize.toNat := Nat.mod_le _ _
    have : (N - 1) * chunkSize.toNat < N % 2 ^ 32 * chunkSize.toNat := by
      rw [← hj, Nat.succ_mul]
      omega
    have := Nat.lt_of_mul_lt_mul_right this
    omega
  have hjN : j.toNat = N - 1 := by omega
  have hsmall := chunkSize.toNat_lt
  rw [hjN] at hreach
  rw [OffsetsFit, hN]
  refine ⟨by omega, ?_⟩
  by_contra hlarge
  have hwrap : (N - 1) * chunkSize.toNat % 2 ^ 32 + 2 ^ 32 ≤ (N - 1) * chunkSize.toNat := by
    have := Nat.mod_lt ((N - 1) * chunkSize.toNat) (show 0 < 2 ^ 32 by decide)
    have := Nat.div_add_mod ((N - 1) * chunkSize.toNat) (2 ^ 32)
    have : 1 ≤ (N - 1) * chunkSize.toNat / 2 ^ 32 :=
      (Nat.one_le_div_iff (by decide)).mpr (by omega)
    omega
  omega

/-- The chunk ranges tile a file exactly when its chunk count and its last offset fit in
32 bits. -/
theorem tiles_iff_offsetsFit (fileSize : UInt64) (chunkSize : UInt32) (hc : chunkSize ≠ 0) :
    Tiles fileSize chunkSize ↔ OffsetsFit fileSize.toNat chunkSize.toNat :=
  ⟨offsetsFit_of_tiles hc, tiles_of_offsetsFit hc⟩

/-- A file of three chunks of 1000 bytes. -/
theorem tiles_iff_offsetsFit_small :
    (1000 : UInt32) ≠ 0 ∧ (Tiles 2500 1000 ↔ OffsetsFit 2500 1000) ∧ OffsetsFit 2500 1000 :=
  ⟨by decide, tiles_iff_offsetsFit 2500 1000 (by decide), by unfold OffsetsFit; decide⟩

/-- One byte more than 4 GiB in chunks of 64 KiB: the last chunk starts at 0 again. -/
theorem not_tiles_past_four_gib : ¬ Tiles 4294967297 65536 := by
  intro h
  have := h.increasing 0 65536 (by decide) (by decide)
  revert this
  decide

end

end CekyP2P.Transfer
