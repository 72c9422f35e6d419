import Mathlib.Data.Finset.Lattice.Fold
import Mathlib.Order.Lattice.Nat
import Mathlib.Order.Nat

/-!
# Anti-replay windows as a set specification

A receiver that accepts every message number at most once is specified by the
finite set of numbers accepted so far: a number is fresh when it is not in the
set and is less than the window size behind the largest one. A sliding bitmap
implements this when it tracks the set: bit `i` stands for the largest number
minus `i`. Advancing the window and marking inside it keep the bitmap tracking.
-/

namespace CekyP2P

/-- The number is acceptable to a receiver that has accepted `accepted`. The
largest accepted number counts as 0 while there is none. -/
def Fresh (size : Nat) (accepted : Finset Nat) (n : Nat) : Prop :=
  n ∉ accepted ∧ accepted.sup id < n + size

instance (size : Nat) (accepted : Finset Nat) (n : Nat) : Decidable (Fresh size accepted n) :=
  inferInstanceAs (Decidable (_ ∧ _))

/-- One call on the set specification. -/
def freshStep (size : Nat) (accepted : Finset Nat) (n : Nat) : Bool × Finset Nat :=
  if Fresh size accepted n then (true, insert n accepted) else (false, accepted)

/-- A sliding bitmap below `top` records the accepted set in its window. -/
structure Tracks (size : Nat) (accepted : Finset Nat) (top : Nat) (bit : Nat → Bool) : Prop where
  /-- The window ends at the largest accepted number. -/
  top_eq : top = accepted.sup id
  /-- Bit `i` stands for `top - i`. -/
  bit_iff : ∀ i, i < size → i ≤ top → (bit i = true ↔ top - i ∈ accepted)

variable {size top n : Nat} {accepted : Finset Nat} {bit bit' : Nat → Bool}

/-- Before any call the window sits at 0 with nothing marked. -/
theorem tracks_empty (size : Nat) : Tracks size ∅ 0 (fun _ => false) :=
  ⟨by simp, by simp⟩

/-- Accepted numbers never lie above the window. -/
theorem Tracks.le_top (h : Tracks size accepted top bit) (hn : n ∈ accepted) : n ≤ top := by
  rw [h.top_eq]
  exact Finset.le_sup (f := id) hn

/-- A number above the window is always fresh. -/
theorem Tracks.fresh_of_gt (h : Tracks size accepted top bit) (hn : top < n) :
    Fresh size accepted n := by
  refine ⟨fun hmem => ?_, ?_⟩
  · have := h.le_top hmem
    omega
  · rw [← h.top_eq]
    omega

/-- Below the top, freshness is read off the bitmap. -/
theorem Tracks.fresh_iff (h : Tracks size accepted top bit) (hn : n ≤ top) :
    Fresh size accepted n ↔ top - n < size ∧ bit (top - n) = false := by
  have hback : top - (top - n) = n := by omega
  constructor
  · rintro ⟨hmem, hlt⟩
    rw [← h.top_eq] at hlt
    have hwin : top - n < size := by omega
    have hbit := h.bit_iff (top - n) hwin (by omega)
    rw [hback] at hbit
    exact ⟨hwin, Bool.eq_false_iff.mpr fun hb => hmem (hbit.mp hb)⟩
  · rintro ⟨hwin, hclear⟩
    have hbit := h.bit_iff (top - n) hwin (by omega)
    rw [hback, hclear] at hbit
    refine ⟨fun hmem => by simpa using hbit.mpr hmem, ?_⟩
    rw [← h.top_eq]
    omega

/-- Moving the window up to a new largest number and marking it there. -/
theorem Tracks.advance (h : Tracks size accepted top bit) (hn : top < n)
    (hbit : ∀ i, i < size →
      bit' i = (decide (i = 0) || (decide (n - top ≤ i) && bit (i - (n - top))))) :
    Tracks size (insert n accepted) n bit' := by
  constructor
  · rw [Finset.sup_insert, ← h.top_eq]
    exact (max_eq_left (show top ≤ n by omega)).symm
  · intro i hi hin
    rw [hbit i hi, Finset.mem_insert]
    by_cases h0 : i = 0
    · simp [h0]
    · have hne : n - i ≠ n := by omega
      by_cases hshift : n - top ≤ i
      · have hold := h.bit_iff (i - (n - top)) (by omega) (by omega)
        have hpos : top - (i - (n - top)) = n - i := by omega
        rw [hpos] at hold
        simp [h0, hne, hshift, hold]
      · have hnot : n - i ∉ accepted := fun hmem => by
          have := h.le_top hmem
          omega
        simp [h0, hne, hshift, hnot]

/-- Marking a fresh number inside the window. -/
theorem Tracks.mark (h : Tracks size accepted top bit) (hn : n ≤ top)
    (hbit : ∀ i, i < size → bit' i = (decide (i = top - n) || bit i)) :
    Tracks size (insert n accepted) top bit' := by
  constructor
  · rw [Finset.sup_insert, ← h.top_eq]
    exact (max_eq_right hn).symm
  · intro i hi hit
    have hold := h.bit_iff i hi hit
    rw [hbit i hi, Finset.mem_insert]
    have hpos : top - i = n ↔ i = top - n := by omega
    simp [hold, hpos]

end CekyP2P
