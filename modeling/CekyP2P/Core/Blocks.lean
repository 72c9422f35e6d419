import Mathlib.Data.Finset.Insert
import Mathlib.Data.List.Basic

/-!
# Writing a list block by block

A list is cut into blocks of one size, the last of which may be shorter. A second
list of the same length that was overwritten with the blocks of the first, in any
order, agrees with it on every block written, and is equal to it once all are.
-/

namespace CekyP2P

variable {α : Type}

/-- `l` with `data` written over it from `start` on. -/
def overwrite (l : List α) (start : Nat) (data : List α) : List α :=
  l.take start ++ data ++ l.drop (start + data.length)

/-- The `i`-th block of size `size`. -/
def block (l : List α) (size i : Nat) : List α := (l.drop (i * size)).take size

/-- Overwriting in place keeps the length. -/
theorem length_overwrite {l data : List α} {start : Nat} (h : start + data.length ≤ l.length) :
    (overwrite l start data).length = l.length := by
  simp only [overwrite, List.length_append, List.length_take, List.length_drop]
  omega

/-- Up to the end of the data, an overwritten list is the old beginning and the data. -/
theorem take_overwrite {l data : List α} {start : Nat} (h : start ≤ l.length) :
    (overwrite l start data).take (start + data.length) = l.take start ++ data := by
  rw [overwrite, List.take_left' (by rw [List.length_append, List.length_take_of_le h])]

/-- An overwritten list has the data in its range and the old elements elsewhere. -/
theorem getElem?_overwrite {l data : List α} {start : Nat} (h : start + data.length ≤ l.length)
    (x : Nat) : (overwrite l start data)[x]? =
      if start ≤ x ∧ x < start + data.length then data[x - start]? else l[x]? := by
  have htake : (l.take start).length = start := by
    rw [List.length_take]
    omega
  rw [overwrite, List.append_assoc]
  by_cases hlow : x < start
  · rw [List.getElem?_append_left (by omega), List.getElem?_take_of_lt hlow, if_neg (by omega)]
  · rw [List.getElem?_append_right (by omega), htake]
    by_cases hmid : x < start + data.length
    · rw [List.getElem?_append_left (by omega), if_pos (by omega)]
    · rw [List.getElem?_append_right (by omega), List.getElem?_drop, if_neg (by omega)]
      congr 1
      omega

/-- A write leaves everything outside a set as it was exactly if what it puts there was there
already. -/
theorem overwrite_outside_iff (P : Nat → Prop) {l data : List α} {start : Nat}
    (h : start + data.length ≤ l.length) :
    (∀ x, ¬P x → (overwrite l start data)[x]? = l[x]?) ↔
      ∀ k < data.length, P (start + k) ∨ l[start + k]? = data[k]? := by
  constructor
  · intro hsame k hk
    by_cases hinside : P (start + k)
    · exact Or.inl hinside
    · have hbyte := hsame (start + k) hinside
      rw [getElem?_overwrite h, if_pos (by omega), Nat.add_sub_cancel_left] at hbyte
      exact Or.inr hbyte.symm
  · intro hthere x hx
    rw [getElem?_overwrite h]
    split
    case isTrue hwritten =>
      obtain ⟨k, rfl⟩ := Nat.exists_eq_add_of_le hwritten.1
      rw [Nat.add_sub_cancel_left]
      rcases hthere k (by omega) with hinside | hbyte
      · exact absurd hinside hx
      · exact hbyte.symm
    case isFalse => rfl

/-- The last block may be short, and blocks behind the end are empty. -/
theorem length_block (l : List α) (size i : Nat) :
    (block l size i).length = min size (l.length - i * size) := by
  simp [block]

/-- A block reads the list from its start on. -/
theorem getElem?_block {l : List α} {size i x : Nat} (h : x < size) :
    (block l size i)[x]? = l[i * size + x]? := by
  rw [block, List.getElem?_take_of_lt h, List.getElem?_drop]

/-- Cutting at an end that is itself cut to the length gives the block. -/
theorem drop_take_min (l : List α) (size i : Nat) :
    (l.take (min (i * size + size) l.length)).drop (i * size) = block l size i := by
  rw [block, List.drop_take]
  apply List.ext_getElem?
  intro x
  by_cases hx : x < size
  · by_cases hlen : i * size + x < l.length
    · rw [List.getElem?_take_of_lt (by omega), List.getElem?_take_of_lt hx]
    · rw [List.getElem?_eq_none (by simp; omega), List.getElem?_eq_none (by simp; omega)]
  · rw [List.getElem?_eq_none (by simp; omega), List.getElem?_eq_none (by simp; omega)]

/-- `map` has the length of `file` and agrees with it on the given blocks. -/
structure Holds (file : List α) (size : Nat) (blocks : Finset Nat) (map : List α) : Prop where
  length_eq : map.length = file.length
  agree : ∀ i ∈ blocks, ∀ x < size, map[i * size + x]? = file[i * size + x]?

namespace Holds

variable {file map : List α} {size : Nat} {blocks : Finset Nat}

/-- A map of the right length holds no block yet. -/
theorem empty (hlen : map.length = file.length) : Holds file size ∅ map :=
  ⟨hlen, by simp⟩

/-- Writing one more block of the file. -/
theorem overwrite (h : Holds file size blocks map) {i : Nat} (hi : i * size ≤ file.length) :
    Holds file size (insert i blocks) (overwrite map (i * size) (block file size i)) := by
  have hlen := length_block file size i
  have hfit : i * size + (block file size i).length ≤ map.length := by
    rw [h.length_eq]
    omega
  refine ⟨(length_overwrite hfit).trans h.length_eq, fun j hj x hx => ?_⟩
  rw [getElem?_overwrite hfit]
  split
  case isTrue hin =>
    rw [getElem?_block (by omega)]
    congr 1
    omega
  case isFalse hout =>
    rcases Finset.mem_insert.mp hj with rfl | hold
    · rw [List.getElem?_eq_none (by rw [h.length_eq]; omega), List.getElem?_eq_none (by omega)]
    · exact h.agree j hold x hx

/-- Once every block is there the file is. -/
theorem eq_of_forall_mem (h : Holds file size blocks map) (hsize : 0 < size)
    (hall : ∀ i, i * size < file.length → i ∈ blocks) : map = file := by
  apply List.ext_getElem?
  intro x
  by_cases hx : x < file.length
  · have hdiv := Nat.div_add_mod' x size
    have hmem := hall (x / size) (by omega)
    have := h.agree _ hmem (x % size) (Nat.mod_lt _ hsize)
    rwa [hdiv] at this
  · rw [List.getElem?_eq_none (by rw [h.length_eq]; omega), List.getElem?_eq_none (by omega)]

end Holds

end CekyP2P
