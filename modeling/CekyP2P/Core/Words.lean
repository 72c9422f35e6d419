import Mathlib.Data.List.FinRange
import Mathlib.Data.Fintype.Basic
import Mathlib.Data.Nat.Digits.Defs

/-!
# Bits of little-endian word arrays

A fixed array of 64-bit words is read as one long row of bits, word 0 least
significant. In-place loops that run from the highest index down are equal to a
simultaneous update as long as each step reads only its own index and lower
ones; the word-wise and bit-wise halves of a long left shift are instances. A row is also the
digits of a number, whose bits it has.
-/

namespace CekyP2P

variable {α : Type} {n : Nat}

/-! ## Descending in-place loops -/

/-- The loop `for i in (0..n).rev()` over an array that its body updates in place. -/
def forRev (b : Vector α n) (body : Vector α n → Fin n → Vector α n) : Vector α n :=
  (List.finRange n).reverse.foldl body b

/-- A step reads only its own index and lower ones. -/
def ReadsBelow (step : Vector α n → Fin n → α) : Prop :=
  ∀ b b' i, (∀ j : Fin n, j ≤ i → b[j] = b'[j]) → step b i = step b' i

/-- A loop from the top down that reads only below what it has written sees the old words. -/
private theorem foldl_descending {step : Vector α n → Fin n → α} (hlocal : ReadsBelow step)
    (l : List (Fin n)) (hl : l.Pairwise (· > ·)) (b : Vector α n) (i : Fin n) :
    (l.foldl (fun b i => b.set i (step b i)) b)[i] = if i ∈ l then step b i else b[i] := by
  induction l generalizing b with
  | nil => simp
  | cons x xs ih =>
    obtain ⟨hx, hxs⟩ := List.pairwise_cons.mp hl
    rw [List.foldl_cons, ih hxs]
    by_cases hi : i ∈ xs
    · have hlt := hx i hi
      rw [if_pos hi, if_pos (List.mem_cons_of_mem x hi)]
      apply hlocal
      intro j hj
      have hne : x.val ≠ j.val := by omega
      simp [Vector.getElem_set_ne, hne]
    · by_cases he : i = x
      · subst he
        simp [hi]
      · have hne : x.val ≠ i.val := fun h => he (Fin.ext h.symm)
        simp [hi, he, hne]

/-- A descending in-place loop whose steps read downwards writes every entry from
the original array. -/
theorem getElem_forRev {step : Vector α n → Fin n → α} (hlocal : ReadsBelow step)
    (b : Vector α n) (i : Fin n) :
    (forRev b fun b i => b.set i (step b i))[i] = step b i := by
  have hsorted : ((List.finRange n).reverse).Pairwise (· > ·) := by
    rw [List.pairwise_reverse]
    exact List.pairwise_lt_finRange n
  rw [forRev, foldl_descending hlocal _ hsorted, if_pos (by simp)]

/-! ## Bits of one word -/

/-- Bit `j` of a 64-bit word. -/
def wordBit (w : UInt64) (j : Nat) : Bool := w.toBitVec.getLsbD j

/-- No bit of zero is set. -/
@[simp] theorem wordBit_zero (j : Nat) : wordBit 0 j = false := by simp [wordBit]

/-- A bit is set in either word. -/
@[simp] theorem wordBit_or (v w : UInt64) (j : Nat) :
    wordBit (v ||| w) j = (wordBit v j || wordBit w j) := by simp [wordBit]

/-- There are no bits behind the last one. -/
theorem wordBit_of_le {w : UInt64} {j : Nat} (hj : 64 ≤ j) : wordBit w j = false := by
  exact BitVec.getLsbD_of_ge w.toBitVec j hj

/-- Shifting to the left moves bits up. -/
theorem wordBit_shiftLeft (w : UInt64) {s j : Nat} (hs : s < 64) (hj : j < 64) :
    wordBit (w <<< UInt64.ofNat s) j = (decide (s ≤ j) && wordBit w (j - s)) := by
  have hmod : s % 18446744073709551616 % 64 = s := by omega
  simp only [wordBit, UInt64.toBitVec_shiftLeft, BitVec.shiftLeft_eq', BitVec.getLsbD_shiftLeft]
  simp [hmod, hj]
  by_cases h : s ≤ j
  · simp [h]
  · simp [h, show j < s by omega]

/-- Shifting to the right moves bits down. -/
theorem wordBit_shiftRight (w : UInt64) {s j : Nat} (hs : s < 64) :
    wordBit (w >>> UInt64.ofNat s) j = wordBit w (s + j) := by
  have hmod : s % 18446744073709551616 % 64 = s := by omega
  simp only [wordBit, UInt64.toBitVec_shiftRight]
  simp [hmod]

/-- The mask `1 << s` has exactly the bit `s`. -/
theorem wordBit_one_shiftLeft {s j : Nat} (hs : s < 64) (hj : j < 64) :
    wordBit (1 <<< UInt64.ofNat s) j = decide (j = s) := by
  rw [wordBit_shiftLeft 1 hs hj]
  by_cases he : j = s
  · subst he
    simp [wordBit]
  · by_cases hle : s ≤ j
    · have hpos : j - s ≠ 0 := by omega
      simp [wordBit, hle, he, hpos]
    · simp [hle, he]

/-- Testing a word against the mask `1 << s` reads its bit `s`. -/
theorem and_mask_ne_zero (w : UInt64) {s : Nat} (hs : s < 64) :
    ((w &&& (1 <<< UInt64.ofNat s)) != 0) = wordBit w s := by
  have hbit : ∀ j, j < 64 → wordBit (w &&& (1 <<< UInt64.ofNat s)) j =
      (wordBit w j && decide (j = s)) := by
    intro j hj
    rw [← wordBit_one_shiftLeft hs hj]
    simp [wordBit]
  by_cases hw : wordBit w s = true
  · rw [hw, bne_iff_ne]
    intro hz
    have h := hbit s hs
    rw [hz, hw] at h
    simp at h
  · rw [Bool.not_eq_true] at hw
    rw [hw, bne_eq_false_iff_eq, ← UInt64.toBitVec_inj]
    apply BitVec.eq_of_getLsbD_eq
    intro j hj
    change wordBit _ j = wordBit 0 j
    rw [hbit j hj, wordBit_zero]
    by_cases he : j = s
    · subst he
      simp [hw]
    · simp [he]

/-! ## Bits of a word array -/

/-- Bit `j` of a word array, word 0 least significant; bits past the end are clear. -/
def wordsBit (b : Vector UInt64 n) (j : Nat) : Bool := wordBit (b[j / 64]?.getD 0) (j % 64)

/-- A bit of an array of words is a bit of one word. -/
theorem wordsBit_eq (b : Vector UInt64 n) {j : Nat} (hj : j / 64 < n) :
    wordsBit b j = wordBit b[j / 64] (j % 64) := by
  simp [wordsBit, hj]

@[simp] theorem wordsBit_replicate_zero (j : Nat) :
    wordsBit (Vector.replicate n 0) j = false := by
  by_cases hj : j / 64 < n
  · simp [wordsBit_eq _ hj]
  · simp [wordsBit, hj]

/-- Replacing one word changes exactly its own 64 bits. -/
theorem wordsBit_set (b : Vector UInt64 n) (i : Fin n) (w : UInt64) (j : Nat) :
    wordsBit (b.set i w) j = if j / 64 = i.val then wordBit w (j % 64) else wordsBit b j := by
  by_cases hj : j / 64 < n
  · rw [wordsBit_eq _ hj, wordsBit_eq _ hj, Vector.getElem_set]
    by_cases he : i.val = j / 64
    · simp [he]
    · simp [he, Ne.symm he]
  · have hne : j / 64 ≠ i.val := by omega
    simp [wordsBit, hj, hne]

/-- OR-ing the mask of position `k` into its word marks that position only. -/
theorem wordsBit_mark (b : Vector UInt64 n) {k : Nat} (hk : k / 64 < n) (j : Nat) :
    wordsBit (b.set (k / 64) (b[k / 64] ||| 1 <<< UInt64.ofNat (k % 64))) j =
      (decide (j = k) || wordsBit b j) := by
  have hmod : k % 64 < 64 := Nat.mod_lt _ (by decide)
  have hset := wordsBit_set b ⟨k / 64, hk⟩ (b[k / 64] ||| 1 <<< UInt64.ofNat (k % 64)) j
  simp only at hset
  rw [hset]
  by_cases hword : j / 64 = k / 64
  · have hj : j / 64 < n := by omega
    rw [if_pos hword, wordBit_or, wordBit_one_shiftLeft hmod (Nat.mod_lt _ (by decide)),
      wordsBit_eq b hj, Bool.or_comm]
    simp only [hword]
    congr 1
    rw [decide_eq_decide]
    omega
  · have hne : j ≠ k := fun h => hword (by rw [h])
    simp [hword, hne]

/-- OR-ing 1 into word 0 marks the lowest position. -/
theorem wordsBit_mark_zero (b : Vector UInt64 n) (hn : 0 < n) (j : Nat) :
    wordsBit (b.set 0 (b[0] ||| 1)) j = (decide (j = 0) || wordsBit b j) := by
  have hone : (1 : UInt64) <<< UInt64.ofNat (0 % 64) = 1 := by decide
  have hmark := wordsBit_mark b (k := 0) (by simpa using hn) j
  rw [hone] at hmark
  simpa using hmark

/-- Move whole words up by `k` places in place, clearing the lowest ones. -/
def shiftWords (b : Vector UInt64 n) (k : Nat) : Vector UInt64 n :=
  forRev b fun b i => if k ≤ i.val then b.set i (b[i.val - k]) else b.set i 0

/-- Shift every word up by `s` bits in place and bring in the carry of the word below. -/
def shiftBits (b : Vector UInt64 n) (s : Nat) : Vector UInt64 n :=
  forRev b fun b i =>
    let b := b.set i (b[i] <<< UInt64.ofNat s)
    if 0 < i.val then b.set i (b[i] ||| b[i.val - 1] >>> UInt64.ofNat (64 - s)) else b

/-- Moving whole words up by `k` places shifts the bits by `64 * k`. -/
theorem wordsBit_shiftWords (b : Vector UInt64 n) (k : Nat) {j : Nat} (hj : j < 64 * n) :
    wordsBit (shiftWords b k) j = (decide (64 * k ≤ j) && wordsBit b (j - 64 * k)) := by
  have hn : j / 64 < n := by omega
  let step : Vector UInt64 n → Fin n → UInt64 := fun b i => if k ≤ i.val then b[i.val - k] else 0
  have hstep : ReadsBelow step := by
    intro b b' i h
    by_cases hk : k ≤ i.val
    · have hread := h ⟨i.val - k, by omega⟩ (by simp [Fin.le_def])
      simpa [step, hk] using hread
    · simp [step, hk]
  have hbody : (fun (b : Vector UInt64 n) (i : Fin n) =>
      if k ≤ i.val then b.set i (b[i.val - k]) else b.set i 0) =
      fun b i => b.set i (step b i) := by
    funext b i
    by_cases hk : k ≤ i.val <;> simp [step, hk]
  rw [shiftWords, hbody, wordsBit_eq _ hn]
  have hget := getElem_forRev hstep b ⟨j / 64, hn⟩
  simp only [Fin.getElem_fin] at hget
  rw [hget]
  by_cases hk : 64 * k ≤ j
  · have hk' : k ≤ j / 64 := by omega
    have hdiv : (j - 64 * k) / 64 = j / 64 - k := by omega
    have hrem : (j - 64 * k) % 64 = j % 64 := by omega
    have hb : (j - 64 * k) / 64 < n := by omega
    simp [step, hk, hk', wordsBit_eq b hb, hdiv, hrem]
  · have hk' : ¬ k ≤ j / 64 := by omega
    simp [step, hk, hk']

/-- The carried word shifts move the whole row of bits by `s`. -/
theorem wordsBit_shiftBits (b : Vector UInt64 n) {s : Nat} (hpos : 0 < s) (hs : s < 64)
    {j : Nat} (hj : j < 64 * n) :
    wordsBit (shiftBits b s) j = (decide (s ≤ j) && wordsBit b (j - s)) := by
  have hn : j / 64 < n := by omega
  let step : Vector UInt64 n → Fin n → UInt64 := fun b i =>
    if 0 < i.val then b[i] <<< UInt64.ofNat s ||| b[i.val - 1] >>> UInt64.ofNat (64 - s)
    else b[i] <<< UInt64.ofNat s
  have hstep : ReadsBelow step := by
    intro b b' i h
    have hself := h i le_rfl
    have hbelow := h ⟨i.val - 1, by omega⟩ (by simp [Fin.le_def])
    simp only [Fin.getElem_fin] at hself hbelow
    simp [step, hself, hbelow]
  have hbody : (fun (b : Vector UInt64 n) (i : Fin n) =>
      let b := b.set i (b[i] <<< UInt64.ofNat s)
      if 0 < i.val then b.set i (b[i] ||| b[i.val - 1] >>> UInt64.ofNat (64 - s)) else b) =
      fun b i => b.set i (step b i) := by
    funext b i
    by_cases hi : 0 < i.val
    · have hne : i.val ≠ i.val - 1 := by omega
      simp [step, hi, hne]
    · simp [step, hi]
  rw [shiftBits, hbody, wordsBit_eq _ hn]
  have hget := getElem_forRev hstep b ⟨j / 64, hn⟩
  simp only [Fin.getElem_fin] at hget
  rw [hget]
  have hrem : j % 64 < 64 := Nat.mod_lt _ (by decide)
  by_cases hlow : s ≤ j % 64
  · have hle : s ≤ j := by omega
    have hb : (j - s) / 64 < n := by omega
    have hdiv : (j - s) / 64 = j / 64 := by omega
    have hmod : (j - s) % 64 = j % 64 - s := by omega
    have hcarry : wordBit b[j / 64 - 1] (64 - s + j % 64) = false := wordBit_of_le (by omega)
    by_cases hi : 0 < j / 64
    · simp [step, hi, hle, wordBit_shiftLeft _ hs hrem, hlow, wordsBit_eq b hb, hdiv, hmod,
        wordBit_shiftRight _ (show 64 - s < 64 by omega), hcarry]
    · simp [step, hi, hle, wordBit_shiftLeft _ hs hrem, hlow, wordsBit_eq b hb, hdiv, hmod]
  · by_cases hi : 0 < j / 64
    · have hle : s ≤ j := by omega
      have hb : (j - s) / 64 < n := by omega
      have hdiv : (j - s) / 64 = j / 64 - 1 := by omega
      have hmod : (j - s) % 64 = 64 - s + j % 64 := by omega
      simp [step, hi, hle, wordBit_shiftLeft _ hs hrem, hlow, wordsBit_eq b hb, hdiv, hmod,
        wordBit_shiftRight _ (show 64 - s < 64 by omega)]
    · have hle : ¬ s ≤ j := by omega
      simp [step, hi, hle, wordBit_shiftLeft _ hs hrem, hlow]

/-! ## The number of a row -/

/-- The number whose digits are the words, word 0 least significant. -/
def wordsValue (b : Vector UInt64 n) : Nat := Nat.ofDigits (2 ^ 64) (b.toList.map UInt64.toNat)

/-- The bits of the number that the words are the digits of. -/
theorem testBit_ofDigits_words (words : List UInt64) (j : Nat) :
    (Nat.ofDigits (2 ^ 64) (words.map UInt64.toNat)).testBit j =
      wordBit (words[j / 64]?.getD 0) (j % 64) := by
  induction words generalizing j with
  | nil => simp
  | cons w words ih =>
    have hw : w.toNat < 2 ^ 64 := w.toNat_lt
    rw [List.map_cons, Nat.ofDigits_cons, Nat.add_comm, Nat.testBit_two_pow_mul_add _ hw]
    by_cases hj : j < 64
    · rw [if_pos hj, Nat.div_eq_of_lt hj, Nat.mod_eq_of_lt hj]
      rfl
    · have hdiv : j / 64 = (j - 64) / 64 + 1 := by omega
      have hmod : j % 64 = (j - 64) % 64 := by omega
      rw [if_neg hj, ih, hdiv, hmod, List.getElem?_cons_succ]

/-- The number has the bits of the row. -/
theorem testBit_wordsValue (b : Vector UInt64 n) (j : Nat) :
    (wordsValue b).testBit j = wordsBit b j := by
  rw [wordsValue, testBit_ofDigits_words, wordsBit, Vector.getElem?_toList]

/-- There are no bits behind the last word. -/
theorem wordsBit_of_le (b : Vector UInt64 n) {j : Nat} (hj : 64 * n ≤ j) :
    wordsBit b j = false := by
  have hnone : b[j / 64]? = none := Vector.getElem?_eq_none (by omega)
  rw [wordsBit, hnone, Option.getD_none, wordBit_zero]

/-- A row whose bits are those of another, moved up by `s`, has its number times `2 ^ s`, as far
as it fits. -/
theorem wordsValue_of_shifted {b b' : Vector UInt64 n} {s : Nat}
    (h : ∀ j, j < 64 * n → wordsBit b' j = (decide (s ≤ j) && wordsBit b (j - s))) :
    wordsValue b' = wordsValue b * 2 ^ s % 2 ^ (64 * n) := by
  apply Nat.eq_of_testBit_eq
  intro j
  rw [testBit_wordsValue, Nat.testBit_mod_two_pow, Nat.testBit_mul_two_pow, testBit_wordsValue]
  by_cases hj : j < 64 * n
  · rw [h j hj, decide_eq_true hj, Bool.true_and]
  · rw [wordsBit_of_le b' (Nat.not_lt.mp hj), decide_eq_false hj, Bool.false_and]

/-! ## Shifts that must not overflow -/

/-- `w << s`, or a panic if `s` is 64 or more. -/
def checkedShl (w : UInt64) (s : Nat) : Option UInt64 :=
  if s < 64 then some (w <<< UInt64.ofNat s) else none

/-- `w >> s`, or a panic if `s` is 64 or more. -/
def checkedShr (w : UInt64) (s : Nat) : Option UInt64 :=
  if s < 64 then some (w >>> UInt64.ofNat s) else none

/-- The loop `for i in (0..n).rev()` with a body that may panic. -/
def forRevM (b : Vector α n) (body : Vector α n → Fin n → Option (Vector α n)) :
    Option (Vector α n) :=
  (List.finRange n).reverse.foldlM body b

/-- A loop whose steps all succeed is the loop without failures. -/
theorem forRevM_eq_some {bodyM : Vector α n → Fin n → Option (Vector α n)}
    {body : Vector α n → Fin n → Vector α n} (h : ∀ b i, bodyM b i = some (body b i))
    (b : Vector α n) : forRevM b bodyM = some (forRev b body) := by
  have hbody : bodyM = fun b i => pure (body b i) := funext fun b => funext fun i => h b i
  rw [forRevM, hbody, List.foldlM_pure]
  rfl

/-- The loop of `shiftBits` with every shift of a word checked. -/
def checkedShiftBits (b : Vector UInt64 n) (s : Nat) : Option (Vector UInt64 n) :=
  forRevM b fun b i => do
    let shifted ← checkedShl b[i] s
    let b := b.set i shifted
    if 0 < i.val then do
      let carry ← checkedShr b[i.val - 1] (64 - s)
      some (b.set i (b[i] ||| carry))
    else some b

/-- A shift within the word does not overflow. -/
theorem checkedShiftBits_eq_some (b : Vector UInt64 n) {s : Nat} (hpos : 0 < s) (hs : s < 64) :
    checkedShiftBits b s = some (shiftBits b s) := by
  refine forRevM_eq_some (fun b i => ?_) b
  have hcarry : 64 - s < 64 := by omega
  simp only [checkedShl, checkedShr, if_pos hs, if_pos hcarry]
  by_cases hi : 0 < i.val
  · simp [hi]
  · simp [hi]

end CekyP2P
