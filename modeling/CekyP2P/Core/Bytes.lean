import Mathlib.Data.Fintype.Basic
import Mathlib.Data.UInt
import Mathlib.Logic.Function.Basic
import Mathlib.Tactic.Ring

/-!
# Byte encodings of machine words

`to_le_bytes` for 64-bit words and its injectivity: byte `i` holds bits
`8 * i` to `8 * i + 7`. Big-endian encodings are stated for numbers of any width, with
the two functions inverse to each other.
-/

namespace CekyP2P

/-- Little-endian bytes of a 64-bit word. -/
def toLeBytes (w : UInt64) : Vector UInt8 8 :=
  Vector.ofFn fun i => (w >>> UInt64.ofNat (8 * i.val)).toUInt8

/-- Byte `i` of the encoding holds bits `8 * i` to `8 * i + 7` of the word. -/
theorem toLeBytes_bit (w : UInt64) {i j : Nat} (hi : i < 8) (hj : j < 8) :
    (toLeBytes w)[i].toBitVec.getLsbD j = w.toBitVec.getLsbD (8 * i + j) := by
  have hmod : 8 * i % 18446744073709551616 % 64 = 8 * i := by omega
  simp [toLeBytes, UInt64.toBitVec_shiftRight, hmod, hj]

/-- Different words have different encodings. -/
theorem toLeBytes_injective : Function.Injective toLeBytes := by
  intro v w h
  apply UInt64.toBitVec_inj.mp
  apply BitVec.eq_of_getLsbD_eq
  intro k hk
  have hsplit : 8 * (k / 8) + k % 8 = k := by omega
  have hi : k / 8 < 8 := by omega
  have hj : k % 8 < 8 := by omega
  rw [← hsplit, ← toLeBytes_bit v hi hj, ← toLeBytes_bit w hi hj, h]

/-! ## Big-endian numbers -/

/-- The `n` low bytes of a number, most significant first. -/
def toBeBytes : Nat → Nat → List UInt8
  | 0, _ => []
  | n + 1, v => UInt8.ofNat (v / 256 ^ n) :: toBeBytes n v

/-- The number written by some bytes, most significant first. -/
def ofBeBytes : List UInt8 → Nat
  | [] => 0
  | b :: bytes => b.toNat * 256 ^ bytes.length + ofBeBytes bytes

/-- An encoding has the length that it is given. -/
@[simp] theorem length_toBeBytes (n v : Nat) : (toBeBytes n v).length = n := by
  induction n with
  | zero => rfl
  | succ n ih => simp [toBeBytes, ih]

/-- A byte is its own encoding. -/
@[simp] theorem toBeBytes_one (b : UInt8) : toBeBytes 1 b.toNat = [b] := by
  simp [toBeBytes]

/-- The number in some bytes is bounded by their count. -/
theorem ofBeBytes_lt (bytes : List UInt8) : ofBeBytes bytes < 256 ^ bytes.length := by
  induction bytes with
  | nil => decide
  | cons b bytes ih =>
    have hb := b.toNat_lt
    rw [ofBeBytes, List.length_cons, pow_succ]
    calc b.toNat * 256 ^ bytes.length + ofBeBytes bytes
        < b.toNat * 256 ^ bytes.length + 256 ^ bytes.length := by omega
      _ = (b.toNat + 1) * 256 ^ bytes.length := by ring
      _ ≤ 256 * 256 ^ bytes.length := Nat.mul_le_mul_right _ (by omega)
      _ = 256 ^ bytes.length * 256 := by ring

/-- Higher digits do not reach the low bytes. -/
theorem toBeBytes_add_mul (n a v : Nat) : toBeBytes n (a * 256 ^ n + v) = toBeBytes n v := by
  induction n generalizing a with
  | zero => rfl
  | succ n ih =>
    have hsplit : a * 256 ^ (n + 1) + v = a * 256 * 256 ^ n + v := by ring
    have hpos : 0 < 256 ^ n := Nat.pow_pos (by decide)
    rw [toBeBytes, toBeBytes, hsplit, ih]
    congr 1
    apply UInt8.toNat_inj.mp
    rw [UInt8.toNat_ofNat', UInt8.toNat_ofNat', Nat.add_comm, Nat.add_mul_div_right _ _ hpos]
    omega

/-- Bytes are the encoding of the number in them. -/
theorem toBeBytes_ofBeBytes (bytes : List UInt8) :
    toBeBytes bytes.length (ofBeBytes bytes) = bytes := by
  induction bytes with
  | nil => rfl
  | cons b bytes ih =>
    have hlt := ofBeBytes_lt bytes
    have hpos : 0 < 256 ^ bytes.length := Nat.pow_pos (by decide)
    rw [ofBeBytes, List.length_cons, toBeBytes, toBeBytes_add_mul, ih, Nat.add_comm,
      Nat.add_mul_div_right _ _ hpos, Nat.div_eq_of_lt hlt, Nat.zero_add, UInt8.ofNat_toNat]

/-- An encoding keeps the number modulo its range. -/
theorem ofBeBytes_toBeBytes (n v : Nat) : ofBeBytes (toBeBytes n v) = v % 256 ^ n := by
  induction n with
  | zero => simp [toBeBytes, ofBeBytes, Nat.mod_one]
  | succ n ih =>
    have hpow : 256 ^ (n + 1) = 256 ^ n * 256 := pow_succ 256 n
    rw [toBeBytes, ofBeBytes, length_toBeBytes, ih, UInt8.toNat_ofNat', hpow, Nat.mod_mul,
      Nat.mul_comm, Nat.add_comm]

/-- Byte strings of one length are told apart by their numbers. -/
theorem ofBeBytes_inj {a b : List UInt8} (h : a.length = b.length) :
    ofBeBytes a = ofBeBytes b ↔ a = b := by
  constructor
  · intro heq
    rw [← toBeBytes_ofBeBytes a, ← toBeBytes_ofBeBytes b, heq, h]
  · rintro rfl
    rfl

/-- Numbers of one length are compared byte by byte. -/
theorem ofBeBytes_lt_ofBeBytes {a b : List UInt8} (h : a.length = b.length) :
    ofBeBytes a < ofBeBytes b ↔ a < b := by
  induction a generalizing b with
  | nil =>
    obtain rfl := List.eq_nil_of_length_eq_zero h.symm
    simp
  | cons x xs ih =>
    cases b with
    | nil => cases h
    | cons y ys =>
      have hlength : xs.length = ys.length := Nat.succ.inj h
      have hx := ofBeBytes_lt xs
      have hy := ofBeBytes_lt ys
      rw [ofBeBytes, ofBeBytes, List.cons_lt_cons_iff, ← ih hlength, hlength]
      rw [hlength] at hx
      rcases Nat.lt_trichotomy x.toNat y.toNat with hlt | heq | hgt
      · refine iff_of_true ?_ (.inl (UInt8.lt_iff_toNat_lt.mpr hlt))
        have hstep : (x.toNat + 1) * 256 ^ ys.length ≤ y.toNat * 256 ^ ys.length :=
          Nat.mul_le_mul_right _ hlt
        rw [Nat.succ_mul] at hstep
        omega
      · obtain rfl := UInt8.toNat_inj.mp heq
        simp
      · refine iff_of_false ?_ ?_
        · have hstep : (y.toNat + 1) * 256 ^ ys.length ≤ x.toNat * 256 ^ ys.length :=
            Nat.mul_le_mul_right _ hgt
          rw [Nat.succ_mul] at hstep
          omega
        · rintro (hlt | ⟨rfl, -⟩)
          · exact Nat.lt_asymm hgt (UInt8.lt_iff_toNat_lt.mp hlt)
          · exact Nat.lt_irrefl _ hgt

/-- The first byte that is not zero gives the size of the number. -/
theorem ofBeBytes_cons_bounds {b : UInt8} {j : Nat} (hlow : 2 ^ j ≤ b.toNat)
    (hhigh : b.toNat < 2 ^ (j + 1)) (bytes : List UInt8) :
    2 ^ (8 * bytes.length + j) ≤ ofBeBytes (b :: bytes) ∧
      ofBeBytes (b :: bytes) < 2 ^ (8 * bytes.length + j + 1) := by
  have hrest := ofBeBytes_lt bytes
  have hpow : (256 : Nat) ^ bytes.length = 2 ^ (8 * bytes.length) := (pow_mul 2 8 _).symm
  rw [ofBeBytes, hpow]
  rw [hpow] at hrest
  constructor
  · calc 2 ^ (8 * bytes.length + j) = 2 ^ j * 2 ^ (8 * bytes.length) := by
          rw [pow_add, Nat.mul_comm]
      _ ≤ b.toNat * 2 ^ (8 * bytes.length) := Nat.mul_le_mul_right _ hlow
      _ ≤ _ := Nat.le_add_right _ _
  · calc b.toNat * 2 ^ (8 * bytes.length) + ofBeBytes bytes
        < b.toNat * 2 ^ (8 * bytes.length) + 2 ^ (8 * bytes.length) := Nat.add_lt_add_left hrest _
      _ = (b.toNat + 1) * 2 ^ (8 * bytes.length) := (Nat.succ_mul _ _).symm
      _ ≤ 2 ^ (j + 1) * 2 ^ (8 * bytes.length) := Nat.mul_le_mul_right _ hhigh
      _ = 2 ^ (8 * bytes.length + j + 1) := by
          rw [← pow_add, Nat.add_comm (j + 1), Nat.add_assoc]

end CekyP2P
