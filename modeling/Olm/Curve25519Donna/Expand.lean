import Olm.Curve25519Donna.Field

/-!
# Bytes to limbs

`fexpand` cuts the bits of 32 bytes, the lowest first, into the limbs of a
field element, and leaves out the highest one.
-/

namespace Olm

namespace Donna

open Signed

/-! ## Bytes, the lowest first -/

/-- The number that the bytes are for. -/
def ofLittleEndian : Bytes → ℕ
  | [] => 0
  | byte :: bytes => byte.toNat + 256 * ofLittleEndian bytes

/-- The lowest bytes of a number. -/
def littleEndian : (length : ℕ) → ℕ → Bytes
  | 0, _ => []
  | length + 1, n => UInt8.ofNat n :: littleEndian length (n / 256)

@[simp] theorem length_littleEndian (length n : ℕ) : (littleEndian length n).length = length := by
  induction length generalizing n with
  | zero => rfl
  | succ length ih => rw [littleEndian, List.length_cons, ih]

theorem ofLittleEndian_littleEndian (length n : ℕ) :
    ofLittleEndian (littleEndian length n) = n % 256 ^ length := by
  induction length generalizing n with
  | zero => rw [littleEndian, ofLittleEndian, pow_zero, Nat.mod_one]
  | succ length ih =>
    have hpow : 256 ^ (length + 1) = 256 * 256 ^ length := pow_succ' 256 length
    rw [littleEndian, ofLittleEndian, ih, UInt8.toNat_ofNat', hpow, Nat.mod_mul]

theorem getElem_littleEndian (length n : ℕ) {i : ℕ} (h : i < (littleEndian length n).length) :
    (littleEndian length n)[i] = UInt8.ofNat (n / 256 ^ i) := by
  induction length generalizing n i with
  | zero => simp [littleEndian] at h
  | succ length ih =>
    cases i with
    | zero => simp [littleEndian]
    | succ i =>
      simp only [littleEndian, List.getElem_cons_succ]
      rw [ih, Nat.div_div_eq_div_mul, pow_succ']

/-- A byte, from the number. -/
theorem toNat_getD (bytes : Bytes) (i : ℕ) :
    (bytes.getD i 0).toNat = ofLittleEndian bytes / 256 ^ i % 256 := by
  induction bytes generalizing i with
  | nil => simp [ofLittleEndian]
  | cons byte bytes ih =>
    have hlt := byte.toNat_lt
    cases i with
    | zero =>
      rw [List.getD_cons_zero, ofLittleEndian, pow_zero, Nat.div_one]
      omega
    | succ i =>
      rw [List.getD_cons_succ, ih, ofLittleEndian, pow_succ', ← Nat.div_div_eq_div_mul]
      congr 2
      omega

/-! ## Limbs -/

/-- Bits of a number. -/
def bitsOf (n start length : ℕ) : ℕ := n / 2 ^ start % 2 ^ length

theorem mod_two_pow_bits {n total start length : ℕ} (h : start + length ≤ total) :
    bitsOf (n % 2 ^ total) start length = bitsOf n start length := by
  apply Nat.eq_of_testBit_eq
  intro i
  simp only [bitsOf, Nat.testBit_mod_two_pow, Nat.testBit_div_two_pow]
  by_cases hi : i < length
  · simp only [hi, show i + start < total by omega, decide_true, Bool.true_and]
  · simp only [hi, decide_false, Bool.false_and]

/-- Four bytes in a row. -/
theorem word_eq (n : ℕ) :
    n % 2 ^ 32 = n % 256 + n / 256 % 256 * 2 ^ 8 + n / 256 ^ 2 % 256 * 2 ^ 16 +
      n / 256 ^ 3 % 256 * 2 ^ 24 := by omega

/-- Bytes that are put in their places are added. -/
theorem or_eq_add (a b c d : UInt8) :
    (a.toBitVec.setWidth 64 ||| b.toBitVec.setWidth 64 <<< 8 ||| c.toBitVec.setWidth 64 <<< 16 |||
      d.toBitVec.setWidth 64 <<< 24).toNat =
      a.toNat + b.toNat * 2 ^ 8 + c.toNat * 2 ^ 16 + d.toNat * 2 ^ 24 := by
  have ha := a.toNat_lt
  have hb := b.toNat_lt
  have hc := c.toNat_lt
  have hd := d.toNat_lt
  have hor : ∀ {k x y : ℕ}, x < 2 ^ k → x ||| y * 2 ^ k = x + y * 2 ^ k := by
    intro k x y hx
    rw [Nat.or_comm, mul_comm, ← Nat.two_pow_add_eq_or_of_lt hx, add_comm]
  simp only [BitVec.toNat_or, BitVec.toNat_setWidth, BitVec.toNat_shiftLeft, Nat.shiftLeft_eq,
    UInt8.toNat_toBitVec]
  simp (disch := omega) only [Nat.mod_eq_of_lt]
  rw [hor (show a.toNat < 2 ^ 8 by omega), hor (show a.toNat + b.toNat * 2 ^ 8 < 2 ^ 16 by omega),
    hor (show a.toNat + b.toNat * 2 ^ 8 + c.toNat * 2 ^ 16 < 2 ^ 24 by omega)]

/-- The four bytes that a limb is in. -/
theorem word_bytes (input : Bytes) (start : ℕ) :
    (input.getD start 0).toNat + (input.getD (start + 1) 0).toNat * 2 ^ 8 +
      (input.getD (start + 2) 0).toNat * 2 ^ 16 + (input.getD (start + 3) 0).toNat * 2 ^ 24 =
      ofLittleEndian input / 2 ^ (8 * start) % 2 ^ 32 := by
  have hbyte : ∀ i, ofLittleEndian input / 256 ^ (start + i) =
      ofLittleEndian input / 2 ^ (8 * start) / 256 ^ i := by
    intro i
    rw [pow_add, ← Nat.div_div_eq_div_mul, pow_mul]
    rfl
  have hfirst := hbyte 0
  rw [Nat.add_zero, pow_zero, Nat.div_one] at hfirst
  rw [toNat_getD, toNat_getD, toNat_getD, toNat_getD, hbyte 1, hbyte 2, hbyte 3, hfirst, pow_one]
  exact (word_eq _).symm

/-- **The macro `F` of `fexpand`** takes bits from four bytes. -/
theorem expandLimb_holds (input : FixedBytes 32) {start shift bits : ℕ}
    (hbits : shift + bits ≤ 32) :
    (expandLimb input start shift (some (BitVec.ofNat 64 (2 ^ bits - 1)))).Holds
      (bitsOf (ofLittleEndian input.val) (8 * start + shift) bits) := by
  have hword := or_eq_add (input.val.getD start 0) (input.val.getD (start + 1) 0)
    (input.val.getD (start + 2) 0) (input.val.getD (start + 3) 0)
  rw [word_bytes] at hword
  refine ⟨_, rfl, ?_⟩
  have hsmall : ofLittleEndian input.val / 2 ^ (8 * start) % 2 ^ 32 < 2 ^ 32 :=
    Nat.mod_lt _ (by omega)
  have hpow : 2 ^ bits ≤ 2 ^ 32 := Nat.pow_le_pow_right (by omega) (by omega)
  have hmask : (BitVec.ofNat 64 (2 ^ bits - 1)).toNat = 2 ^ bits - 1 := by
    rw [BitVec.toNat_ofNat, Nat.mod_eq_of_lt (by omega)]
  have hpart : bitsOf (ofLittleEndian input.val) (8 * start + shift) bits =
      bitsOf (ofLittleEndian input.val / 2 ^ (8 * start) % 2 ^ 32) shift bits := by
    rw [mod_two_pow_bits hbits, bitsOf, bitsOf, pow_add, ← Nat.div_div_eq_div_mul]
  simp only [Nat.add_zero]
  generalize (input.val.getD start 0).toBitVec.setWidth 64 |||
    (input.val.getD (start + 1) 0).toBitVec.setWidth 64 <<< 8 |||
    (input.val.getD (start + 2) 0).toBitVec.setWidth 64 <<< 16 |||
    (input.val.getD (start + 3) 0).toBitVec.setWidth 64 <<< 24 = word at hword ⊢
  have hmsb : word.msb = false := BitVec.msb_eq_false_iff_two_mul_lt.mpr (by omega)
  have hbits' : (word.sshiftRight shift &&& BitVec.ofNat 64 (2 ^ bits - 1)).toNat =
      bitsOf (ofLittleEndian input.val) (8 * start + shift) bits := by
    rw [BitVec.sshiftRight_eq_of_msb_false hmsb, BitVec.toNat_and, BitVec.toNat_ushiftRight, hword,
      hmask, Nat.shiftRight_eq_div_pow, Nat.and_two_pow_sub_one_eq_mod, hpart, bitsOf]
  have hlt : bitsOf (ofLittleEndian input.val) (8 * start + shift) bits < 2 ^ bits :=
    Nat.mod_lt _ (Nat.two_pow_pos bits)
  exact (BitVec.toInt_eq_toNat_of_lt (by omega)).trans (by rw [hbits'])

/-- The limbs of the lowest bits of a number. -/
def limbsOf {n : ℕ} (m : ℕ) : Fin n → ℤ := fun i => (bitsOf m (exponent i) (limbBits i) : ℕ)

theorem value_limbsOf (n m : ℕ) :
    value (limbsOf m : Fin n → ℤ) = ((m % 2 ^ exponent n : ℕ) : ℤ) := by
  induction n with
  | zero => simp [value, exponent, Nat.mod_one]
  | succ n ih =>
    have hinit : (fun i : Fin n => (limbsOf m : Fin (n + 1) → ℤ) i.castSucc) = limbsOf m := rfl
    rw [value, Fin.sum_univ_castSucc, exponent_succ, pow_add, Nat.mod_mul]
    have ih' := ih
    rw [value, ← hinit] at ih'
    simp only [Fin.val_castSucc] at ih' ⊢
    rw [ih', limbsOf, bitsOf, Fin.val_last]
    push_cast
    ring

/-- Limbs that have only their own bits are those of their number. -/
theorem exists_eq_limbsOf {n : ℕ} (x : Fin n → ℤ) (hx : ∀ j, 0 ≤ x j ∧ x j < 2 ^ limbBits j) :
    ∃ m < 2 ^ exponent n, x = limbsOf m ∧ value x = (m : ℤ) := by
  induction n with
  | zero => exact ⟨0, by decide, funext fun j => j.elim0, by simp [value]⟩
  | succ n ih =>
    obtain ⟨m, hlt, hinit, hvalue⟩ := ih (fun j => x j.castSucc) fun j => hx j.castSucc
    obtain ⟨y, hy⟩ := Int.eq_ofNat_of_zero_le (hx (Fin.last n)).1
    have hylt : y < 2 ^ limbBits n := by
      have := (hx (Fin.last n)).2
      rw [hy, Fin.val_last] at this
      exact_mod_cast this
    have hmod : (m + 2 ^ exponent n * y) % 2 ^ exponent n = m := by
      rw [Nat.add_mul_mod_self_left, Nat.mod_eq_of_lt hlt]
    have hdiv : (m + 2 ^ exponent n * y) / 2 ^ exponent n = y := by
      rw [Nat.add_mul_div_left _ _ (Nat.two_pow_pos _), Nat.div_eq_of_lt hlt, zero_add]
    refine ⟨m + 2 ^ exponent n * y, ?_, funext fun j => ?_, ?_⟩
    · rw [exponent_succ, pow_add]
      calc m + 2 ^ exponent n * y < 2 ^ exponent n * (y + 1) := by rw [mul_add]; omega
        _ ≤ 2 ^ exponent n * 2 ^ limbBits n := Nat.mul_le_mul_left _ hylt
    · refine Fin.lastCases ?_ (fun i => ?_) j
      · rw [hy, limbsOf, Fin.val_last, bitsOf, hdiv, Nat.mod_eq_of_lt hylt]
      · have hi := congrFun hinit i
        have hle : exponent i + limbBits i ≤ exponent n := by
          rw [← exponent_succ]
          exact Nat.div_le_div_right (by have := i.isLt; omega)
        rw [limbsOf, Fin.val_castSucc, ← mod_two_pow_bits hle, hmod]
        exact hi
    · have hsum := hvalue
      rw [value] at hsum ⊢
      rw [Fin.sum_univ_castSucc, hy, Fin.val_last]
      simp only [Fin.val_castSucc] at hsum ⊢
      rw [hsum]
      push_cast
      ring

theorem abs_limbsOf_le {n : ℕ} (m : ℕ) (i : Fin n) :
    |(limbsOf m : Fin n → ℤ) i| ≤ 2 ^ limbBits i - 1 := by
  have hlt : bitsOf m (exponent i) (limbBits i) < 2 ^ limbBits i :=
    Nat.mod_lt _ (Nat.two_pow_pos _)
  have hlt' : ((bitsOf m (exponent i) (limbBits i) : ℕ) : ℤ) < 2 ^ limbBits i := by
    exact_mod_cast hlt
  rw [limbsOf, Nat.abs_cast]
  omega

theorem two_pow_limbBits_le (i : ℕ) : (2 : ℤ) ^ limbBits i - 1 ≤ 2 ^ 26 - 1 := by
  rcases limbBits_cases i with h | h
  · rw [h]
  · rw [h]
    norm_num

/-- **`fexpand`**: the limbs of all bits but the highest. -/
theorem fexpand_represents (input : FixedBytes 32) :
    Represents (fexpand input) (2 ^ 26 - 1)
      ((ofLittleEndian input.val % 2 ^ 255 : ℕ) : ZMod prime) := by
  refine ⟨limbsOf (ofLittleEndian input.val), fun i => ⟨?_, ?_⟩, ?_⟩
  · have h : ∀ start shift bits, shift + bits ≤ 32 →
        (expandLimb input start shift (some (BitVec.ofNat 64 (2 ^ bits - 1)))).Holds
          (bitsOf (ofLittleEndian input.val) (8 * start + shift) bits) :=
      fun _ _ _ => expandLimb_holds input
    fin_cases i
    · exact h 0 0 26 (by omega)
    · exact h 3 2 25 (by omega)
    · exact h 6 3 26 (by omega)
    · exact h 9 5 25 (by omega)
    · exact h 12 6 26 (by omega)
    · exact h 16 0 25 (by omega)
    · exact h 19 1 26 (by omega)
    · exact h 22 3 25 (by omega)
    · exact h 25 4 26 (by omega)
    · exact h 28 6 25 (by omega)
  · exact (abs_limbsOf_le _ i).trans (two_pow_limbBits_le i)
  · rw [value_limbsOf, Int.cast_natCast]
    rfl

end Donna

end Olm
