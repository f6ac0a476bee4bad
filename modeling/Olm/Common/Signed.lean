import Mathlib.Algebra.Order.Ring.Abs
import Mathlib.Algebra.Order.Ring.Int
import Mathlib.Tactic.Common
import Mathlib.Tactic.Ring

/-!
# Signed machine integers

A signed integer of `w` bits as C computes with it. An addition, subtraction,
multiplication or negation that overflows has no value, and nothing computed
from it has one. Shifts to the left drop what does not fit and shifts to the
right copy the sign, which is what a two's complement machine does.

`Holds` says which number an expression is, `Within` also bounds it: the
bound of an expression follows from those of its operands, and it is this
bound that has to fit.
-/

/-- A signed integer of `w` bits, or nothing after an overflow. -/
def Signed (w : ℕ) : Type := Option (BitVec w)

namespace Signed

variable {w : ℕ}

/-! ## The operators -/

instance : DecidableEq (Signed w) := inferInstanceAs (DecidableEq (Option (BitVec w)))

instance (n : ℕ) : OfNat (Signed w) n := ⟨some (BitVec.ofNat w n)⟩

/-- An operation that has no value where `overflow` says so. -/
def checked (overflow : BitVec w → BitVec w → Bool) (op : BitVec w → BitVec w → BitVec w)
    (a b : Signed w) : Signed w :=
  Option.bind a fun x => Option.bind b fun y => if overflow x y then none else some (op x y)

/-- An operation on each bit. -/
def bitwise (op : BitVec w → BitVec w → BitVec w) (a b : Signed w) : Signed w :=
  Option.bind a fun x => Option.map (op x) b

instance : Add (Signed w) := ⟨checked BitVec.saddOverflow (· + ·)⟩

instance : Sub (Signed w) := ⟨checked BitVec.ssubOverflow (· - ·)⟩

instance : Mul (Signed w) := ⟨checked BitVec.smulOverflow (· * ·)⟩

instance : Neg (Signed w) :=
  ⟨fun a => Option.bind a fun x => if x.negOverflow then none else some (-x)⟩

instance : AndOp (Signed w) := ⟨bitwise (· &&& ·)⟩

instance : OrOp (Signed w) := ⟨bitwise (· ||| ·)⟩

instance : XorOp (Signed w) := ⟨bitwise (· ^^^ ·)⟩

instance : Complement (Signed w) := ⟨Option.map (~~~ ·)⟩

/-- The bits that do not fit are dropped, of a negative number as well: what is
said of overflow is not said of this. -/
instance : HShiftLeft (Signed w) ℕ (Signed w) :=
  ⟨fun a n => Option.map (fun x : BitVec w => x <<< n) a⟩

instance : HShiftRight (Signed w) ℕ (Signed w) :=
  ⟨fun a n => Option.map (fun x : BitVec w => x.sshiftRight n) a⟩

/-- The conversion to another width. -/
def cast (v : ℕ) (a : Signed w) : Signed v := Option.map (BitVec.signExtend v) a

/-! ## Its number -/

/-- The expression has a value, and it is `x`. -/
def Holds (a : Signed w) (x : ℤ) : Prop := ∃ b : BitVec w, a = some b ∧ b.toInt = x

/-- The expression has a value, and it is `x`, which is within a bound. -/
structure Within (a : Signed w) (x bound : ℤ) : Prop where
  holds : a.Holds x
  bounded : |x| ≤ bound

variable {a b : Signed w} {x y : ℤ}

/-- What fits is not changed by dropping the bits above. -/
theorem bmod_of_fits [NeZero w] (hlo : -2 ^ (w - 1) ≤ x) (hhi : x < 2 ^ (w - 1)) :
    x.bmod (2 ^ w) = x := by
  have hw := NeZero.pos w
  have htwo : (2 : ℤ) ^ w = 2 * 2 ^ (w - 1) := by rw [← pow_succ', Nat.sub_add_cancel hw]
  exact Int.bmod_eq_of_le (by push_cast; omega) (by push_cast; omega)

theorem Holds.fits (h : a.Holds x) : -2 ^ (w - 1) ≤ x ∧ x < 2 ^ (w - 1) := by
  obtain ⟨c, -, rfl⟩ := h
  have hle := BitVec.le_toInt c
  have hlt := BitVec.toInt_lt (x := c)
  exact ⟨by exact_mod_cast hle, by exact_mod_cast hlt⟩

theorem holds_ofNat [NeZero w] {n : ℕ} (h : n < 2 ^ (w - 1)) :
    Holds (OfNat.ofNat n : Signed w) (n : ℤ) := by
  refine ⟨BitVec.ofNat w n, rfl, ?_⟩
  rw [BitVec.toInt_ofNat']
  have hpos : (0 : ℤ) ≤ 2 ^ (w - 1) := by exact_mod_cast (Nat.two_pow_pos (w - 1)).le
  exact bmod_of_fits (by omega) (by exact_mod_cast h)

theorem Holds.add (h : a.Holds x) (h' : b.Holds y) (hlo : -2 ^ (w - 1) ≤ x + y)
    (hhi : x + y < 2 ^ (w - 1)) : (a + b).Holds (x + y) := by
  obtain ⟨c, rfl, rfl⟩ := h
  obtain ⟨d, rfl, rfl⟩ := h'
  have hno : ¬ c.saddOverflow d := by
    simp only [BitVec.saddOverflow, Bool.or_eq_true, decide_eq_true_eq, not_or]
    exact ⟨by omega, by omega⟩
  exact ⟨c + d, if_neg hno, BitVec.toInt_add_of_not_saddOverflow hno⟩

theorem Holds.sub (h : a.Holds x) (h' : b.Holds y) (hlo : -2 ^ (w - 1) ≤ x - y)
    (hhi : x - y < 2 ^ (w - 1)) : (a - b).Holds (x - y) := by
  obtain ⟨c, rfl, rfl⟩ := h
  obtain ⟨d, rfl, rfl⟩ := h'
  have hno : ¬ c.ssubOverflow d := by
    simp only [BitVec.ssubOverflow, Bool.or_eq_true, decide_eq_true_eq, not_or]
    exact ⟨by omega, by omega⟩
  exact ⟨c - d, if_neg hno, BitVec.toInt_sub_of_not_ssubOverflow hno⟩

theorem Holds.mul (h : a.Holds x) (h' : b.Holds y) (hlo : -2 ^ (w - 1) ≤ x * y)
    (hhi : x * y < 2 ^ (w - 1)) : (a * b).Holds (x * y) := by
  obtain ⟨c, rfl, rfl⟩ := h
  obtain ⟨d, rfl, rfl⟩ := h'
  have hno : ¬ c.smulOverflow d := by
    simp only [BitVec.smulOverflow, Bool.or_eq_true, decide_eq_true_eq, not_or]
    exact ⟨by omega, by omega⟩
  exact ⟨c * d, if_neg hno, BitVec.toInt_mul_of_not_smulOverflow hno⟩

theorem Holds.neg (h : a.Holds x) (hne : x ≠ -2 ^ (w - 1)) : (-a).Holds (-x) := by
  obtain ⟨c, rfl, rfl⟩ := h
  have hno : ¬ c.negOverflow := by
    simp only [BitVec.negOverflow, beq_iff_eq]
    exact hne
  exact ⟨-c, if_neg hno, BitVec.toInt_neg_of_not_negOverflow hno⟩

theorem Holds.shiftRight (h : a.Holds x) (n : ℕ) : (a >>> n).Holds (x / 2 ^ n) := by
  obtain ⟨c, rfl, rfl⟩ := h
  refine ⟨c.sshiftRight n, rfl, ?_⟩
  rw [BitVec.toInt_sshiftRight, Int.shiftRight_eq_div_pow]
  norm_cast

theorem Holds.shiftLeft [NeZero w] (h : a.Holds x) (n : ℕ) (hlo : -2 ^ (w - 1) ≤ x * 2 ^ n)
    (hhi : x * 2 ^ n < 2 ^ (w - 1)) : (a <<< n).Holds (x * 2 ^ n) := by
  obtain ⟨c, rfl, rfl⟩ := h
  refine ⟨c <<< n, rfl, ?_⟩
  calc (c <<< n).toInt = ((c.toNat : ℤ) * 2 ^ n).bmod (2 ^ w) := by
        rw [BitVec.toInt_shiftLeft, Nat.shiftLeft_eq]
        push_cast
        rfl
    _ = (c.toInt * 2 ^ n).bmod (2 ^ w) := by rw [BitVec.toInt_eq_toNat_bmod, Int.bmod_mul_bmod]
    _ = c.toInt * 2 ^ n := bmod_of_fits hlo hhi

/-- To a wider integer, or to a narrower one that has room for it. -/
theorem Holds.cast {v : ℕ} [NeZero v] (h : a.Holds x) (hlo : -2 ^ (v - 1) ≤ x)
    (hhi : x < 2 ^ (v - 1)) : (a.cast v).Holds x := by
  obtain ⟨c, rfl, rfl⟩ := h
  refine ⟨c.signExtend v, rfl, ?_⟩
  rcases Nat.le_total v w with hle | hle
  · rw [BitVec.toInt_signExtend_eq_toInt_bmod_of_le c hle]
    exact bmod_of_fits hlo hhi
  · exact BitVec.toInt_signExtend_of_le hle

/-! ## Bounds -/

variable {A B : ℤ}

theorem Within.mono (h : a.Within x A) (hle : A ≤ B) : a.Within x B :=
  ⟨h.holds, h.bounded.trans hle⟩

theorem Within.add (h : a.Within x A) (h' : b.Within y B) (hfits : A + B < 2 ^ (w - 1)) :
    (a + b).Within (x + y) (A + B) := by
  have hle : |x + y| ≤ A + B := (abs_add_le x y).trans (add_le_add h.bounded h'.bounded)
  have hbounds := abs_le.mp hle
  exact ⟨h.holds.add h'.holds (by omega) (by omega), hle⟩

theorem Within.sub (h : a.Within x A) (h' : b.Within y B) (hfits : A + B < 2 ^ (w - 1)) :
    (a - b).Within (x - y) (A + B) := by
  have hle : |x - y| ≤ A + B := (abs_sub x y).trans (add_le_add h.bounded h'.bounded)
  have hbounds := abs_le.mp hle
  exact ⟨h.holds.sub h'.holds (by omega) (by omega), hle⟩

theorem Within.mul (h : a.Within x A) (h' : b.Within y B) (hfits : A * B < 2 ^ (w - 1)) :
    (a * b).Within (x * y) (A * B) := by
  have hle : |x * y| ≤ A * B := by
    rw [abs_mul]
    exact mul_le_mul h.bounded h'.bounded (abs_nonneg y) ((abs_nonneg x).trans h.bounded)
  have hbounds := abs_le.mp hle
  exact ⟨h.holds.mul h'.holds (by omega) (by omega), hle⟩

theorem Within.shiftLeft [NeZero w] (h : a.Within x A) (n : ℕ) (hfits : A * 2 ^ n < 2 ^ (w - 1)) :
    (a <<< n).Within (x * 2 ^ n) (A * 2 ^ n) := by
  have hle : |x * 2 ^ n| ≤ A * 2 ^ n := by
    rw [abs_mul, abs_of_nonneg (pow_nonneg (by omega : (0 : ℤ) ≤ 2) n)]
    exact mul_le_mul_of_nonneg_right h.bounded (pow_nonneg (by omega) n)
  have hbounds := abs_le.mp hle
  exact ⟨h.holds.shiftLeft n (by omega) (by omega), hle⟩

theorem Within.cast {v : ℕ} [NeZero v] (h : a.Within x A) (hfits : A < 2 ^ (v - 1)) :
    (a.cast v).Within x A := by
  have hbounds := abs_le.mp h.bounded
  exact ⟨h.holds.cast (by omega) (by omega), h.bounded⟩

theorem within_ofNat [NeZero w] {n : ℕ} (h : n < 2 ^ (w - 1)) :
    Within (OfNat.ofNat n : Signed w) (n : ℤ) n :=
  ⟨holds_ofNat h, by rw [Nat.abs_cast]⟩

end Signed
