import Mathlib.Data.Nat.Notation
import Mathlib.Tactic.Common

/-!
# Words as polynomials over the field of two elements

The bits of a word are the coefficients of a polynomial, the lowest first,
and `^^^` is their sum. `xtime` multiplies by the indeterminate and reduces
by `x ^ w + poly`, and `mulBy` multiplies by any polynomial. Both respect
sums, and multiplying by one polynomial after another is multiplying by
their product (`mulBy_product`): so an identity between polynomials is one
between the maps, whatever `poly` is.
-/

namespace Galois

/-! ## Polynomials by their coefficients -/

/-- The sum of two polynomials. -/
def sum : List Bool → List Bool → List Bool
  | [], q => q
  | a :: p, [] => a :: p
  | a :: p, b :: q => (a ^^ b) :: sum p q

/-- The product of two polynomials. -/
def product : List Bool → List Bool → List Bool
  | [], _ => []
  | a :: p, q => sum (if a then q else []) (false :: product p q)

section Multiplication

variable {w : ℕ} (poly : BitVec w)

/-- The product with the indeterminate. -/
def xtime (a : BitVec w) : BitVec w := (a <<< 1) ^^^ (if a.msb then poly else 0#w)

/-- The product with a polynomial. -/
def mulBy : List Bool → BitVec w → BitVec w
  | [], _ => 0#w
  | a :: p, b => (if a then b else 0#w) ^^^ xtime poly (mulBy p b)

/-! ## Sums -/

theorem xor_xor_xor_comm (a b c d : BitVec w) : (a ^^^ b) ^^^ (c ^^^ d) = (a ^^^ c) ^^^ (b ^^^ d) := by
  ac_rfl

theorem ite_xor (p q : Bool) (b : BitVec w) :
    (if p ^^ q then b else 0#w) = (if p then b else 0#w) ^^^ (if q then b else 0#w) := by
  cases p <;> cases q <;> simp

@[simp] theorem xtime_zero : xtime poly 0#w = 0#w := by simp [xtime]

theorem xtime_xor (a b : BitVec w) : xtime poly (a ^^^ b) = xtime poly a ^^^ xtime poly b := by
  rw [xtime, BitVec.shiftLeft_xor_distrib, BitVec.msb_xor, ite_xor, xor_xor_xor_comm]
  rfl

@[simp] theorem mulBy_zero (p : List Bool) : mulBy poly p 0#w = 0#w := by
  induction p with
  | nil => rfl
  | cons a p ih => simp [mulBy, ih]

/-- **Multiplication respects sums of words.** -/
theorem mulBy_xor (p : List Bool) (a b : BitVec w) :
    mulBy poly p (a ^^^ b) = mulBy poly p a ^^^ mulBy poly p b := by
  induction p with
  | nil => simp [mulBy]
  | cons c p ih =>
    rw [mulBy, ih, xtime_xor, mulBy, mulBy, xor_xor_xor_comm]
    cases c <;> simp

/-- And sums of polynomials. -/
theorem mulBy_sum (p q : List Bool) (b : BitVec w) :
    mulBy poly (sum p q) b = mulBy poly p b ^^^ mulBy poly q b := by
  induction p generalizing q with
  | nil => simp [sum, mulBy]
  | cons a p ih =>
    cases q with
    | nil => simp [sum, mulBy]
    | cons c q => rw [sum, mulBy, ih, xtime_xor, ite_xor, xor_xor_xor_comm, mulBy, mulBy]

/-! ## Products -/

/-- **One polynomial after another is their product.** -/
theorem mulBy_product (p q : List Bool) (b : BitVec w) :
    mulBy poly p (mulBy poly q b) = mulBy poly (product p q) b := by
  induction p with
  | nil => rfl
  | cons a p ih =>
    rw [mulBy, product, mulBy_sum, mulBy, ih]
    cases a <;> simp [mulBy]

end Multiplication

end Galois
