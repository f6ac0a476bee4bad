import Mathlib.AlgebraicGeometry.EllipticCurve.Affine.Point
import Mathlib.FieldTheory.IsAlgClosed.AlgebraicClosure
import Mathlib.Tactic.LinearCombination
import Mathlib.Tactic.FieldSimp

/-!
# The Montgomery ladder

On the curve `y ^ 2 = x ^ 3 + A x ^ 2 + x` the `x` of `2 Q` is a function of
the `x` of `Q`, and that of `Q + Q'` one of those of `Q`, `Q'` and
`Q' - Q`. A ladder goes through the digits of `n` with the two points
`m P` and `(m + 1) P`, each a fraction of two elements of the field, and
ends with the `x` of `n P` (`multiple_xOf`): for every point, those of
order two and the one at infinity with them, where 0 stands for the `x` that
infinity does not have. The `x` need not be that of a point over the field
it is in, so multiplications by two numbers commute on all of it
(`multiple_comm`).
-/

namespace Montgomery

open WeierstrassCurve.Affine

/-! ## The curve -/

section Curve

variable {K : Type*} [Field K]

/-- `y ^ 2 = x ^ 3 + A x ^ 2 + x`. -/
def curve (A : K) : WeierstrassCurve.Affine K := ⟨0, A, 0, 1, 0⟩

variable {A : K}

theorem equation_iff {x y : K} : (curve A).Equation x y ↔ y ^ 2 = x ^ 3 + A * x ^ 2 + x := by
  rw [WeierstrassCurve.Affine.equation_iff]
  simp [curve]

@[simp] theorem negY_eq (x y : K) : (curve A).negY x y = -y := by
  simp [curve, negY]

theorem negY_ne (htwo : (2 : K) ≠ 0) {x y : K} (hy : y ≠ 0) : y ≠ (curve A).negY x y := by
  rw [negY_eq, ← sub_ne_zero, sub_neg_eq_add, ← two_mul]
  exact mul_ne_zero htwo hy

/-- The polynomial in `x` has no double root. -/
theorem nonsingular_iff (htwo : (2 : K) ≠ 0) (hA : A ^ 2 ≠ 4) {x y : K} :
    (curve A).Nonsingular x y ↔ y ^ 2 = x ^ 3 + A * x ^ 2 + x := by
  rw [← equation_iff, WeierstrassCurve.Affine.nonsingular_iff, and_iff_left_iff_imp, equation_iff]
  intro h
  by_contra hsingular
  simp only [curve, not_or, not_not] at hsingular
  obtain ⟨hslope, hy⟩ := hsingular
  have hy0 : y = 0 := (mul_eq_zero.mp (show 2 * y = 0 by linear_combination hy)).resolve_left htwo
  subst hy0
  have hx : x ≠ 0 := by
    rintro rfl
    simp at hslope
  have hroot : x ^ 2 + A * x + 1 = 0 :=
    (mul_eq_zero.mp (show x * (x ^ 2 + A * x + 1) = 0 by linear_combination -h)).resolve_left hx
  have hdouble : 2 * x + A = 0 :=
    (mul_eq_zero.mp (show x * (2 * x + A) = 0 by linear_combination -hslope - hroot)).resolve_left hx
  exact hA (by linear_combination -4 * hroot + (2 * x + A) * hdouble)

/-- The `x` of a point, and 0 for the one at infinity. -/
def xOf : (curve A).Point → K
  | .zero => 0
  | .some x _ _ => x

@[simp] theorem xOf_zero : xOf (0 : (curve A).Point) = 0 := rfl

@[simp] theorem xOf_neg (P : (curve A).Point) : xOf (-P) = xOf P := by
  cases P with
  | zero => rfl
  | some x y h => rfl

end Curve

/-! ## The `x` of a sum -/

section Sums

variable {K : Type*} [Field K] [DecidableEq K] {A : K}

/-- The `x` of two points, from those of their sum and of their difference. -/
theorem addX_mul_addX {x₁ y₁ x₂ y₂ : K} (h₁ : (curve A).Equation x₁ y₁)
    (h₂ : (curve A).Equation x₂ y₂) (hne : x₁ ≠ x₂) :
    (curve A).addX x₁ x₂ ((curve A).slope x₁ x₂ y₁ y₂) *
      (curve A).addX x₁ x₂ ((curve A).slope x₁ x₂ y₁ (-y₂)) * (x₁ - x₂) ^ 2 =
      (x₁ * x₂ - 1) ^ 2 := by
  rw [equation_iff] at h₁ h₂
  have hsub : x₁ - x₂ ≠ 0 := sub_ne_zero.mpr hne
  rw [slope_of_X_ne hne, slope_of_X_ne hne]
  simp only [addX, curve]
  field_simp
  linear_combination
    (y₁ ^ 2 - y₂ ^ 2 + (x₁ ^ 3 + A * x₁ ^ 2 + x₁) - (x₂ ^ 3 + A * x₂ ^ 2 + x₂) -
        2 * (A + x₁ + x₂) * (x₁ - x₂) ^ 2) * h₁ -
      (y₁ ^ 2 - y₂ ^ 2 + (x₁ ^ 3 + A * x₁ ^ 2 + x₁) - (x₂ ^ 3 + A * x₂ ^ 2 + x₂) +
        2 * (A + x₁ + x₂) * (x₁ - x₂) ^ 2) * h₂

/-- The `x` of twice a point that is not of order two. -/
theorem addX_self {x y : K} (h : (curve A).Equation x y) (htwo : (2 : K) ≠ 0) (hy : y ≠ 0) :
    (curve A).addX x x ((curve A).slope x x y y) * (4 * (x ^ 3 + A * x ^ 2 + x)) =
      (x ^ 2 - 1) ^ 2 := by
  rw [equation_iff] at h
  rw [slope_of_Y_ne rfl (negY_ne htwo hy), negY_eq, sub_neg_eq_add, ← two_mul, ← h]
  simp only [addX, curve]
  field_simp
  linear_combination -16 * (A + 2 * x) * h

end Sums

/-! ## Fractions -/

/-- An `x` as a fraction. -/
structure Fraction (K : Type*) where
  x : K
  z : K

namespace Fraction

variable {K : Type*} [Field K]

/-- What the fraction is, 0 where there is none. -/
def affine (q : Fraction K) : K := q.x * q.z⁻¹

/-- The `x` of twice a point, for `a24` a quarter of `A - 2`. -/
def double (a24 : K) (q : Fraction K) : Fraction K where
  x := (q.x + q.z) ^ 2 * (q.x - q.z) ^ 2
  z := ((q.x + q.z) ^ 2 - (q.x - q.z) ^ 2) *
    (((q.x + q.z) ^ 2 - (q.x - q.z) ^ 2) * a24 + (q.x + q.z) ^ 2)

/-- The `x` of a sum, from the one of the difference. -/
def add (x₁ : K) (q q' : Fraction K) : Fraction K where
  x := ((q'.x + q'.z) * (q.x - q.z) + (q.x + q.z) * (q'.x - q'.z)) ^ 2
  z := ((q'.x + q'.z) * (q.x - q.z) - (q.x + q.z) * (q'.x - q'.z)) ^ 2 * x₁

/-- Over another field. -/
def map {L : Type*} [Field L] (f : K →+* L) (q : Fraction K) : Fraction L := ⟨f q.x, f q.z⟩

variable {A : K}

/-- The fraction is the `x` of the point, with no denominator at infinity. -/
inductive IsX (q : Fraction K) : (curve A).Point → Prop
  | zero (hx : q.x ≠ 0) (hz : q.z = 0) : IsX q 0
  | some {x y : K} (h : (curve A).Nonsingular x y) (hx : q.x = x * q.z) (hz : q.z ≠ 0) :
      IsX q (.some x y h)

variable {q q' : Fraction K} {P P' : (curve A).Point}

theorem IsX.affine (h : q.IsX P) : q.affine = xOf P := by
  cases h with
  | zero hx hz => rw [Fraction.affine, hz, inv_zero, mul_zero, xOf_zero]
  | some h hx hz => rw [Fraction.affine, hx, mul_inv_cancel_right₀ hz, xOf]

theorem IsX.eq_zero (h : q.IsX P) (hz : q.z = 0) : P = 0 := by
  cases h with
  | zero => rfl
  | some h hx hne => exact absurd hz hne

variable [DecidableEq K]

theorem IsX.double {a24 : K} (htwo : (2 : K) ≠ 0) (hA : A ^ 2 ≠ 4) (ha24 : 4 * a24 = A - 2)
    (h : q.IsX P) : (q.double a24).IsX (2 • P) := by
  cases h with
  | zero hx hz =>
    rw [smul_zero]
    refine .zero ?_ ?_
    · simp only [Fraction.double, hz, add_zero, sub_zero]
      exact mul_ne_zero (pow_ne_zero 2 hx) (pow_ne_zero 2 hx)
    · simp only [Fraction.double, hz, add_zero, sub_zero, sub_self, zero_mul]
  | @some x y h hx hz =>
    have hcurve := (nonsingular_iff htwo hA).mp h
    have hxeq : (q.double a24).x = (x ^ 2 - 1) ^ 2 * q.z ^ 4 := by
      simp only [Fraction.double, hx]
      ring
    have hzeq : (q.double a24).z = 4 * (x ^ 3 + A * x ^ 2 + x) * q.z ^ 4 := by
      simp only [Fraction.double, hx]
      linear_combination 4 * x ^ 2 * q.z ^ 4 * ha24
    rw [two_smul]
    by_cases hy : y = 0
    · -- a point of order two
      subst hy
      rw [Point.add_self_of_Y_eq (by rw [negY_eq, neg_zero])]
      refine .zero ?_ ?_
      · rw [hxeq]
        refine mul_ne_zero (pow_ne_zero 2 fun hone => hA ?_) (pow_ne_zero 4 hz)
        linear_combination -(A - 2 * x) * (hcurve + (x + A) * hone) + 4 * hone
      · rw [hzeq, ← hcurve]
        ring
    · rw [Point.add_self_of_Y_ne (negY_ne htwo hy)]
      have hsum := addX_self ((equation_iff (A := A)).mpr hcurve) htwo hy
      refine .some _ ?_ ?_
      · rw [hxeq, hzeq, ← hsum]
        ring
      · rw [hzeq, ← hcurve]
        have hfour : (4 : K) ≠ 0 := by
          rw [show (4 : K) = 2 * 2 by norm_num]
          exact mul_ne_zero htwo htwo
        exact mul_ne_zero (mul_ne_zero hfour (pow_ne_zero 2 hy)) (pow_ne_zero 4 hz)

theorem IsX.add {x₁ : K} (htwo : (2 : K) ≠ 0) (hA : A ^ 2 ≠ 4) (h : q.IsX P) (h' : q'.IsX P')
    (hdiff : xOf (P' - P) = x₁) (hx₁ : x₁ ≠ 0) : (q.add x₁ q').IsX (P + P') := by
  have hfour : (4 : K) ≠ 0 := by
    rw [show (4 : K) = 2 * 2 by norm_num]
    exact mul_ne_zero htwo htwo
  have hxeq : (q.add x₁ q').x = 4 * (q.x * q'.x - q.z * q'.z) ^ 2 := by
    simp only [Fraction.add]
    ring
  have hzeq : (q.add x₁ q').z = 4 * (q.x * q'.z - q.z * q'.x) ^ 2 * x₁ := by
    simp only [Fraction.add]
    ring
  cases h with
  | zero hx hz =>
    cases h' with
    | zero hx' hz' => exact absurd (by rw [← hdiff, sub_zero, xOf_zero]) hx₁
    | @some x' y' h' hx' hz' =>
      rw [sub_zero, xOf] at hdiff
      rw [zero_add]
      refine .some h' ?_ ?_
      · rw [hxeq, hzeq, hz, hx', hdiff]
        ring
      · rw [hzeq, hz, zero_mul, sub_zero]
        exact mul_ne_zero (mul_ne_zero hfour (pow_ne_zero 2 (mul_ne_zero hx hz'))) hx₁
  | @some x y h hx hz =>
    have hcurve := (nonsingular_iff htwo hA).mp h
    cases h' with
    | zero hx' hz' =>
      rw [zero_sub, xOf_neg, xOf] at hdiff
      rw [add_zero]
      refine .some h ?_ ?_
      · rw [hxeq, hzeq, hz', hx, hdiff]
        ring
      · rw [hzeq, hz', mul_zero, zero_sub, neg_sq]
        exact mul_ne_zero (mul_ne_zero hfour (pow_ne_zero 2 (mul_ne_zero hz hx'))) hx₁
    | @some x' y' h' hx' hz' =>
      have hcurve' := (nonsingular_iff htwo hA).mp h'
      have hxeq : (q.add x₁ q').x = 4 * (x * x' - 1) ^ 2 * (q.z * q'.z) ^ 2 := by
        rw [hxeq, hx, hx']
        ring
      have hzeq : (q.add x₁ q').z = 4 * (x' - x) ^ 2 * x₁ * (q.z * q'.z) ^ 2 := by
        rw [hzeq, hx, hx']
        ring
      by_cases hsame : x' = x
      · rcases Point.X_eq_iff.mp hsame with heq | heq
        · exact absurd (by rw [← hdiff, heq, sub_self, xOf_zero]) hx₁
        · -- the points are each other's negative, and their difference is twice one of them
          have hsum : Point.some x' y' h' - Point.some x y h = -(2 • Point.some x y h) := by
            rw [heq, two_smul]
            abel
          have hy : y ≠ 0 := by
            rintro rfl
            rw [hsum, two_smul, Point.add_self_of_Y_eq (by rw [negY_eq, neg_zero]), neg_zero,
              xOf_zero] at hdiff
            exact hx₁ hdiff.symm
          rw [hsum, xOf_neg, two_smul, Point.add_self_of_Y_ne (negY_ne htwo hy), xOf] at hdiff
          have hdouble := addX_self ((equation_iff (A := A)).mpr hcurve) htwo hy
          rw [hdiff, ← hcurve] at hdouble
          rw [heq, add_neg_cancel]
          refine .zero ?_ (by rw [hzeq, hsame, sub_self]; ring)
          rw [hxeq, hsame]
          refine mul_ne_zero (mul_ne_zero hfour (pow_ne_zero 2 fun hone => ?_))
            (pow_ne_zero 2 (mul_ne_zero hz hz'))
          refine mul_ne_zero hx₁ (mul_ne_zero hfour (pow_ne_zero 2 hy)) ?_
          rw [hdouble]
          linear_combination (x ^ 2 - 1) * hone
      · have hsum := addX_mul_addX ((equation_iff (A := A)).mpr hcurve')
          ((equation_iff (A := A)).mpr hcurve) hsame
        rw [sub_eq_add_neg, Point.neg_some, Point.add_of_X_ne hsame, xOf, negY_eq] at hdiff
        rw [hdiff] at hsum
        rw [add_comm, Point.add_of_X_ne hsame]
        refine .some _ ?_ ?_
        · rw [hxeq, hzeq, mul_comm x x', ← hsum]
          ring
        · rw [hzeq]
          exact mul_ne_zero (mul_ne_zero (mul_ne_zero hfour (pow_ne_zero 2 (sub_ne_zero.mpr hsame)))
            hx₁) (pow_ne_zero 2 (mul_ne_zero hz hz'))

end Fraction

/-! ## The ladder -/

section Ladder

variable {K : Type*} [Field K]

/-- The number with the digits, the highest first. -/
def number (bits : List Bool) : ℕ := bits.foldl (fun n bit => 2 * n + bit.toNat) 0

theorem number_append (bits : List Bool) (bit : Bool) :
    number (bits ++ [bit]) = 2 * number bits + bit.toNat := by
  rw [number, List.foldl_append, List.foldl_cons, List.foldl_nil, number]

/-- The two fractions change places if the digit is 1. -/
def swapIf (bit : Bool) (s : Fraction K × Fraction K) : Fraction K × Fraction K :=
  if bit then s.swap else s

/-- One digit of a ladder over a point with `x` equal to `x₁`. -/
def step (a24 x₁ : K) (s : Fraction K × Fraction K) (bit : Bool) : Fraction K × Fraction K :=
  let s := swapIf bit s
  swapIf bit (s.1.double a24, s.1.add x₁ s.2)

/-- The points 0 and 1 times. -/
def start (x₁ : K) : Fraction K × Fraction K := (⟨1, 0⟩, ⟨x₁, 1⟩)

def ladder (a24 x₁ : K) (bits : List Bool) : Fraction K × Fraction K :=
  bits.foldl (step a24 x₁) (start x₁)

/-- What the ladder makes of an `x`. -/
def multiple (a24 : K) (bits : List Bool) (x₁ : K) : K := (ladder a24 x₁ bits).1.affine

theorem ladder_append (a24 x₁ : K) (bits : List Bool) (bit : Bool) :
    ladder a24 x₁ (bits ++ [bit]) = step a24 x₁ (ladder a24 x₁ bits) bit := by
  rw [ladder, List.foldl_append, List.foldl_cons, List.foldl_nil, ladder]

section Point

variable [DecidableEq K] {A a24 : K} (htwo : (2 : K) ≠ 0) (hA : A ^ 2 ≠ 4) (ha24 : 4 * a24 = A - 2)

include htwo hA ha24

/-- **A digit** takes the ladder from the multiples `m` and `m + 1` to
`2 m` and `2 m + 1`, or to `2 m + 1` and `2 m + 2`. -/
theorem isX_step {x₁ : K} {s : Fraction K × Fraction K} {P : (curve A).Point} {m : ℕ}
    (hx : xOf P = x₁) (hx₁ : x₁ ≠ 0) (h : s.1.IsX (m • P)) (h' : s.2.IsX ((m + 1) • P))
    (bit : Bool) :
    (step a24 x₁ s bit).1.IsX ((2 * m + bit.toNat) • P) ∧
      (step a24 x₁ s bit).2.IsX ((2 * m + bit.toNat + 1) • P) := by
  have hdiff : (m + 1) • P - m • P = P := by rw [add_smul, one_smul, add_sub_cancel_left]
  cases bit with
  | false =>
    have hdouble := h.double htwo hA ha24
    have hadd := h.add htwo hA h' (by rw [hdiff, hx]) hx₁
    rw [← mul_smul] at hdouble
    rw [← add_smul, show m + (m + 1) = 2 * m + 1 by ring] at hadd
    exact ⟨hdouble, hadd⟩
  | true =>
    have hdouble := h'.double htwo hA ha24
    have hadd := h'.add htwo hA h (by rw [← neg_sub, hdiff, xOf_neg, hx]) hx₁
    rw [← mul_smul, show 2 * (m + 1) = 2 * m + 1 + 1 by ring] at hdouble
    rw [← add_smul, show m + 1 + m = 2 * m + 1 by ring] at hadd
    exact ⟨hadd, hdouble⟩

/-- A whole ladder, over a point with an `x` other than 0. -/
theorem isX_ladder {P : (curve A).Point} (hx : xOf P ≠ 0) (bits : List Bool) :
    (ladder a24 (xOf P) bits).1.IsX (number bits • P) ∧
      (ladder a24 (xOf P) bits).2.IsX ((number bits + 1) • P) := by
  induction bits using List.reverseRecOn with
  | nil =>
    refine ⟨?_, ?_⟩
    · rw [number, List.foldl_nil, zero_smul]
      exact .zero one_ne_zero rfl
    · rw [number, List.foldl_nil, zero_add, one_smul]
      cases P with
      | zero => exact absurd rfl hx
      | some x y h => exact .some h (mul_one x).symm one_ne_zero
  | append_singleton bits bit ih =>
    rw [ladder_append, number_append]
    exact isX_step htwo hA ha24 rfl hx ih.1 ih.2 bit

omit [DecidableEq K] htwo hA ha24 in
/-- Over 0 the first fraction stays without a denominator. -/
theorem z_ladder_zero (bits : List Bool) :
    (ladder a24 0 bits).1.z = 0 ∧ (ladder a24 0 bits).1.x * (ladder a24 0 bits).2.x = 0 ∧
      ((ladder a24 0 bits).2.z = 0 ∨ (ladder a24 0 bits).2.x = 0) := by
  induction bits using List.reverseRecOn with
  | nil => exact ⟨rfl, mul_zero _, .inr rfl⟩
  | append_singleton bits bit ih =>
    obtain ⟨hz, hx, hother⟩ := ih
    rw [ladder_append]
    have hxadd : ∀ q q' : Fraction K, q.x * q'.x - q.z * q'.z = 0 → (q.add 0 q').x = 0 := by
      intro q q' h
      simp only [Fraction.add]
      linear_combination 4 * (q.x * q'.x - q.z * q'.z) * h
    cases bit with
    | false =>
      refine ⟨?_, ?_, .inl ?_⟩
      · simp [step, swapIf, Fraction.double, hz]
      · simp only [step, swapIf, Bool.false_eq_true, if_false]
        rw [hxadd _ _ (by rw [hx, hz]; ring), mul_zero]
      · simp [step, swapIf, Fraction.add]
    | true =>
      refine ⟨?_, ?_, .inl ?_⟩
      · simp [step, swapIf, Fraction.add]
      · simp only [step, swapIf, if_true, Prod.swap]
        rw [hxadd _ _ (by rw [mul_comm, hx, hz]; ring), zero_mul]
      · simp only [step, swapIf, if_true, Prod.swap, Fraction.double]
        rcases hother with h | h <;> rw [h] <;> ring

omit ha24 in
theorem two_smul_of_xOf_eq_zero {P : (curve A).Point} (hx : xOf P = 0) : 2 • P = 0 := by
  cases P with
  | zero => exact smul_zero 2
  | some x y h =>
    rw [xOf] at hx
    subst hx
    have hcurve := (nonsingular_iff htwo hA).mp h
    have hy : y = 0 := pow_eq_zero_iff two_ne_zero |>.mp (by linear_combination hcurve)
    subst hy
    rw [two_smul, Point.add_self_of_Y_eq (by rw [negY_eq, neg_zero])]

/-- **The ladder multiplies**, whatever the point. -/
theorem multiple_xOf (P : (curve A).Point) (bits : List Bool) :
    multiple a24 bits (xOf P) = xOf (number bits • P) := by
  by_cases hx : xOf P = 0
  · -- infinity, or the point of order two that has no height
    have hmultiple : multiple a24 bits (xOf P) = 0 := by
      rw [multiple, hx, Fraction.affine, (z_ladder_zero bits).1, inv_zero, mul_zero]
    have htwice := two_smul_of_xOf_eq_zero htwo hA hx
    rw [hmultiple, ← Nat.div_add_mod' (number bits) 2, add_smul, mul_smul, htwice, smul_zero,
      zero_add]
    rcases Nat.mod_two_eq_zero_or_one (number bits) with heven | hodd
    · rw [heven, zero_smul, xOf_zero]
    · rw [hodd, one_smul, hx]
  · exact (isX_ladder htwo hA ha24 hx bits).1.affine

end Point

/-! ## Over any field -/

/-- Each element is the `x` of a point over a field with all square roots. -/
theorem exists_xOf_eq [IsAlgClosed K] {A : K} (htwo : (2 : K) ≠ 0) (hA : A ^ 2 ≠ 4) (x : K) :
    ∃ P : (curve A).Point, xOf P = x := by
  obtain ⟨y, hy⟩ := IsAlgClosed.exists_pow_nat_eq (x ^ 3 + A * x ^ 2 + x) two_pos
  exact ⟨.some x y ((nonsingular_iff htwo hA).mpr hy), rfl⟩

section Map

variable {L : Type*} [Field L] (f : K →+* L)

theorem map_double (a24 : K) (q : Fraction K) :
    (q.map f).double (f a24) = (q.double a24).map f := by
  simp [Fraction.map, Fraction.double]

theorem map_add (x₁ : K) (q q' : Fraction K) :
    (q.map f).add (f x₁) (q'.map f) = (q.add x₁ q').map f := by
  simp [Fraction.map, Fraction.add]

theorem map_step (a24 x₁ : K) (s : Fraction K × Fraction K) (bit : Bool) :
    step (f a24) (f x₁) (s.1.map f, s.2.map f) bit =
      ((step a24 x₁ s bit).1.map f, (step a24 x₁ s bit).2.map f) := by
  cases bit with
  | false => simp [step, swapIf, map_double, map_add]
  | true => simp [step, swapIf, map_double, map_add]

theorem map_ladder (a24 x₁ : K) (bits : List Bool) :
    ladder (f a24) (f x₁) bits =
      ((ladder a24 x₁ bits).1.map f, (ladder a24 x₁ bits).2.map f) := by
  induction bits using List.reverseRecOn with
  | nil => simp [ladder, start, Fraction.map]
  | append_singleton bits bit ih => rw [ladder_append, ladder_append, ih, map_step]

theorem map_multiple (a24 x₁ : K) (bits : List Bool) :
    multiple (f a24) bits (f x₁) = f (multiple a24 bits x₁) := by
  rw [multiple, map_ladder, multiple, Fraction.affine, Fraction.affine, map_mul, map_inv₀,
    Fraction.map]

end Map

section Any

variable {A a24 : K} (htwo : (2 : K) ≠ 0) (hA : A ^ 2 ≠ 4) (ha24 : 4 * a24 = A - 2)

include htwo hA ha24

/-- **Multiplications commute**, on every element of the field. -/
theorem multiple_comm (bits bits' : List Bool) (x : K) :
    multiple a24 bits (multiple a24 bits' x) = multiple a24 bits' (multiple a24 bits x) := by
  classical
  let f := algebraMap K (AlgebraicClosure K)
  have htwo' : (2 : AlgebraicClosure K) ≠ 0 := by
    rw [← map_ofNat f 2]
    exact (map_ne_zero f).mpr htwo
  have hA' : (f A) ^ 2 ≠ 4 := by
    rw [← map_ofNat f 4, ← map_pow]
    exact f.injective.ne hA
  have ha24' : 4 * f a24 = f A - 2 := by
    rw [← map_ofNat f 4, ← map_ofNat f 2, ← map_mul, ← map_sub, ha24]
  obtain ⟨P, hP⟩ := exists_xOf_eq htwo' hA' (f x)
  apply f.injective
  rw [← map_multiple, ← map_multiple, ← map_multiple, ← map_multiple, ← hP,
    multiple_xOf htwo' hA' ha24', multiple_xOf htwo' hA' ha24', multiple_xOf htwo' hA' ha24',
    multiple_xOf htwo' hA' ha24', smul_comm]

end Any

end Ladder

end Montgomery
