import Mathlib.FieldTheory.Finite.Basic
import Olm.Curve25519Donna.Primes

/-!
# The inverse

`crecip` raises a field element to the power `2 ^ 255 - 21`, with 254
squarings and 11 products. By Fermat's theorem that is its inverse, and 0 for
0.
-/

namespace Olm

namespace Donna

/-- The limbs are those of a power of a field element. -/
def IsPower (v : Limbs 10) (u : ZMod prime) (n : ℕ) : Prop := Represents v (2 ^ 26 - 1) (u ^ n)

variable {v w : Limbs 10} {u : ZMod prime} {m n : ℕ}

theorem IsPower.fmul (h : IsPower v u m) (h' : IsPower w u n) : IsPower (fmul v w) u (m + n) := by
  rw [IsPower, pow_add]
  exact (h.mono (by norm_num)).fmul (h'.mono (by norm_num))

theorem IsPower.fsquare (h : IsPower v u n) : IsPower (fsquare v) u (n * 2) := by
  rw [IsPower, pow_mul]
  exact (h.mono (by norm_num)).fsquare

theorem IsPower.squareTwice (h : IsPower v u n) (times : ℕ) :
    IsPower (squareTwice times v) u (n * 4 ^ times) := by
  induction times generalizing v n with
  | zero =>
    rw [pow_zero, mul_one]
    exact h
  | succ times ih =>
    have hnext := ih h.fsquare.fsquare
    rwa [mul_assoc n 2 2, mul_assoc, show 2 * 2 * 4 ^ times = 4 ^ (times + 1) by ring] at hnext

/-- **`crecip`**, as a power. -/
theorem isPower_crecip (h : Represents v (2 ^ 26 - 1) u) : IsPower (crecip v) u (prime - 2) := by
  have h1 : IsPower v u 1 := by rwa [IsPower, pow_one]
  -- the exponents that the comments of the source give
  have h2 : IsPower (Donna.fsquare v) u 2 := h1.fsquare
  have h9 := h2.fsquare.fsquare.fmul h1
  have h11 := h9.fmul h2
  have h5 := h11.fsquare.fmul h9
  have h10 := h5.fsquare.fsquare.fsquare.fsquare.fsquare.fmul h5
  have h20 := (h10.fsquare.fsquare.squareTwice 4).fmul h10
  have h40 := (h20.fsquare.fsquare.squareTwice 9).fmul h20
  have h50 := (h40.fsquare.fsquare.squareTwice 4).fmul h10
  have h100 := (h50.fsquare.fsquare.squareTwice 24).fmul h50
  have h200 := (h100.fsquare.fsquare.squareTwice 49).fmul h100
  have h250 := (h200.fsquare.fsquare.squareTwice 24).fmul h50
  have h255 := h250.fsquare.fsquare.fsquare.fsquare.fsquare.fmul h11
  exact h255

theorem pow_prime_sub_two (u : ZMod prime) : u ^ (prime - 2) = u⁻¹ := by
  by_cases hu : u = 0
  · rw [hu, inv_zero, zero_pow (by decide)]
  · have hpow := ZMod.pow_card_sub_one_eq_one hu
    rw [show prime - 1 = prime - 2 + 1 by decide, pow_succ] at hpow
    exact eq_inv_of_mul_eq_one_left hpow

/-- **`crecip` inverts.** -/
theorem crecip_represents (h : Represents v (2 ^ 26 - 1) u) :
    Represents (crecip v) (2 ^ 26 - 1) u⁻¹ := by
  have hpower := isPower_crecip h
  rwa [IsPower, pow_prime_sub_two] at hpower

end Donna

end Olm
