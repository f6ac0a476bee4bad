import Mathlib.NumberTheory.LucasPrimality
import Mathlib.Tactic.NormNum.Prime
import Olm.Curve25519Donna.Field

/-!
# Two primes

`2 ^ 255 - 19`, so that the limbs stand for the elements of a field, and the
order of the base point. Each is the product of smaller primes plus one, and
these are named by their first digits. Lucas's test proves them prime: the
factors of `p - 1` and an element of order `p - 1`, whose powers are computed by
squaring, so that `decide` can check a test.
-/

namespace Lucas

/-- `a ^ n` modulo `m`, for an `n` of so many bits. -/
def powMod (m a : ℕ) : ℕ → ℕ → ℕ
  | 0, _ => 1 % m
  | bits + 1, n => powMod m a bits (n / 2) ^ 2 * a ^ (n % 2) % m

theorem powMod_eq (m a bits : ℕ) {n : ℕ} (hn : n < 2 ^ bits) : powMod m a bits n = a ^ n % m := by
  induction bits generalizing n with
  | zero =>
    obtain rfl : n = 0 := by omega
    rfl
  | succ bits ih =>
    have hhalf : n / 2 < 2 ^ bits := by omega
    calc powMod m a (bits + 1) n
        = (a ^ (n / 2) % m) ^ 2 * a ^ (n % 2) % m := by rw [powMod, ih hhalf]
      _ = (a ^ (n / 2)) ^ 2 * a ^ (n % 2) % m := by rw [Nat.mul_mod, ← Nat.pow_mod, ← Nat.mul_mod]
      _ = a ^ n % m := by rw [← pow_mul, ← pow_add, Nat.div_add_mod']

/-- The product of the factors, each a prime and its exponent, is `p - 1`, and
`a` has that order modulo `p`. -/
def Test (p a : ℕ) (factors : List (Nat.Primes × ℕ)) : Prop :=
  1 < p ∧ p < 2 ^ 256 ∧ (factors.map fun f => f.1.val ^ f.2).prod = p - 1 ∧
    powMod p a 256 (p - 1) = 1 ∧ ∀ f ∈ factors, powMod p a 256 ((p - 1) / f.1.val) ≠ 1

instance (p a : ℕ) (factors : List (Nat.Primes × ℕ)) : Decidable (Test p a factors) :=
  inferInstanceAs (Decidable (_ ∧ _))

/-- **A number that passes the test is prime.** -/
theorem Test.prime {p : ℕ} (a : ℕ) (factors : List (Nat.Primes × ℕ)) (h : Test p a factors) :
    p.Prime := by
  obtain ⟨hp, hbits, hprod, hone, hne⟩ := h
  have hpow : ∀ n ≤ p - 1, (a : ZMod p) ^ n = 1 ↔ powMod p a 256 n = 1 := by
    intro n hn
    rw [powMod_eq p a 256 (show n < 2 ^ 256 by omega), ← Nat.cast_pow, ← Nat.cast_one,
      ZMod.natCast_eq_natCast_iff', Nat.mod_eq_of_lt hp]
  refine lucas_primality p a ((hpow _ le_rfl).mpr hone) fun q hq hdvd => ?_
  obtain ⟨r, hr, hqr⟩ := (Prime.dvd_prod_iff hq.prime).mp (hprod ▸ hdvd)
  obtain ⟨factor, hmem, rfl⟩ := List.mem_map.mp hr
  have heq := (Nat.prime_dvd_prime_iff_eq hq factor.1.property).mp (hq.dvd_of_dvd_pow hqr)
  rw [ne_eq, hpow _ (Nat.div_le_self _ _), heq]
  exact hne factor hmem

end Lucas

namespace Olm

namespace Donna

/-! ## The field -/

def p2773320623 : Nat.Primes :=
  ⟨2773320623, Lucas.Test.prime 5
    [(⟨2, by norm_num⟩, 1), (⟨2437, by norm_num⟩, 1), (⟨569003, by norm_num⟩, 1)]
    (by decide +kernel)⟩

def p72106336199 : Nat.Primes :=
  ⟨72106336199, Lucas.Test.prime 7
    [(⟨2, by norm_num⟩, 1), (⟨13, by norm_num⟩, 1), (p2773320623, 1)]
    (by decide +kernel)⟩

def p1919519569386763 : Nat.Primes :=
  ⟨1919519569386763, Lucas.Test.prime 2
    [(⟨2, by norm_num⟩, 1), (⟨3, by norm_num⟩, 1), (⟨7, by norm_num⟩, 1), (⟨19, by norm_num⟩, 1),
      (⟨47, by norm_num⟩, 2), (⟨127, by norm_num⟩, 1), (⟨8574133, by norm_num⟩, 1)]
    (by decide +kernel)⟩

def p31757755568855353 : Nat.Primes :=
  ⟨31757755568855353, Lucas.Test.prime 10
    [(⟨2, by norm_num⟩, 3), (⟨3, by norm_num⟩, 1), (⟨31, by norm_num⟩, 1),
      (⟨107, by norm_num⟩, 1), (⟨223, by norm_num⟩, 1), (⟨4153, by norm_num⟩, 1),
      (⟨430751, by norm_num⟩, 1)]
    (by decide +kernel)⟩

def p75445702 : Nat.Primes :=
  ⟨75445702479781427272750846543864801, Lucas.Test.prime 7
    [(⟨2, by norm_num⟩, 5), (⟨3, by norm_num⟩, 2), (⟨5, by norm_num⟩, 2),
      (⟨75707, by norm_num⟩, 1), (p72106336199, 1), (p1919519569386763, 1)]
    (by decide +kernel)⟩

def p74058212 : Nat.Primes :=
  ⟨74058212732561358302231226437062788676166966415465897661863160754340907, Lucas.Test.prime 2
    [(⟨2, by norm_num⟩, 1), (⟨3, by norm_num⟩, 1), (⟨353, by norm_num⟩, 1),
      (⟨57467, by norm_num⟩, 1), (⟨132049, by norm_num⟩, 1), (⟨1923133, by norm_num⟩, 1),
      (p31757755568855353, 1), (p75445702, 1)]
    (by decide +kernel)⟩

theorem prime_prime : Nat.Prime prime :=
  Lucas.Test.prime 2
    [(⟨2, by norm_num⟩, 2), (⟨3, by norm_num⟩, 1), (⟨65147, by norm_num⟩, 1), (p74058212, 1)]
    (by decide +kernel)

instance : Fact prime.Prime := ⟨prime_prime⟩

/-! ## The order of the base point -/

def p14741173 : Nat.Primes :=
  ⟨14741173, Lucas.Test.prime 2
    [(⟨2, by norm_num⟩, 2), (⟨3, by norm_num⟩, 2), (⟨409477, by norm_num⟩, 1)]
    (by decide +kernel)⟩

def p58964693 : Nat.Primes :=
  ⟨58964693, Lucas.Test.prime 2
    [(⟨2, by norm_num⟩, 2), (p14741173, 1)]
    (by decide +kernel)⟩

def p30448616 : Nat.Primes :=
  ⟨3044861653679985063343, Lucas.Test.prime 5
    [(⟨2, by norm_num⟩, 1), (⟨3, by norm_num⟩, 1), (⟨11, by norm_num⟩, 1),
      (⟨30703, by norm_num⟩, 1), (⟨82163, by norm_num⟩, 1), (⟨132667, by norm_num⟩, 1),
      (⟨137849, by norm_num⟩, 1)]
    (by decide +kernel)⟩

def p19821142 : Nat.Primes :=
  ⟨198211423230930754013084525763697, Lucas.Test.prime 5
    [(⟨2, by norm_num⟩, 4), (⟨3, by norm_num⟩, 1), (⟨23, by norm_num⟩, 1), (p58964693, 1),
      (p30448616, 1)]
    (by decide +kernel)⟩

def p292386187 : Nat.Primes :=
  ⟨292386187, Lucas.Test.prime 2
    [(⟨2, by norm_num⟩, 1), (⟨3, by norm_num⟩, 4), (⟨307, by norm_num⟩, 1),
      (⟨5879, by norm_num⟩, 1)]
    (by decide +kernel)⟩

def p213441916511 : Nat.Primes :=
  ⟨213441916511, Lucas.Test.prime 13
    [(⟨2, by norm_num⟩, 1), (⟨5, by norm_num⟩, 1), (⟨73, by norm_num⟩, 1), (p292386187, 1)]
    (by decide +kernel)⟩

def p1257559732178653 : Nat.Primes :=
  ⟨1257559732178653, Lucas.Test.prime 2
    [(⟨2, by norm_num⟩, 2), (⟨3, by norm_num⟩, 1), (⟨7, by norm_num⟩, 1), (⟨23, by norm_num⟩, 1),
      (⟨531581, by norm_num⟩, 1), (⟨1224481, by norm_num⟩, 1)]
    (by decide +kernel)⟩

def p4434155615661930479 : Nat.Primes :=
  ⟨4434155615661930479, Lucas.Test.prime 17
    [(⟨2, by norm_num⟩, 1), (⟨41, by norm_num⟩, 1), (⟨43, by norm_num⟩, 1),
      (p1257559732178653, 1)]
    (by decide +kernel)⟩

def p17205459 : Nat.Primes :=
  ⟨172054593956031949258510691, Lucas.Test.prime 2
    [(⟨2, by norm_num⟩, 1), (⟨5, by norm_num⟩, 1), (⟨1361, by norm_num⟩, 1),
      (⟨2851, by norm_num⟩, 1), (p4434155615661930479, 1)]
    (by decide +kernel)⟩

def p19757330 : Nat.Primes :=
  ⟨19757330305831588566944191468367130476339, Lucas.Test.prime 2
    [(⟨2, by norm_num⟩, 1), (⟨269, by norm_num⟩, 1), (p213441916511, 1), (p17205459, 1)]
    (by decide +kernel)⟩

def p27660262 : Nat.Primes :=
  ⟨276602624281642239937218680557139826668747, Lucas.Test.prime 2
    [(⟨2, by norm_num⟩, 1), (⟨7, by norm_num⟩, 1), (p19757330, 1)]
    (by decide +kernel)⟩

/-- `2 ^ 252 + 27742317777372353535851937790883648493`. -/
def order : ℕ := 2 ^ 252 + 27742317777372353535851937790883648493

theorem prime_order : Nat.Prime order :=
  Lucas.Test.prime 2
    [(⟨2, by norm_num⟩, 2), (⟨3, by norm_num⟩, 1), (⟨11, by norm_num⟩, 1), (p19821142, 1),
      (p27660262, 1)]
    (by decide +kernel)

end Donna

end Olm
