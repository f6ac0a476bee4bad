import Olm.Curve25519Donna.Ladder
import Olm.Crypto

/-!
# Multiples of a point

`curve25519_donna` returns the `x` of a multiple of the point that it is
given, on the curve or on its twist. So two secrets can be applied in either
order, and a public key is never zero: the base point has prime order, and no
secret is a multiple of that. The points that give a shared secret of zero,
whatever the secret, are those of low order.
-/

namespace Olm

namespace Donna

open Montgomery

/-! ## The curve -/

theorem natCast_ne_zero {n : ℕ} (hpos : 0 < n) (hlt : n < prime) : (n : ZMod prime) ≠ 0 := by
  rw [ne_eq, ZMod.natCast_eq_zero_iff]
  exact Nat.not_dvd_of_pos_of_lt hpos hlt

section Field

variable {K : Type*} [Field K] (f : ZMod prime →+* K)

include f

theorem two_ne_zero_of_map : (2 : K) ≠ 0 := by
  rw [← map_ofNat f 2]
  exact (map_ne_zero f).mpr (natCast_ne_zero (n := 2) (by decide) (by decide))

theorem discriminant_of_map : (486662 : K) ^ 2 ≠ 4 := by
  have hne := natCast_ne_zero (n := 486662 ^ 2 - 4) (by decide) (by decide)
  have hmap := (map_ne_zero f).mpr hne
  intro heq
  refine hmap ?_
  rw [map_natCast, Nat.cast_sub (by decide), Nat.cast_pow]
  exact sub_eq_zero.mpr heq

omit f in
theorem a24_eq : 4 * (121665 : K) = 486662 - 2 := by norm_num

end Field

/-- **`curve25519_donna` multiplies**: it has no overflow, and returns the
`x` of a multiple of any point that has the `x` that it is given, over any
field with `2 ^ 255 - 19` elements in it. -/
theorem curve25519Donna_multiplies {K : Type*} [Field K] [DecidableEq K] (f : ZMod prime →+* K)
    (memory secret basepoint : FixedBytes 32) (P : (curve (486662 : K)).Point)
    (hP : xOf P = f (fieldElement basepoint)) :
    ∃ u, curve25519Donna memory secret basepoint = some (toBytes u) ∧
      f u = xOf (ofLittleEndian (clamp secret).val • P) := by
  refine ⟨_, curve25519Donna_eq memory secret basepoint, ?_⟩
  rw [← map_multiple, map_ofNat, ← hP, multiple_xOf (two_ne_zero_of_map f) (discriminant_of_map f)
    a24_eq, number_secretBits]

theorem fieldElement_base : fieldElement Curve25519.BASEPOINT = 9 := by
  have hnine : ofLittleEndian Curve25519.BASEPOINT.val % 2 ^ 255 = 9 := by decide +kernel
  rw [fieldElement, hnine, Nat.cast_ofNat]

/-- The `y` of the base point. -/
def baseY : ℕ := 14781619447589544791020593568409986887264606134616475288964881837755586237401

/-- The base point, whose `x` is 9. -/
def basePoint : (curve (486662 : ZMod prime)).Point :=
  .some 9 baseY ((nonsingular_iff (two_ne_zero_of_map (RingHom.id _))
    (discriminant_of_map (RingHom.id _))).mpr (by
      have hmod : baseY ^ 2 % prime = (9 ^ 3 + 486662 * 9 ^ 2 + 9) % prime := by decide +kernel
      have hcast := (ZMod.natCast_eq_natCast_iff' _ _ prime).mpr hmod
      simpa only [Nat.cast_add, Nat.cast_mul, Nat.cast_pow, Nat.cast_ofNat] using hcast))

theorem curve25519Donna_multiplies_base :
    ∃ u, curve25519Donna (FixedBytes.zero 32) (FixedBytes.zero 32) Curve25519.BASEPOINT =
        some (toBytes u) ∧
      RingHom.id (ZMod prime) u =
        xOf (ofLittleEndian (clamp (FixedBytes.zero 32)).val • basePoint) :=
  curve25519Donna_multiplies (RingHom.id (ZMod prime)) _ _ _ basePoint fieldElement_base.symm

/-! ## As a primitive -/

/-- The function as a parameter of the rest. -/
def donna (secret point : FixedBytes 32) : FixedBytes 32 :=
  (curve25519Donna (FixedBytes.zero 32) secret point).getD (FixedBytes.zero 32)

theorem donna_eq (secret point : FixedBytes 32) :
    donna secret point =
      toBytes (multiple 121665 (secretBits (clamp secret)) (fieldElement point)) := by
  rw [donna, curve25519Donna_eq]
  rfl

end Donna

/-- The vendored Curve25519. -/
def Curve25519.vendored : Curve25519 := ⟨Donna.donna⟩

namespace Donna

open Montgomery

/-- **Two secrets can be applied in either order**, to any 32 bytes. -/
theorem donna_comm (a b point : FixedBytes 32) :
    donna a (donna b point) = donna b (donna a point) := by
  rw [donna_eq, donna_eq b point, donna_eq b, donna_eq a point, fieldElement_toBytes,
    fieldElement_toBytes, multiple_comm (two_ne_zero_of_map (RingHom.id (ZMod prime)))
    (discriminant_of_map (RingHom.id (ZMod prime))) a24_eq]

/-! ## The order of the base point -/

/-- `a - b` modulo the prime. -/
def subMod (a b : ℕ) : ℕ := (a + (prime - b % prime)) % prime

theorem cast_subMod (a b : ℕ) : ((subMod a b : ℕ) : ZMod prime) = a - b := by
  have hlt := Nat.mod_lt b (show 0 < prime by decide)
  rw [subMod, ZMod.natCast_mod, Nat.cast_add, Nat.cast_sub hlt.le, ZMod.natCast_mod,
    ZMod.natCast_self, zero_sub, sub_eq_add_neg]

/-- The ladder on numbers, where it can be computed. -/
def doubleMod (q : Fraction ℕ) : Fraction ℕ :=
  let plus := (q.x + q.z) ^ 2 % prime
  let minus := subMod q.x q.z ^ 2 % prime
  let diff := subMod plus minus
  ⟨plus * minus % prime, diff * (diff * 121665 + plus) % prime⟩

def addMod (x₁ : ℕ) (q q' : Fraction ℕ) : Fraction ℕ :=
  let left := (q'.x + q'.z) * subMod q.x q.z % prime
  let right := (q.x + q.z) * subMod q'.x q'.z % prime
  ⟨(left + right) ^ 2 % prime, subMod left right ^ 2 * x₁ % prime⟩

def stepMod (x₁ : ℕ) (s : Fraction ℕ × Fraction ℕ) (bit : Bool) : Fraction ℕ × Fraction ℕ :=
  let s := if bit then s.swap else s
  let s := (doubleMod s.1, addMod x₁ s.1 s.2)
  if bit then s.swap else s

/-- A fraction of numbers in the field. -/
def ofNats (q : Fraction ℕ) : Fraction (ZMod prime) := ⟨q.x, q.z⟩

theorem ofNats_doubleMod (q : Fraction ℕ) : ofNats (doubleMod q) = (ofNats q).double 121665 := by
  simp only [ofNats, doubleMod, Fraction.double, ZMod.natCast_mod, Nat.cast_mul, Nat.cast_pow,
    Nat.cast_add, cast_subMod, Nat.cast_ofNat]

theorem ofNats_addMod (x₁ : ℕ) (q q' : Fraction ℕ) :
    ofNats (addMod x₁ q q') = (ofNats q).add (x₁ : ZMod prime) (ofNats q') := by
  simp only [ofNats, addMod, Fraction.add, ZMod.natCast_mod, Nat.cast_mul, Nat.cast_pow,
    Nat.cast_add, cast_subMod]

theorem ofNats_stepMod (x₁ : ℕ) (s : Fraction ℕ × Fraction ℕ) (bit : Bool) :
    Prod.map ofNats ofNats (stepMod x₁ s bit) =
      step 121665 (x₁ : ZMod prime) (Prod.map ofNats ofNats s) bit := by
  cases bit with
  | false => simp [stepMod, step, swapIf, ofNats_doubleMod, ofNats_addMod]
  | true => simp [stepMod, step, swapIf, ofNats_doubleMod, ofNats_addMod]

theorem ofNats_ladder (x₁ : ℕ) (bits : List Bool) (s : Fraction ℕ × Fraction ℕ) :
    Prod.map ofNats ofNats (bits.foldl (stepMod x₁) s) =
      bits.foldl (step 121665 (x₁ : ZMod prime)) (Prod.map ofNats ofNats s) := by
  induction bits generalizing s with
  | nil => rfl
  | cons bit bits ih => rw [List.foldl_cons, List.foldl_cons, ih, ofNats_stepMod]

/-- The bits of the order, the highest first. -/
def orderBits : List Bool := (List.range 253).reverse.map order.testBit

theorem number_orderBits : number orderBits = order := by decide +kernel

theorem z_orderBits : (orderBits.foldl (stepMod 9) (⟨1, 0⟩, ⟨9, 1⟩)).1.z = 0 := by decide +kernel

/-- The ladder ends without a denominator. -/
theorem z_ladder_orderBits : (ladder (121665 : ZMod prime) 9 orderBits).1.z = 0 := by
  have hladder := ofNats_ladder 9 orderBits (⟨1, 0⟩, ⟨9, 1⟩)
  have hstart : Prod.map ofNats ofNats (⟨1, 0⟩, ⟨9, 1⟩) = start (9 : ZMod prime) := by
    simp [ofNats, start]
  rw [hstart, Nat.cast_ofNat] at hladder
  rw [ladder, ← hladder]
  exact (congrArg Nat.cast z_orderBits).trans Nat.cast_zero

section Order

variable {K : Type*} [Field K] [DecidableEq K] (f : ZMod prime →+* K)

include f

/-- **The order of the base point**, with either of its `y`. -/
theorem addOrderOf_base {P : (curve (486662 : K)).Point} (hP : xOf P = 9) : addOrderOf P = order := by
  have hnine : (9 : K) ≠ 0 := by
    rw [← map_ofNat f 9]
    exact (map_ne_zero f).mpr (natCast_ne_zero (n := 9) (by decide) (by decide))
  have hladder := (isX_ladder (two_ne_zero_of_map f) (discriminant_of_map f) a24_eq
    (hP ▸ hnine) orderBits).1
  have hz : (ladder (121665 : K) (xOf P) orderBits).1.z = 0 := by
    rw [hP, ← map_ofNat f 121665, ← map_ofNat f 9, map_ladder]
    exact (congrArg f z_ladder_orderBits).trans (map_zero f)
  have hsmul := hladder.eq_zero hz
  rw [number_orderBits] at hsmul
  have hprime : Fact order.Prime := ⟨prime_order⟩
  refine addOrderOf_eq_prime hsmul ?_
  rintro rfl
  exact hnine hP.symm

end Order

/-! ## Secrets -/

theorem ofLittleEndian_lt (bytes : Bytes) : ofLittleEndian bytes < 256 ^ bytes.length := by
  induction bytes with
  | nil => exact Nat.one_pos
  | cons byte bytes ih =>
    have hlt := byte.toNat_lt
    rw [ofLittleEndian, List.length_cons, pow_succ']
    omega

theorem getD_clamp_first (secret : FixedBytes 32) :
    (clamp secret).val.getD 0 0 = secret.val.getD 0 0 &&& 248 := by
  simp [clamp, List.getD_eq_getElem?_getD]

theorem getD_clamp_last (secret : FixedBytes 32) :
    (clamp secret).val.getD 31 0 = (secret.val.getD 31 0 &&& 127) ||| 64 := by
  simp [clamp, List.getD_eq_getElem?_getD]

/-- What a clamped secret is: a multiple of 8 with its highest bit at 254. -/
theorem clamp_number (secret : FixedBytes 32) :
    8 ∣ ofLittleEndian (clamp secret).val ∧ 2 ^ 254 ≤ ofLittleEndian (clamp secret).val ∧
      ofLittleEndian (clamp secret).val < 2 ^ 255 := by
  have hlow : ∀ b : Fin 256, (UInt8.ofFin b &&& 248).toNat % 8 = 0 := by decide +kernel
  have hhigh : ∀ b : Fin 256, 64 ≤ (UInt8.ofFin b &&& 127 ||| 64).toNat ∧
      (UInt8.ofFin b &&& 127 ||| 64).toNat < 128 := by decide +kernel
  have hlt := ofLittleEndian_lt (clamp secret).val
  rw [FixedBytes.length_val] at hlt
  have hfirst := toNat_getD (clamp secret).val 0
  have hlast := toNat_getD (clamp secret).val 31
  rw [getD_clamp_first, pow_zero, Nat.div_one] at hfirst
  rw [getD_clamp_last] at hlast
  have height := hlow (secret.val.getD 0 0).toFin
  have htop := hhigh (secret.val.getD 31 0).toFin
  rw [UInt8.ofFin_toFin] at height htop
  omega

/-- No multiple of the base point by a secret has the `x` 0. -/
theorem multiple_base_ne_zero (secret : FixedBytes 32) :
    multiple (121665 : ZMod prime) (secretBits (clamp secret)) 9 ≠ 0 := by
  classical
  intro hzero
  let f := algebraMap (ZMod prime) (AlgebraicClosure (ZMod prime))
  obtain ⟨P, hP⟩ := exists_xOf_eq (two_ne_zero_of_map f) (discriminant_of_map f) 9
  have hmap := congrArg f hzero
  rw [← map_multiple, map_ofNat, map_ofNat, map_zero, ← hP,
    multiple_xOf (two_ne_zero_of_map f) (discriminant_of_map f) a24_eq, number_secretBits] at hmap
  have htwice := two_smul_of_xOf_eq_zero (two_ne_zero_of_map f) (discriminant_of_map f) hmap
  rw [← mul_smul] at htwice
  have hdvd := addOrderOf_dvd_of_nsmul_eq_zero htwice
  rw [addOrderOf_base f hP] at hdvd
  obtain ⟨⟨m, hm⟩, hlow, hhigh⟩ := clamp_number secret
  rw [hm, ← mul_assoc] at hdvd
  have hcoprime : Nat.Coprime order (2 * 8) := by decide +kernel
  have hle := Nat.le_of_dvd (by omega) (hcoprime.dvd_of_dvd_mul_left hdvd)
  have horder : order = 2 ^ 252 + 27742317777372353535851937790883648493 := rfl
  omega

theorem fieldElement_zero : fieldElement (FixedBytes.zero 32) = 0 := by
  have hzero : ofLittleEndian (FixedBytes.zero 32).val % 2 ^ 255 = 0 := by decide +kernel
  rw [fieldElement, hzero, Nat.cast_zero]

theorem toBytes_eq_zero_iff {u : ZMod prime} : toBytes u = FixedBytes.zero 32 ↔ u = 0 := by
  constructor
  · intro h
    rw [← fieldElement_toBytes u, h, fieldElement_zero]
  · rintro rfl
    rw [toBytes, Subtype.mk.injEq, ZMod.val_zero]
    decide

end Donna

/-- **The vendored Diffie–Hellman commutes.** -/
theorem Curve25519.vendored_commutes : Curve25519.vendored.Commutes := by
  intro a b
  simp only [sharedSecret, generateKey, vendored]
  rw [Donna.donna_comm]

/-- **No public key of the vendored Curve25519 is zero.** -/
theorem Curve25519.vendored_neverZero : Curve25519.vendored.NeverZero := by
  intro secret hzero
  simp only [generateKey, vendored] at hzero
  rw [Donna.donna_eq, Donna.toBytes_eq_zero_iff, Donna.fieldElement_base] at hzero
  exact Donna.multiple_base_ne_zero secret hzero

/-! ## Points of low order -/

/-- A secret of one byte. -/
def Donna.secretOf (byte : UInt8) : FixedBytes 32 := ⟨byte :: List.replicate 31 0, rfl⟩

theorem Curve25519.vendored_sharedSecret (pair : Curve25519KeyPair) (point : FixedBytes 32) :
    Curve25519.vendored.sharedSecret pair point = Donna.donna pair.privateKey point := by
  simp only [sharedSecret, vendored]

section Zero

open Donna Montgomery

variable {K : Type*} [Field K] [DecidableEq K] (f : ZMod prime →+* K) {point : FixedBytes 32}
  {P : (curve (486662 : K)).Point} (hP : xOf P = f (fieldElement point))

include hP

theorem Donna.donna_eq_zero_iff (secret : FixedBytes 32) :
    donna secret point = FixedBytes.zero 32 ↔
      xOf (ofLittleEndian (clamp secret).val • P) = 0 := by
  rw [donna_eq, toBytes_eq_zero_iff, ← map_eq_zero f, ← map_multiple, map_ofNat, ← hP,
    multiple_xOf (two_ne_zero_of_map f) (discriminant_of_map f) a24_eq, number_secretBits]

/-- **The points that give zero to everyone** are those that eight times are
infinity or the point of order two at 0; the code does not refuse them. -/
theorem Curve25519.vendored_sharedSecret_zero_iff :
    (∀ pair, Curve25519.vendored.sharedSecret pair point = FixedBytes.zero 32) ↔
      xOf ((8 : ℕ) • P) = 0 := by
  have htwo := two_ne_zero_of_map f
  have hA := discriminant_of_map f
  constructor
  · intro hall
    have hzero : ∀ secret, xOf (ofLittleEndian (clamp secret).val • P) = 0 := by
      intro secret
      have hpair := hall ⟨FixedBytes.zero 32, secret⟩
      rw [vendored_sharedSecret] at hpair
      exact (donna_eq_zero_iff f hP secret).mp hpair
    have heven : ofLittleEndian (clamp (secretOf 0)).val = 2 ^ 254 := by decide +kernel
    have hodd : ofLittleEndian (clamp (secretOf 8)).val = 2 ^ 254 + 8 := by decide +kernel
    have hfirst := hzero (secretOf 0)
    have hsecond := hzero (secretOf 8)
    rw [heven] at hfirst
    rw [hodd] at hsecond
    have htwice := two_smul_of_xOf_eq_zero htwo hA hfirst
    have htwice' := two_smul_of_xOf_eq_zero htwo hA hsecond
    -- so sixteen times the point is infinity
    have hsixteen : (16 : ℕ) • P = 0 := by
      rw [add_smul, smul_add, htwice, zero_add, ← mul_smul] at htwice'
      exact htwice'
    have hmul : (2 : ℕ) ^ 254 = 2 ^ 250 * 16 := by norm_num
    rw [add_smul, hmul, mul_smul, hsixteen, smul_zero, zero_add] at hsecond
    exact hsecond
  · intro height pair
    rw [vendored_sharedSecret]
    refine (donna_eq_zero_iff f hP pair.privateKey).mpr ?_
    obtain ⟨⟨m, hm⟩, -, -⟩ := clamp_number pair.privateKey
    have htwice := two_smul_of_xOf_eq_zero htwo hA height
    rw [hm, mul_comm, mul_smul, ← Nat.div_add_mod' m 2, add_smul, mul_smul, htwice, smul_zero,
      zero_add]
    rcases Nat.mod_two_eq_zero_or_one m with heven | hodd
    · rw [heven, zero_smul, xOf_zero]
    · rw [hodd, one_smul, height]

end Zero

theorem Curve25519.vendored_sharedSecret_zero :
    Curve25519.vendored.sharedSecret (Curve25519.vendored.generateKey (Donna.secretOf 8))
      (FixedBytes.zero 32) = FixedBytes.zero 32 :=
  (Curve25519.vendored_sharedSecret_zero_iff (RingHom.id (ZMod Donna.prime)) (P := 0)
    Donna.fieldElement_zero.symm).mpr (by rw [smul_zero, Montgomery.xOf_zero]) _

end Olm
