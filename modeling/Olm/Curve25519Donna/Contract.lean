import Olm.Curve25519Donna.Expand

/-!
# The limbs that are stored

`fcontract` makes the limbs of a field element positive, gives each the bits
it has room for, and subtracts `2 ^ 255 - 19` if that is not more than what
they are. Two passes of each are enough: after the first one, only what came
round from the last limb to the first one is left.
-/

namespace Olm

namespace Donna

open Signed

/-- The integers are these numbers. -/
def Holding (v : Vector S32 10) (x : Fin 10 → ℤ) : Prop := ∀ i, (v.get i).Holds (x i)

variable {v : Vector S32 10} {x : Fin 10 → ℤ}

theorem Holding.set (h : Holding v x) (i : Fin 10) {a : S32} {y : ℤ} (ha : a.Holds y) :
    Holding (v.set i a i.isLt) (Function.update x i y) := by
  intro j
  change (v.set i a i.isLt)[j.val].Holds _
  rw [Vector.getElem_set]
  by_cases hij : j = i
  · subst hij
    rw [if_pos rfl, Function.update_self]
    exact ha
  · rw [if_neg fun heq => hij (Fin.ext heq.symm), Function.update_of_ne hij]
    exact h j

/-- A loop over the limbs, by what holds before each of its turns. -/
theorem foldl_finRange {σ : Type} {n : ℕ} (step : σ → Fin n → σ) (before : ℕ → σ → Prop)
    (hstep : ∀ i s, before i.val s → before (i.val + 1) (step s i)) {s : σ} (h : before 0 s) :
    before n ((List.finRange n).foldl step s) := by
  have hprefix : ∀ k, ∀ hk : k ≤ n,
      before k (((List.finRange n).take k).foldl step s) := by
    intro k
    induction k with
    | zero => exact fun _ => h
    | succ k ih =>
      intro hk
      have hlt : k < (List.finRange n).length := by rw [List.length_finRange]; omega
      rw [List.take_succ_eq_append_getElem hlt, List.foldl_append, List.foldl_cons, List.foldl_nil]
      have hget : (List.finRange n)[k] = ⟨k, by omega⟩ := by simp
      rw [hget]
      exact hstep ⟨k, by omega⟩ _ (ih (by omega))
  have hall := hprefix n le_rfl
  rwa [List.take_of_length_le (by rw [List.length_finRange])] at hall

/-! ## Borrowing -/

/-- What a negative limb borrows. -/
def borrowedOf (bits : ℕ) (y : ℤ) : ℤ := if y < 0 then -(y / 2 ^ bits) else 0

theorem sshiftRight_sign (c : BitVec 32) :
    c.sshiftRight 31 = if c.toInt < 0 then BitVec.allOnes 32 else 0 := by
  have hlo := BitVec.le_toInt c
  have hhi := BitVec.toInt_lt (x := c)
  have hones : (BitVec.allOnes 32).toInt = -1 := by decide
  have hzero : (0 : BitVec 32).toInt = 0 := by decide
  apply BitVec.eq_of_toInt_eq
  rw [BitVec.toInt_sshiftRight, Int.shiftRight_eq_div_pow]
  split
  · rw [hones]
    omega
  · rw [hzero]
    omega

theorem borrowed_holds {a : S32} {y : ℤ} (h : a.Holds y) {bits : ℕ} (hbits : bits = 26 ∨ bits = 25)
    (hy : -2 ^ 28 ≤ y) : (borrowed bits a).Holds (borrowedOf bits y) := by
  have hsign : (a &&& a >>> 31).Holds (if y < 0 then y else 0) := by
    obtain ⟨c, rfl, rfl⟩ := h
    refine ⟨c &&& c.sshiftRight 31, rfl, ?_⟩
    rw [sshiftRight_sign]
    split
    · rw [BitVec.and_allOnes]
    · exact congrArg BitVec.toInt BitVec.and_zero
  have hneg := (hsign.shiftRight bits).neg
    (by rcases hbits with rfl | rfl <;> split <;> omega)
  have heq : -((if y < 0 then y else 0) / 2 ^ bits) = borrowedOf bits y := by
    rw [borrowedOf]
    split
    · rfl
    · rw [Int.zero_ediv, neg_zero]
  rw [heq] at hneg
  exact hneg

/-- A turn of the first loop, on the numbers. -/
def borrowedTo (i : Fin 9) (x : Fin 10 → ℤ) : Fin 10 → ℤ :=
  let carry := borrowedOf (limbBits i) (x i.castSucc)
  Function.update (Function.update x i.castSucc (x i.castSucc + carry * 2 ^ limbBits i)) i.succ
    (x i.succ - carry)

/-- The limbs have room to borrow. -/
def Small (x : Fin 10 → ℤ) : Prop := ∀ i, -2 ^ 28 ≤ x i ∧ x i ≤ 2 ^ 28

theorem borrowedOf_bounds {bits : ℕ} (hbits : bits = 26 ∨ bits = 25) {y : ℤ} (hy : -2 ^ 28 ≤ y) :
    0 ≤ borrowedOf bits y ∧ borrowedOf bits y ≤ 8 ∧
      -2 ^ 28 ≤ y + borrowedOf bits y * 2 ^ bits ∧ borrowedOf bits y * 2 ^ bits < 2 ^ 29 ∧
      (y < 0 → y + borrowedOf bits y * 2 ^ bits = y % 2 ^ bits) ∧
      (0 ≤ y → borrowedOf bits y = 0) := by
  rw [borrowedOf]
  rcases hbits with rfl | rfl <;> split <;> omega

/-- Borrowing does not overflow. -/
theorem borrow_holding (h : Holding v x) (hsmall : Small x) (i : Fin 9) :
    Holding (borrow i v) (borrowedTo i x) := by
  have hone := hsmall i.castSucc
  have htwo := hsmall i.succ
  have hcarry := borrowed_holds (h i.castSucc) (limbBits_cases i) hone.1
  obtain ⟨hpos, hle, hlow, hshift, hneg, hzero⟩ := borrowedOf_bounds (limbBits_cases i) hone.1
  have hnonneg := mul_nonneg hpos (pow_nonneg (show (0 : ℤ) ≤ 2 by omega) (limbBits i))
  have hsum : x i.castSucc + borrowedOf (limbBits i) (x i.castSucc) * 2 ^ limbBits i < 2 ^ 31 := by
    omega
  have hset := h.set i.castSucc ((h i.castSucc).add
    (hcarry.shiftLeft (limbBits i) (by omega) (by omega)) (by omega) (by omega))
  have hnext := hset i.succ
  rw [Function.update_of_ne Fin.castSucc_lt_succ.ne'] at hnext
  exact hset.set i.succ (hnext.sub hcarry (by omega) (by omega))

theorem value_borrowedTo (i : Fin 9) : value (borrowedTo i x) = value x := by
  rw [borrowedTo, value_update, value_update, Function.update_of_ne Fin.castSucc_lt_succ.ne',
    Fin.val_castSucc, Fin.val_succ, exponent_succ, pow_add]
  ring

/-- The last limb borrows from the first one, on the numbers. -/
def borrowedToFirst (x : Fin 10 → ℤ) : Fin 10 → ℤ :=
  let carry := borrowedOf 25 (x 9)
  Function.update (Function.update x 9 (x 9 + carry * 2 ^ 25)) 0 (x 0 - carry * 19)

theorem borrowLast_holding (h : Holding v x) (hsmall : Small x) :
    Holding (borrowLast v) (borrowedToFirst x) := by
  have hone := hsmall 9
  have htwo := hsmall 0
  have hcarry := borrowed_holds (h 9) (.inr rfl) hone.1
  obtain ⟨hpos, hle, hlow, hshift, hneg, hzero⟩ := borrowedOf_bounds (.inr rfl) hone.1
  have hset := h.set 9 ((h 9).add (hcarry.shiftLeft 25 (by omega) (by omega)) (by omega) (by omega))
  have hfirst := hset 0
  rw [Function.update_of_ne (by decide)] at hfirst
  have hnineteen : Holds (19 : S32) 19 := holds_ofNat (by norm_num)
  exact hset.set 0 (hfirst.sub (hcarry.mul hnineteen (by omega) (by omega)) (by omega) (by omega))

theorem value_borrowedToFirst :
    value (borrowedToFirst x) = value x + (2 ^ 255 - 19) * borrowedOf 25 (x 9) := by
  rw [borrowedToFirst, value_update, value_update, Function.update_of_ne (by decide)]
  norm_num [exponent]
  ring

theorem borrowedTo_apply (i : Fin 9) (x : Fin 10 → ℤ) (j : Fin 10) :
    borrowedTo i x j =
      if j = i.succ then x i.succ - borrowedOf (limbBits i) (x i.castSucc)
      else if j = i.castSucc then
        x i.castSucc + borrowedOf (limbBits i) (x i.castSucc) * 2 ^ limbBits i
      else x j := by
  rw [borrowedTo, Function.update_apply, Function.update_apply]

/-- A limb that is not negative borrows nothing. -/
theorem borrowedTo_of_nonneg {i : Fin 9} (h : 0 ≤ x i.castSucc) : borrowedTo i x = x := by
  simp only [borrowedTo, borrowedOf, if_neg (not_lt.mpr h), zero_mul, add_zero, sub_zero,
    Function.update_eq_self]

theorem borrowedToFirst_apply (x : Fin 10 → ℤ) (j : Fin 10) :
    borrowedToFirst x j =
      if j = 0 then x 0 - borrowedOf 25 (x 9) * 19
      else if j = 9 then x 9 + borrowedOf 25 (x 9) * 2 ^ 25
      else x j := by
  rw [borrowedToFirst, Function.update_apply, Function.update_apply]

/-- What a limb is after it has borrowed. -/
theorem borrowedOf_cases {bits : ℕ} (hbits : bits = 26 ∨ bits = 25) (y : ℤ) :
    0 ≤ y ∧ borrowedOf bits y = 0 ∧ borrowedOf bits y * 2 ^ bits = 0 ∨
      y < 0 ∧ 1 ≤ borrowedOf bits y ∧ 0 ≤ y + borrowedOf bits y * 2 ^ bits ∧
        y + borrowedOf bits y * 2 ^ bits < 2 ^ bits ∧
        (-2 ^ bits ≤ y → borrowedOf bits y = 1) ∧
        (-(2 ^ 26 + 2) ≤ y → borrowedOf bits y ≤ 3) := by
  rw [borrowedOf]
  rcases hbits with rfl | rfl <;> split <;> omega

/-- The bounds in the first pass: limb `k` is the only one that was borrowed
from and has not borrowed. -/
def FirstBorrow (k : ℕ) (x : Fin 10 → ℤ) : Prop :=
  ∀ j, x j ≤ 2 ^ 26 - 1 ∧
    (if j.val < k then 0 else if j.val = k then -(2 ^ 26 + 2) else -(2 ^ 26 - 1)) ≤ x j

theorem FirstBorrow.step {i : Fin 9} (h : FirstBorrow i x) : FirstBorrow (i + 1) (borrowedTo i x) := by
  have hone := h i.castSucc
  have htwo := h i.succ
  have hcases := borrowedOf_cases (limbBits_cases i) (x i.castSucc)
  have hpow := two_pow_limbBits_le i
  simp only [Fin.val_castSucc, Fin.val_succ, lt_irrefl, if_true, if_false] at hone htwo
  intro j
  rw [borrowedTo_apply]
  by_cases hsucc : j = i.succ
  · subst hsucc
    simp only [Fin.val_succ, lt_irrefl, if_true, if_false]
    split at htwo <;> omega
  · rw [if_neg hsucc]
    have hne : j.val ≠ i.val + 1 := fun heq => hsucc (Fin.ext heq)
    by_cases hcast : j = i.castSucc
    · subst hcast
      simp only [Fin.val_castSucc, Nat.lt_succ_self, if_true]
      omega
    · rw [if_neg hcast]
      have hne' : j.val ≠ i.val := fun heq => hcast (Fin.ext heq)
      have hj := h j
      split at hj <;> split <;> omega

/-- The bounds in the second pass: only limb `k` may be negative, and where it
had to lend, the first one is high. -/
def SecondBorrow (k : ℕ) (x : Fin 10 → ℤ) : Prop :=
  ∀ j, x j ≤ 2 ^ 26 - 1 ∧ (j.val ≠ k → 0 ≤ x j) ∧
    (j.val = k → -57 ≤ x j ∧ (k ≠ 0 → -1 ≤ x j ∧ (x j < 0 → 2 ^ 26 - 57 ≤ x 0)))

theorem FirstBorrow.last (h : FirstBorrow 9 x) : SecondBorrow 0 (borrowedToFirst x) := by
  have hnine := h 9
  have hzero := h 0
  have hcases := borrowedOf_cases (.inr rfl) (x 9)
  simp only [Fin.isValue, Fin.coe_ofNat_eq_mod, Nat.reduceMod, lt_irrefl, if_false, if_true,
    Nat.zero_mod, Nat.ofNat_pos] at hnine hzero
  intro j
  have hj := h j
  rw [borrowedToFirst_apply]
  by_cases hfirst : j = 0
  · subst hfirst
    simp only [Fin.val_zero, if_true]
    omega
  · have hne : j.val ≠ 0 := fun heq => hfirst (Fin.ext heq)
    rw [if_neg hfirst]
    by_cases hlast : j = 9
    · rw [if_pos hlast]
      omega
    · have hne' : j.val ≠ 9 := fun heq => hlast (Fin.ext heq)
      rw [if_neg hlast]
      split at hj <;> omega

theorem SecondBorrow.step {i : Fin 9} (h : SecondBorrow i x) :
    SecondBorrow (i + 1) (borrowedTo i x) := by
  obtain ⟨hhi, -, hlo⟩ := h i.castSucc
  obtain ⟨hle, hmore⟩ := hlo rfl
  obtain ⟨hhi', hlo', -⟩ := h i.succ
  have hnonneg := hlo' (by rw [Fin.val_succ]; omega)
  have hcases := borrowedOf_cases (limbBits_cases i) (x i.castSucc)
  have hpow := two_pow_limbBits_le i
  have hpow' : (57 : ℤ) ≤ 2 ^ limbBits i := by
    rcases limbBits_cases i with hbits | hbits <;> rw [hbits] <;> norm_num
  have hwide : i.val = 0 → (2 : ℤ) ^ limbBits i = 2 ^ 26 := fun heq => by rw [heq]; rfl
  have hprod : borrowedOf (limbBits i) (x i.castSucc) = 1 →
      borrowedOf (limbBits i) (x i.castSucc) * 2 ^ limbBits i = 2 ^ limbBits i := fun heq => by
    rw [heq, one_mul]
  -- the first limb after the turn
  have hfirst : borrowedTo i x 0 = if i.val = 0 then x i.castSucc +
      borrowedOf (limbBits i) (x i.castSucc) * 2 ^ limbBits i else x 0 := by
    rw [borrowedTo_apply, if_neg (Fin.succ_ne_zero i).symm]
    by_cases hi : i.val = 0
    · rw [if_pos hi, if_pos (Fin.ext hi.symm)]
    · rw [if_neg hi, if_neg fun heq => hi (congrArg Fin.val heq).symm]
  intro j
  have hj := h j
  rw [hfirst, borrowedTo_apply]
  by_cases hsucc : j = i.succ
  · subst hsucc
    rw [if_pos rfl]
    refine ⟨by omega, fun hne => absurd (Fin.val_succ i) hne, fun _ => ⟨by omega, fun _ => ?_⟩⟩
    by_cases hi : i.val = 0
    · rw [if_pos hi]
      omega
    · have hmore := hmore hi
      rw [if_neg hi]
      omega
  · have hne : j.val ≠ i.val + 1 := fun heq => hsucc (Fin.ext heq)
    rw [if_neg hsucc]
    by_cases hcast : j = i.castSucc
    · rw [if_pos hcast]
      omega
    · have hne' : j.val ≠ i.val := fun heq => hcast (Fin.ext heq)
      rw [if_neg hcast]
      omega

/-- No limb is negative after the second pass. -/
def Settled (x : Fin 10 → ℤ) : Prop := ∀ j, 0 ≤ x j ∧ x j ≤ 2 ^ 26 - 1

theorem SecondBorrow.last (h : SecondBorrow 9 x) : Settled (borrowedToFirst x) := by
  obtain ⟨hhi, -, hlo⟩ := h 9
  obtain ⟨-, hmore⟩ := hlo rfl
  have hmore := hmore (by omega)
  obtain ⟨hhi', hnonneg, -⟩ := h 0
  have hnonneg := hnonneg (by decide)
  have hcases := borrowedOf_cases (.inr rfl) (x 9)
  intro j
  have hj := h j
  rw [borrowedToFirst_apply]
  by_cases hfirst : j = 0
  · rw [if_pos hfirst]
    omega
  · rw [if_neg hfirst]
    by_cases hlast : j = 9
    · rw [if_pos hlast]
      omega
    · have hne : j.val ≠ 9 := fun heq => hlast (Fin.ext heq)
      rw [if_neg hlast]
      omega

/-! ## Passes -/

/-- The integers are limbs of the field element, with such numbers. -/
def Stands (v : Vector S32 10) (u : ZMod prime) (P : (Fin 10 → ℤ) → Prop) : Prop :=
  ∃ x, Holding v x ∧ P x ∧ ((value x : ℤ) : ZMod prime) = u

/-- A pass of borrowing, by the bounds before each of its turns. -/
theorem Stands.borrowPass {u : ZMod prime} {before : ℕ → (Fin 10 → ℤ) → Prop}
    {after : (Fin 10 → ℤ) → Prop} (hsmall : ∀ k x, before k x → Small x)
    (hstep : ∀ (i : Fin 9) x, before i x → before (i + 1) (borrowedTo i x))
    (hlast : ∀ x, before 9 x → after (borrowedToFirst x)) (h : Stands v u (before 0)) :
    Stands (borrowPass v) u after := by
  have hloop : Stands ((List.finRange 9).foldl (fun v i => borrow i v) v) u (before 9) := by
    refine foldl_finRange _ (fun k v => Stands v u (before k)) ?_ h
    rintro i v ⟨x, hx, hbefore, hvalue⟩
    exact ⟨borrowedTo i x, borrow_holding hx (hsmall _ _ hbefore) i, hstep i x hbefore, by
      rw [value_borrowedTo, hvalue]⟩
  obtain ⟨x, hx, hbefore, hvalue⟩ := hloop
  exact ⟨borrowedToFirst x, borrowLast_holding hx (hsmall _ _ hbefore), hlast x hbefore, by
    rw [cast_eq_of_sub value_borrowedToFirst, hvalue]⟩

/-! ## Carrying -/

theorem mask_holds {a mask : S32} {y : ℤ} (h : a.Holds y) (hy : 0 ≤ y) {bits : ℕ}
    (hbits : bits ≤ 31) (hmask : mask = some (BitVec.ofNat 32 (2 ^ bits - 1))) :
    (a &&& mask).Holds (y % 2 ^ bits) := by
  obtain ⟨c, rfl, rfl⟩ := h
  subst hmask
  have hpos := Nat.two_pow_pos bits
  have hpow : 2 ^ bits ≤ 2 ^ 31 := Nat.pow_le_pow_right (by omega) hbits
  have hcases := BitVec.toInt_eq_toNat_cond c
  have hnat : c.toInt = c.toNat := by
    have hlt := c.isLt
    split at hcases <;> omega
  have hand : (c &&& BitVec.ofNat 32 (2 ^ bits - 1)).toNat = c.toNat % 2 ^ bits := by
    rw [BitVec.toNat_and, BitVec.toNat_ofNat, Nat.mod_eq_of_lt (by omega),
      Nat.and_two_pow_sub_one_eq_mod]
  have hlt := Nat.mod_lt c.toNat hpos
  refine ⟨c &&& BitVec.ofNat 32 (2 ^ bits - 1), rfl, ?_⟩
  rw [BitVec.toInt_eq_toNat_of_lt (by omega), hand, hnat]
  push_cast
  rfl

theorem limbMask_eq (i : ℕ) : limbMask i = some (BitVec.ofNat 32 (2 ^ limbBits i - 1)) := by
  rw [limbMask, limbBits]
  split <;> rfl

/-- A turn of the second loop, on the numbers. -/
def carriedTo (i : Fin 9) (x : Fin 10 → ℤ) : Fin 10 → ℤ :=
  Function.update (Function.update x i.castSucc (x i.castSucc % 2 ^ limbBits i)) i.succ
    (x i.succ + x i.castSucc / 2 ^ limbBits i)

theorem carriedTo_apply (i : Fin 9) (x : Fin 10 → ℤ) (j : Fin 10) :
    carriedTo i x j =
      if j = i.succ then x i.succ + x i.castSucc / 2 ^ limbBits i
      else if j = i.castSucc then x i.castSucc % 2 ^ limbBits i
      else x j := by
  rw [carriedTo, Function.update_apply, Function.update_apply]

/-- No limb is negative, nor so high that a carry does not fit. -/
def Positive (x : Fin 10 → ℤ) : Prop := ∀ i, 0 ≤ x i ∧ x i ≤ 2 ^ 28

theorem div_limbBits {i : ℕ} {y : ℤ} (hy : 0 ≤ y ∧ y ≤ 2 ^ 28) :
    0 ≤ y / 2 ^ limbBits i ∧ y / 2 ^ limbBits i ≤ 8 := by
  rcases limbBits_cases i with hbits | hbits <;> rw [hbits] <;> omega

theorem carry_holding (h : Holding v x) (hpos : Positive x) (i : Fin 9) :
    Holding (carry i v) (carriedTo i x) := by
  have hone := hpos i.castSucc
  have htwo := hpos i.succ
  have hbits : limbBits i ≤ 31 := by
    rcases limbBits_cases i with hbits | hbits <;> omega
  have hdiv := div_limbBits (i := i) hone
  have hset := h.set i.castSucc (mask_holds (h i.castSucc) hone.1 hbits (limbMask_eq i))
  have hnext := hset i.succ
  rw [Function.update_of_ne Fin.castSucc_lt_succ.ne'] at hnext
  exact hset.set i.succ (hnext.add ((h i.castSucc).shiftRight (limbBits i)) (by omega) (by omega))

theorem value_carriedTo (i : Fin 9) : value (carriedTo i x) = value x := by
  rw [carriedTo, value_update, value_update, Function.update_of_ne Fin.castSucc_lt_succ.ne',
    Fin.val_castSucc, Fin.val_succ, exponent_succ, pow_add]
  linear_combination 2 ^ exponent i * Int.emod_add_mul_ediv (x i.castSucc) (2 ^ limbBits i)

/-- The last limb carries to the first one, on the numbers. -/
def carriedToFirst (x : Fin 10 → ℤ) : Fin 10 → ℤ :=
  Function.update (Function.update x 9 (x 9 % 2 ^ 25)) 0 (x 0 + 19 * (x 9 / 2 ^ 25))

theorem carriedToFirst_apply (x : Fin 10 → ℤ) (j : Fin 10) :
    carriedToFirst x j =
      if j = 0 then x 0 + 19 * (x 9 / 2 ^ 25) else if j = 9 then x 9 % 2 ^ 25 else x j := by
  rw [carriedToFirst, Function.update_apply, Function.update_apply]

theorem carryLast_holding (h : Holding v x) (hpos : Positive x) :
    Holding (carryLast v) (carriedToFirst x) := by
  have hone := hpos 9
  have htwo := hpos 0
  have hset := h.set 9 (mask_holds (h 9) hone.1 (show 25 ≤ 31 by omega) (limbMask_eq 9))
  have hfirst := hset 0
  rw [Function.update_of_ne (by decide)] at hfirst
  have hnineteen : Holds (19 : S32) 19 := holds_ofNat (by norm_num)
  exact hset.set 0 (hfirst.add (hnineteen.mul ((h 9).shiftRight 25) (by omega) (by omega))
    (by omega) (by omega))

theorem value_carriedToFirst :
    value x = value (carriedToFirst x) + (2 ^ 255 - 19) * (x 9 / 2 ^ 25) := by
  rw [carriedToFirst, value_update, value_update, Function.update_of_ne (by decide)]
  have hdiv := Int.emod_add_mul_ediv (x 9) (2 ^ 25)
  norm_num [exponent] at hdiv ⊢
  linear_combination -(2 ^ 230 : ℤ) * hdiv

/-- The bounds in the first pass: the limbs below `k` have their bits. -/
def FirstCarry (k : ℕ) (x : Fin 10 → ℤ) : Prop :=
  ∀ j, 0 ≤ x j ∧ (j.val < k → x j < 2 ^ limbBits j) ∧ x j ≤ 2 ^ 26 + 1 ∧
    (k < j.val → x j ≤ 2 ^ 26 - 1)

/-- The bounds in the second pass: only limb `k` may have more, and where it
was carried to, the first one is low. -/
def SecondCarry (k : ℕ) (x : Fin 10 → ℤ) : Prop :=
  ∀ j, 0 ≤ x j ∧ (j.val ≠ k → x j < 2 ^ limbBits j) ∧
    (j.val = k → x j ≤ 2 ^ 26 + 37 ∧
      (k ≠ 0 → x j ≤ 2 ^ limbBits j ∧ (2 ^ limbBits j ≤ x j → x 0 ≤ 37)))

theorem FirstCarry.step {i : Fin 9} (h : FirstCarry i x) : FirstCarry (i + 1) (carriedTo i x) := by
  obtain ⟨hlo, -, hhi, -⟩ := h i.castSucc
  obtain ⟨hlo', -, -, hhi'⟩ := h i.succ
  have hhi' := hhi' (by rw [Fin.val_succ]; omega)
  intro j
  have hj := h j
  rw [carriedTo_apply]
  by_cases hsucc : j = i.succ
  · subst hsucc
    rw [if_pos rfl]
    have hval := Fin.val_succ i
    rcases limbBits_cases i with hbits | hbits <;> rw [hbits] <;>
      exact ⟨by omega, fun hlt => by omega, by omega, fun hlt => by omega⟩
  · have hne : j.val ≠ i.val + 1 := fun heq => hsucc (Fin.ext heq)
    rw [if_neg hsucc]
    by_cases hcast : j = i.castSucc
    · subst hcast
      rw [if_pos rfl, Fin.val_castSucc]
      rcases limbBits_cases i with hbits | hbits <;> rw [hbits] <;> omega
    · have hne' : j.val ≠ i.val := fun heq => hcast (Fin.ext heq)
      rw [if_neg hcast]
      exact ⟨hj.1, fun hlt => hj.2.1 (by omega), hj.2.2.1, fun hlt => hj.2.2.2 (by omega)⟩

theorem FirstCarry.last (h : FirstCarry 9 x) : SecondCarry 0 (carriedToFirst x) := by
  obtain ⟨hlo, -, hhi, -⟩ := h 9
  obtain ⟨hlo', hhi', -, -⟩ := h 0
  have hhi' : x 0 < 2 ^ 26 := hhi' (by decide)
  intro j
  have hj := h j
  rw [carriedToFirst_apply]
  by_cases hfirst : j = 0
  · subst hfirst
    rw [if_pos rfl]
    exact ⟨by omega, fun hne => absurd rfl hne, fun _ => ⟨by omega, fun hne => absurd rfl hne⟩⟩
  · have hne : j.val ≠ 0 := fun heq => hfirst (Fin.ext heq)
    rw [if_neg hfirst]
    by_cases hlast : j = 9
    · subst hlast
      rw [if_pos rfl]
      exact ⟨by omega, fun _ => Int.emod_lt_of_pos _ (by norm_num), fun heq => absurd heq hne⟩
    · have hne' : j.val ≠ 9 := fun heq => hlast (Fin.ext heq)
      rw [if_neg hlast]
      exact ⟨hj.1, fun _ => hj.2.1 (by omega), fun heq => absurd heq hne⟩

/-- What a limb carries that has at most one bit too many. -/
theorem carried_cases {i : ℕ} {y : ℤ} (hlo : 0 ≤ y) (hhi : y < 2 * 2 ^ limbBits i) :
    y < 2 ^ limbBits i ∧ y / 2 ^ limbBits i = 0 ∧ y % 2 ^ limbBits i = y ∨
      2 ^ limbBits i ≤ y ∧ y / 2 ^ limbBits i = 1 ∧ y % 2 ^ limbBits i = y - 2 ^ limbBits i := by
  rcases limbBits_cases i with hbits | hbits
  · rw [hbits] at hhi ⊢
    omega
  · rw [hbits] at hhi ⊢
    omega

theorem SecondCarry.step {i : Fin 9} (h : SecondCarry i x) :
    SecondCarry (i + 1) (carriedTo i x) := by
  obtain ⟨hlo, -, hhi⟩ := h i.castSucc
  obtain ⟨hle, hmore⟩ := hhi rfl
  obtain ⟨hlo', hhi', -⟩ := h i.succ
  have hhi' := hhi' (by rw [Fin.val_succ]; omega)
  rw [Fin.val_castSucc] at hmore
  have hpow := two_pow_limbBits_le i
  have hpow' := two_pow_limbBits_le i.succ
  have hsmall : (2 : ℤ) ^ 25 ≤ 2 ^ limbBits i := by
    rcases limbBits_cases i with hbits | hbits
    · rw [hbits]
      norm_num
    · rw [hbits]
  have hwide : i.val = 0 → (2 : ℤ) ^ limbBits i = 2 ^ 26 := fun heq => by rw [heq]; rfl
  have hcases := carried_cases (i := i) hlo (by
    by_cases hi : i.val = 0
    · have := hwide hi
      omega
    · have := (hmore hi).1
      omega)
  -- the first limb after the turn
  have hfirst : carriedTo i x 0 =
      if i.val = 0 then x i.castSucc % 2 ^ limbBits i else x 0 := by
    rw [carriedTo_apply, if_neg (Fin.succ_ne_zero i).symm]
    by_cases hi : i.val = 0
    · rw [if_pos hi, if_pos (Fin.ext hi.symm)]
    · rw [if_neg hi, if_neg fun heq => hi (congrArg Fin.val heq).symm]
  intro j
  have hj := h j
  rw [hfirst, carriedTo_apply]
  by_cases hsucc : j = i.succ
  · subst hsucc
    rw [if_pos rfl]
    refine ⟨by omega, fun hne => absurd (Fin.val_succ i) hne, fun _ => ⟨by omega, fun _ => ?_⟩⟩
    refine ⟨by omega, fun hge => ?_⟩
    by_cases hi : i.val = 0
    · rw [if_pos hi]
      omega
    · have hmore := (hmore hi).2
      rw [if_neg hi]
      omega
  · have hne : j.val ≠ i.val + 1 := fun heq => hsucc (Fin.ext heq)
    rw [if_neg hsucc]
    by_cases hcast : j = i.castSucc
    · subst hcast
      rw [if_pos rfl, Fin.val_castSucc]
      exact ⟨by omega, fun _ => by omega, fun heq => by omega⟩
    · have hne' : j.val ≠ i.val := fun heq => hcast (Fin.ext heq)
      rw [if_neg hcast]
      exact ⟨hj.1, fun _ => hj.2.1 hne', fun heq => absurd heq hne⟩

/-- Each limb has the bits that it has room for. -/
def Canonical (x : Fin 10 → ℤ) : Prop := ∀ j : Fin 10, 0 ≤ x j ∧ x j < 2 ^ limbBits j

theorem SecondCarry.last (h : SecondCarry 9 x) : Canonical (carriedToFirst x) := by
  obtain ⟨hlo, -, hhi⟩ := h 9
  obtain ⟨-, hmore⟩ := hhi rfl
  obtain ⟨hle, hmore⟩ := hmore (by omega)
  obtain ⟨hlo', hhi', -⟩ := h 0
  have hhi' : x 0 < 2 ^ 26 := hhi' (by decide)
  have hbits : (2 : ℤ) ^ limbBits (9 : Fin 10) = 2 ^ 25 := rfl
  rw [hbits] at hle hmore
  intro j
  have hj := h j
  rw [carriedToFirst_apply]
  by_cases hfirst : j = 0
  · subst hfirst
    have hbits' : (2 : ℤ) ^ limbBits (0 : Fin 10) = 2 ^ 26 := rfl
    rw [if_pos rfl, hbits']
    omega
  · rw [if_neg hfirst]
    by_cases hlast : j = 9
    · subst hlast
      rw [if_pos rfl, hbits]
      omega
    · have hne : j.val ≠ 9 := fun heq => hlast (Fin.ext heq)
      rw [if_neg hlast]
      exact ⟨hj.1, hj.2.1 hne⟩

/-- A pass of carrying, by the bounds before each of its turns. -/
theorem Stands.carryPass {u : ZMod prime} {before : ℕ → (Fin 10 → ℤ) → Prop}
    {after : (Fin 10 → ℤ) → Prop} (hpos : ∀ k x, before k x → Positive x)
    (hstep : ∀ (i : Fin 9) x, before i x → before (i + 1) (carriedTo i x))
    (hlast : ∀ x, before 9 x → after (carriedToFirst x)) (h : Stands v u (before 0)) :
    Stands (carryPass v) u after := by
  have hloop : Stands ((List.finRange 9).foldl (fun v i => carry i v) v) u (before 9) := by
    refine foldl_finRange _ (fun k v => Stands v u (before k)) ?_ h
    rintro i v ⟨x, hx, hbefore, hvalue⟩
    exact ⟨carriedTo i x, carry_holding hx (hpos _ _ hbefore) i, hstep i x hbefore, by
      rw [value_carriedTo, hvalue]⟩
  obtain ⟨x, hx, hbefore, hvalue⟩ := hloop
  exact ⟨carriedToFirst x, carryLast_holding hx (hpos _ _ hbefore), hlast x hbefore, by
    rw [← cast_eq_of_sub value_carriedToFirst, hvalue]⟩

/-! ## The conditional subtraction -/

/-- The bits of a mask: all, or none. -/
def maskOf (p : Prop) [Decidable p] : ℤ := if p then -1 else 0

theorem mask_and {a b : S32} {p : Prop} [Decidable p] {y : ℤ} (h : a.Holds (maskOf p))
    (h' : b.Holds y) : (a &&& b).Holds (if p then y else 0) := by
  obtain ⟨c, rfl, hc⟩ := h
  obtain ⟨d, rfl, rfl⟩ := h'
  refine ⟨c &&& d, rfl, ?_⟩
  have hones : (BitVec.allOnes 32).toInt = -1 := by decide
  have hzero : (0 : BitVec 32).toInt = 0 := by decide
  by_cases hp : p
  · rw [maskOf, if_pos hp, ← hones] at hc
    rw [if_pos hp, BitVec.toInt_inj.mp hc, BitVec.allOnes_and]
  · rw [maskOf, if_neg hp, ← hzero] at hc
    rw [if_neg hp, BitVec.toInt_inj.mp hc]
    exact congrArg BitVec.toInt BitVec.zero_and

theorem maskOf_and {a b : S32} {p q : Prop} [Decidable p] [Decidable q] (h : a.Holds (maskOf p))
    (h' : b.Holds (maskOf q)) : (a &&& b).Holds (maskOf (p ∧ q)) := by
  have hand := mask_and h h'
  rwa [maskOf, ← ite_and] at hand

theorem maskOf_congr {a : S32} {p q : Prop} [Decidable p] [Decidable q] (h : p ↔ q) :
    a.Holds (maskOf p) ↔ a.Holds (maskOf q) := by
  rw [maskOf, maskOf, if_congr h rfl rfl]

theorem not_sign_holds {a : S32} {y : ℤ} (h : a.Holds y) :
    (~~~(a >>> 31)).Holds (maskOf (0 ≤ y)) := by
  obtain ⟨c, rfl, rfl⟩ := h
  refine ⟨~~~c.sshiftRight 31, rfl, ?_⟩
  rw [sshiftRight_sign, maskOf]
  by_cases hneg : c.toInt < 0
  · rw [if_pos hneg, if_neg (by omega)]
    decide
  · rw [if_neg hneg, if_pos (by omega)]
    decide

/-- **`s32_gte`**, where the difference has no overflow. -/
theorem s32Gte_holds {a b : S32} {y z : ℤ} (h : a.Holds y) (h' : b.Holds z)
    (hlo : -2 ^ 31 ≤ y - z) (hhi : y - z < 2 ^ 31) : (s32Gte a b).Holds (maskOf (0 ≤ y - z)) :=
  not_sign_holds (h.sub h' hlo hhi)

/-- The steps of `s32_eq`: the highest bit is left where all bits are ones. -/
def allBits (c : BitVec 32) : BitVec 32 :=
  let c := c &&& c <<< 16
  let c := c &&& c <<< 8
  let c := c &&& c <<< 4
  let c := c &&& c <<< 2
  c &&& c <<< 1

theorem getLsbD_of_and_shift {c : BitVec 32} {k i : ℕ} (h : (c &&& c <<< k).getLsbD i = true) (j : ℕ)
    (hj : j ≤ 1) : c.getLsbD (i - k * j) = true := by
  simp only [BitVec.getLsbD_and, BitVec.getLsbD_shiftLeft, Bool.and_eq_true] at h
  rcases Nat.le_one_iff_eq_zero_or_eq_one.mp hj with rfl | rfl
  · exact h.1
  · rw [mul_one]
    exact h.2.2

theorem allBits_msb {c : BitVec 32} (h : (allBits c).getLsbD 31 = true) : c = BitVec.allOnes 32 := by
  refine BitVec.eq_of_getLsbD_eq fun i hi => ?_
  rw [BitVec.getLsbD_allOnes, decide_eq_true hi]
  -- the place of the bit in base 2, from the highest one
  have hbit := getLsbD_of_and_shift (getLsbD_of_and_shift (getLsbD_of_and_shift
    (getLsbD_of_and_shift (getLsbD_of_and_shift h ((31 - i) % 2) (by omega)) ((31 - i) / 2 % 2)
    (by omega)) ((31 - i) / 4 % 2) (by omega)) ((31 - i) / 8 % 2) (by omega)) ((31 - i) / 16)
    (by omega)
  rwa [show 31 - 1 * ((31 - i) % 2) - 2 * ((31 - i) / 2 % 2) - 4 * ((31 - i) / 4 % 2) -
    8 * ((31 - i) / 8 % 2) - 16 * ((31 - i) / 16) = i by omega] at hbit

/-- **`s32_eq`.** -/
theorem s32Eq_holds {a b : S32} {y z : ℤ} (h : a.Holds y) (h' : b.Holds z) :
    (s32Eq a b).Holds (maskOf (y = z)) := by
  obtain ⟨c, rfl, rfl⟩ := h
  obtain ⟨d, rfl, rfl⟩ := h'
  refine ⟨(allBits (~~~(c ^^^ d))).sshiftRight 31, rfl, ?_⟩
  rw [maskOf]
  by_cases heq : c = d
  · rw [if_pos (congrArg BitVec.toInt heq), heq, BitVec.xor_self]
    decide
  · rw [if_neg fun hint => heq (BitVec.toInt_inj.mp hint), sshiftRight_sign, if_neg]
    · decide
    · rw [BitVec.toInt_neg_iff]
      intro hneg
      have hmsb : (allBits (~~~(c ^^^ d))).getLsbD 31 = true := by
        rw [← BitVec.msb_eq_getLsbD_last, BitVec.msb_eq_decide, decide_eq_true_eq]
        omega
      have hnot := congrArg (~~~ ·) (allBits_msb hmsb)
      simp only [BitVec.not_not, BitVec.not_allOnes] at hnot
      exact heq (BitVec.xor_eq_zero_iff.mp hnot)

/-- The limbs of `2 ^ 255 - 19`. -/
def primeLimb (j : Fin 10) : ℤ := if j.val = 0 then 0x3ffffed else 2 ^ limbBits j - 1

/-- The limbs are those of `2 ^ 255 - 19` or more. -/
def Over (x : Fin 10 → ℤ) : Prop := 0 ≤ x 0 - 0x3ffffed ∧ ∀ i : Fin 9, x i.succ = primeLimb i.succ

instance : Decidable (Over x) := inferInstanceAs (Decidable (_ ∧ _))

theorem value_expanded (x : Fin 10 → ℤ) :
    value x = x 0 + x 1 * 2 ^ 26 + x 2 * 2 ^ 51 + x 3 * 2 ^ 77 + x 4 * 2 ^ 102 + x 5 * 2 ^ 128 +
      x 6 * 2 ^ 153 + x 7 * 2 ^ 179 + x 8 * 2 ^ 204 + x 9 * 2 ^ 230 := by
  simp [value, Fin.sum_univ_succ, exponent]
  ring

theorem over_iff (hx : Canonical x) : Over x ↔ (prime : ℤ) ≤ value x := by
  have h0 : 0 ≤ x 0 ∧ x 0 < 2 ^ 26 := hx 0
  have h1 : 0 ≤ x 1 ∧ x 1 < 2 ^ 25 := hx 1
  have h2 : 0 ≤ x 2 ∧ x 2 < 2 ^ 26 := hx 2
  have h3 : 0 ≤ x 3 ∧ x 3 < 2 ^ 25 := hx 3
  have h4 : 0 ≤ x 4 ∧ x 4 < 2 ^ 26 := hx 4
  have h5 : 0 ≤ x 5 ∧ x 5 < 2 ^ 25 := hx 5
  have h6 : 0 ≤ x 6 ∧ x 6 < 2 ^ 26 := hx 6
  have h7 : 0 ≤ x 7 ∧ x 7 < 2 ^ 25 := hx 7
  have h8 : 0 ≤ x 8 ∧ x 8 < 2 ^ 26 := hx 8
  have h9 : 0 ≤ x 9 ∧ x 9 < 2 ^ 25 := hx 9
  have hover : Over x ↔ 0 ≤ x 0 - 0x3ffffed ∧ x 1 = 2 ^ 25 - 1 ∧ x 2 = 2 ^ 26 - 1 ∧
      x 3 = 2 ^ 25 - 1 ∧ x 4 = 2 ^ 26 - 1 ∧ x 5 = 2 ^ 25 - 1 ∧ x 6 = 2 ^ 26 - 1 ∧
      x 7 = 2 ^ 25 - 1 ∧ x 8 = 2 ^ 26 - 1 ∧ x 9 = 2 ^ 25 - 1 := by
    simp [Over, Fin.forall_fin_succ, primeLimb, limbBits]
  rw [hover, value_expanded, show ((prime : ℕ) : ℤ) = 2 ^ 255 - 19 by norm_num [prime]]
  omega

theorem value_primeLimb : value primeLimb = prime := by decide +kernel

theorem primeLimb_bounds (j : Fin 10) : 0 ≤ primeLimb j ∧ primeLimb j < 2 ^ limbBits j := by
  revert j
  decide +kernel

theorem limbMask_holds (j : Fin 10) : (limbMask j).Holds (2 ^ limbBits j - 1) := by
  rw [limbMask_eq]
  refine ⟨_, rfl, ?_⟩
  rcases limbBits_cases j with hbits | hbits
  · rw [hbits]
    decide
  · rw [hbits]
    decide

theorem primeLimb_succ (i : Fin 9) : primeLimb i.succ = 2 ^ limbBits i.succ - 1 := if_neg (by
  rw [Fin.val_succ]
  omega)

theorem overMask_holds (h : Holding v x) (hx : Canonical x) :
    (overMask v).Holds (maskOf (Over x)) := by
  have hfirst := hx 0
  have hbits : (2 : ℤ) ^ limbBits (0 : Fin 10) = 2 ^ 26 := rfl
  have hnum : Holds (0x3ffffed : S32) 0x3ffffed := holds_ofNat (by norm_num)
  have hstart := s32Gte_holds (h 0) hnum (by omega) (by omega)
  have hloop := foldl_finRange
    (fun mask (i : Fin 9) => mask &&& s32Eq v[i.succ] (limbMask i.succ))
    (fun k mask => mask.Holds
      (maskOf (0 ≤ x 0 - 0x3ffffed ∧ ∀ i : Fin 9, i.val < k → x i.succ = primeLimb i.succ)))
    (fun i mask hmask => ?_) (s := s32Gte v[0] 0x3ffffed)
    ((maskOf_congr (by simp)).mp hstart)
  · exact (maskOf_congr (by simp [Over])).mp hloop
  · refine (maskOf_congr ?_).mp (maskOf_and hmask (s32Eq_holds (h i.succ) (limbMask_holds i.succ)))
    rw [← primeLimb_succ, and_assoc]
    refine and_congr_right fun _ => ⟨fun hall j hj => ?_, fun hall => ⟨fun j hj => ?_, ?_⟩⟩
    · rcases Nat.lt_succ_iff_lt_or_eq.mp hj with hlt | heq
      · exact hall.1 j hlt
      · rw [Fin.ext heq]
        exact hall.2
    · exact hall j (by omega)
    · exact hall i (by omega)

/-- Less `2 ^ 255 - 19`, where the limbs have that much. -/
def subtracted (x : Fin 10 → ℤ) (j : Fin 10) : ℤ := x j - if Over x then primeLimb j else 0

theorem subtractMasked_holding (h : Holding v x) (hx : Canonical x) :
    Holding (subtractMasked v) (subtracted x) := by
  intro j
  have hlimb : (if j.val = 0 then (0x3ffffed : S32) else limbMask j).Holds (primeLimb j) := by
    rw [primeLimb]
    split
    · exact holds_ofNat (by norm_num)
    · exact limbMask_holds j
  have hj := hx j
  have hprime := primeLimb_bounds j
  have hpow := two_pow_limbBits_le j
  change (subtractMasked v)[j.val].Holds _
  rw [subtractMasked, Vector.getElem_ofFn]
  exact (h j).sub (mask_and (overMask_holds h hx) hlimb) (by split <;> omega) (by split <;> omega)

theorem canonical_subtracted (hx : Canonical x) : Canonical (subtracted x) := by
  intro j
  have hj := hx j
  have hprime := primeLimb_bounds j
  rw [subtracted]
  split
  · rename_i hover
    refine ⟨?_, by omega⟩
    refine Fin.cases ?_ (fun i => ?_) j
    · exact hover.1
    · rw [hover.2 i, sub_self]
  · omega

theorem value_subtracted (hx : Canonical x) :
    value (subtracted x) = value x - if (prime : ℤ) ≤ value x then (prime : ℤ) else 0 := by
  have hsub : value (subtracted x) = value x - if Over x then value primeLimb else 0 := by
    simp only [value, subtracted, sub_mul, Finset.sum_sub_distrib]
    split
    · rfl
    · simp only [zero_mul, Finset.sum_const_zero]
  rw [hsub, value_primeLimb, if_congr (over_iff hx) rfl rfl]

/-! ## All of it -/

/-- The limbs before the last subtraction. -/
def carriedLimbs (inputLimbs : Limbs 10) : Vector S32 10 :=
  let input : Vector S32 10 := inputLimbs.map (Signed.cast 32)
  carryPass (carryPass (borrow 0 (borrowPass (borrowPass input))))

theorem carriedLimbs_stands {z : Limbs 10} {u : ZMod prime} (h : Represents z (2 ^ 26 - 1) u) :
    Stands (carriedLimbs z) u Canonical := by
  obtain ⟨x, hx, hu⟩ := h
  have hinput : Stands (z.map (Signed.cast 32)) u (FirstBorrow 0) := by
    refine ⟨x, fun i => ?_, fun j => ?_, hu⟩
    · change (z.map (Signed.cast 32))[i.val].Holds _
      rw [Vector.getElem_map]
      exact ((hx i).cast (by norm_num)).holds
    · have hj := abs_le.mp (hx j).bounded
      refine ⟨hj.2, ?_⟩
      split
      · omega
      · split <;> omega
  have hfirst : Stands (borrowPass (z.map (Signed.cast 32))) u (SecondBorrow 0) := by
    refine hinput.borrowPass (fun k x h j => ?_) (fun i x h => h.step) fun x h => h.last
    have hj := h j
    split at hj
    · omega
    · split at hj <;> omega
  obtain ⟨y, hy, hbounds, hvalue⟩ := hfirst.borrowPass (fun k x h j => by
    have hj := h j
    by_cases hk : j.val = k
    · have := (hj.2.2 hk).1
      omega
    · have := hj.2.1 hk
      omega) (fun i x h => h.step) fun x h => h.last
  have hpositive : Stands (borrow 0 (borrowPass (borrowPass (z.map (Signed.cast 32))))) u
      (FirstCarry 0) := by
    have hborrow := borrow_holding hy (fun j => by
      have := hbounds j
      omega) 0
    rw [borrowedTo_of_nonneg (hbounds 0).1] at hborrow
    refine ⟨y, hborrow, fun j => ?_, hvalue⟩
    have := hbounds j
    omega
  have hcarried := hpositive.carryPass (fun k x h j => ⟨(h j).1, by
    have := (h j).2.2.1
    omega⟩) (fun i x h => h.step) fun x h => h.last
  refine hcarried.carryPass (fun k x h j => ⟨(h j).1, ?_⟩) (fun i x h => h.step) fun x h => h.last
  have hpow := two_pow_limbBits_le j
  by_cases hk : j.val = k
  · have := ((h j).2.2 hk).1
    omega
  · have := (h j).2.1 hk
    omega

/-- After the subtraction the limbs are those of the number of the field
element. -/
theorem val_of_subtracted {x : Fin 10 → ℤ} {u : ZMod prime} {m : ℕ} (hx : Canonical x)
    (hu : ((value x : ℤ) : ZMod prime) = u) (hm : value (subtracted x) = (m : ℤ)) : u.val = m := by
  obtain ⟨n, hn, -, hvalue⟩ := exists_eq_limbsOf x hx
  rw [show exponent 10 = 255 by rfl] at hn
  rw [value_subtracted hx, hvalue] at hm
  have hprime : prime = 2 ^ 255 - 19 := rfl
  have hlt : m < prime := by
    split at hm <;> omega
  have hcast : (m : ZMod prime) = u := by
    rw [← hu, hvalue]
    have hint := congrArg (fun y : ℤ => (y : ZMod prime)) hm
    simp only [Int.cast_sub, Int.cast_natCast] at hint
    rw [Int.cast_natCast, ← hint]
    split
    · rw [Int.cast_natCast, ZMod.natCast_self, sub_zero]
    · rw [Int.cast_zero, sub_zero]
  rw [← hcast, ZMod.val_natCast, Nat.mod_eq_of_lt hlt]

end Donna

end Olm
