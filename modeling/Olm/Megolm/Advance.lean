import Olm.Common.Cascade
import Olm.Megolm.Model
import Mathlib.Data.Fintype.Basic
import Mathlib.Order.Fin.Basic
import Mathlib.Tactic.FinCases

/-!
# The jump agrees with the single steps

The Megolm ratchet is a cascade (`Cascade.run`): reaching the counter
value `m` bumps the coarsest part whose period divides `m`.
`iterate_advance` reads the single step as that cascade, and
`advancePart_iterate` reads one round of `Megolm.advanceTo` as the stretch of
it up to the last multiple of that part's period, so the four rounds
together reach the target.
-/

namespace Olm

namespace Megolm

open Cascade

variable (hmac : Bytes → Bytes → FixedBytes SHA256_OUTPUT_LENGTH)

/-- The hash that fills part `i` from a part `p`. -/
def partHash (p : RatchetPart) (i : Fin MEGOLM_RATCHET_PARTS) : RatchetPart :=
  hmac p.val (hashKeySeed i)

/-- How many counter values one value of part `j` lasts. -/
def period (j : Fin MEGOLM_RATCHET_PARTS) : ℕ := 2 ^ ((MEGOLM_RATCHET_PARTS - j.val - 1) * 8)

/-- The part that reaching the counter value `m` rehashes first. -/
def level (m : ℕ) : Fin MEGOLM_RATCHET_PARTS :=
  if m % 2 ^ 24 = 0 then 0
  else if m % 2 ^ 16 = 0 then 1
  else if m % 2 ^ 8 = 0 then 2
  else 3

theorem period_pos (j : Fin MEGOLM_RATCHET_PARTS) : 0 < period j := Nat.two_pow_pos _

/-- The top part lasts `2 ^ 24` values, and each part `256` values of the
next. -/
theorem period_cases (j : Fin MEGOLM_RATCHET_PARTS) :
    (j = 0 ∧ period j = 2 ^ 24) ∨ (j = 1 ∧ period j = 2 ^ 16) ∨
      (j = 2 ∧ period j = 2 ^ 8) ∨ (j = 3 ∧ period j = 1) := by
  revert j
  decide

/-- The level does not see the counter wrap around. -/
theorem level_mod (m : ℕ) : level (m % 2 ^ 32) = level m := by
  have h24 : m % 2 ^ 32 % 2 ^ 24 = m % 2 ^ 24 := by omega
  have h16 : m % 2 ^ 32 % 2 ^ 16 = m % 2 ^ 16 := by omega
  have h8 : m % 2 ^ 32 % 2 ^ 8 = m % 2 ^ 8 := by omega
  simp only [level, h24, h16, h8]

/-! ## The single step -/

theorem rehashDown_eq_bump (h : Fin MEGOLM_RATCHET_PARTS)
    (data : Fin MEGOLM_RATCHET_PARTS → RatchetPart) :
    rehashDown hmac h data = bump (partHash hmac) h data := by
  funext i
  fin_cases h <;> fin_cases i <;> rfl

theorem and_mask_eq_zero_iff (c : UInt32) (k : ℕ) (mask : UInt32) (hmask : mask.toNat = 2 ^ k - 1) :
    c &&& mask = 0 ↔ c.toNat % 2 ^ k = 0 := by
  rw [← UInt32.toNat_inj, UInt32.toNat_and, hmask, Nat.and_two_pow_sub_one_eq_mod]
  rfl

/-- The loop finds the level of the new counter value. -/
theorem rekeyFrom_eq_level (c : UInt32) :
    rekeyFrom c MEGOLM_RATCHET_PARTS 0x00FFFFFF 0 = (level c.toNat).val := by
  have h24 := and_mask_eq_zero_iff c 24 0x00FFFFFF rfl
  have h16 := and_mask_eq_zero_iff c 16 ((0x00FFFFFF : UInt32) >>> 8) rfl
  have h8 := and_mask_eq_zero_iff c 8 ((0x00FFFFFF : UInt32) >>> 8 >>> 8) rfl
  have h0 := and_mask_eq_zero_iff c 0 ((0x00FFFFFF : UInt32) >>> 8 >>> 8 >>> 8) rfl
  simp only [rekeyFrom, h24, h16, h8, h0, level, Nat.pow_zero, Nat.mod_one]
  split_ifs <;> rfl

theorem advance_eq (m : Megolm) :
    advance hmac m =
      ⟨bump (partHash hmac) (level (m.counter + 1).toNat) m.data, m.counter + 1⟩ := by
  have hlt : rekeyFrom (m.counter + 1) MEGOLM_RATCHET_PARTS 0x00FFFFFF 0 < MEGOLM_RATCHET_PARTS := by
    rw [rekeyFrom_eq_level]
    exact (level _).isLt
  have hfin : (⟨_, hlt⟩ : Fin MEGOLM_RATCHET_PARTS) = level (m.counter + 1).toNat :=
    Fin.ext (rekeyFrom_eq_level _)
  simp only [advance, dif_pos hlt, hfin, rehashDown_eq_bump]

/-- **Single steps are the cascade.** -/
theorem iterate_advance (m : Megolm) (k : ℕ) :
    (advance hmac)^[k] m =
      ⟨run (partHash hmac) level m.counter.toNat k m.data, m.counter + UInt32.ofNat k⟩ := by
  induction k with
  | zero => simp [run]
  | succ k ih =>
    have hcounter : m.counter + UInt32.ofNat k + 1 = m.counter + UInt32.ofNat (k + 1) := by
      rw [UInt32.ofNat_add, UInt32.add_assoc]
      rfl
    have hlevel : level (m.counter + UInt32.ofNat (k + 1)).toNat =
        level (m.counter.toNat + k + 1) := by
      rw [← level_mod (m.counter.toNat + k + 1)]
      simp [UInt32.toNat_add, Nat.add_assoc]
    rw [Function.iterate_succ_apply', ih, advance_eq, hcounter, hlevel]
    rfl

/-! ## One round of the jump -/

theorem shiftRight_toNat (c : UInt32) (j : Fin MEGOLM_RATCHET_PARTS) :
    (c >>> shift j).toNat = c.toNat / period j := by
  have hshift : (shift j).toNat % 32 = (MEGOLM_RATCHET_PARTS - j.val - 1) * 8 := by
    fin_cases j <;> rfl
  rw [UInt32.toNat_shiftRight, hshift, Nat.shiftRight_eq_div_pow, period]

theorem and_high_bits {x k m : ℕ} (hx : x < 2 ^ (k + m)) :
    x &&& ((2 ^ m - 1) <<< k) = x / 2 ^ k * 2 ^ k := by
  rw [← Nat.shiftLeft_eq, ← Nat.shiftRight_eq_div_pow]
  apply Nat.eq_of_testBit_eq
  intro i
  simp only [Nat.testBit_and, Nat.testBit_shiftLeft, Nat.testBit_two_pow_sub_one,
    Nat.testBit_shiftRight]
  by_cases hi : i < k + m
  · by_cases hk : k ≤ i
    · have hsum : k + (i - k) = i := by omega
      simp [hk, hsum, show i - k < m by omega]
    · simp [hk]
  · have hzero : x.testBit i = false :=
      Nat.testBit_lt_two_pow (lt_of_lt_of_le hx (Nat.pow_le_pow_right (by decide) (by omega)))
    have hsum : k ≤ i → k + (i - k) = i := by omega
    by_cases hk : k ≤ i
    · simp [hzero, hsum hk]
    · simp [hk]

/-- Masking a target keeps its last multiple of the period. -/
theorem and_mask_toNat (t : UInt32) (j : Fin MEGOLM_RATCHET_PARTS) :
    (t &&& ((~~~ (0 : UInt32)) <<< shift j)).toNat = period j * (t.toNat / period j) := by
  have hmask : ((~~~ (0 : UInt32)) <<< shift j).toNat =
      (2 ^ ((j.val + 1) * 8) - 1) <<< ((MEGOLM_RATCHET_PARTS - j.val - 1) * 8) := by
    fin_cases j <;> rfl
  have hlt : t.toNat < 2 ^ ((MEGOLM_RATCHET_PARTS - j.val - 1) * 8 + (j.val + 1) * 8) := by
    have hsum : (MEGOLM_RATCHET_PARTS - j.val - 1) * 8 + (j.val + 1) * 8 = 32 := by
      fin_cases j <;> rfl
    rw [hsum]
    exact t.toNat_lt
  rw [UInt32.toNat_and, hmask, and_high_bits hlt, period, Nat.mul_comm]

/-- What the rounds before part `j` have settled: the unwrapped counter has
come from `n` to within one value of the part above `j` of the unwrapped
target `N`. -/
structure Approaching (j : Fin MEGOLM_RATCHET_PARTS) (n N : ℕ) : Prop where
  le : n ≤ N
  lt : N < n + 2 ^ 32
  block : j ≠ 0 → n / (256 * period j) = N / (256 * period j)

/-- **The step count is the number of multiples of the period on the way**,
the wraparound case included. -/
theorem stepsTo_eq {m : Megolm} {t : UInt32} {j : Fin MEGOLM_RATCHET_PARTS} {n N : ℕ}
    (h : Approaching j n N) (hn : m.counter.toNat = n % 2 ^ 32) (hN : t.toNat = N % 2 ^ 32) :
    stepsTo m t j = N / period j - n / period j := by
  obtain ⟨hle, hlt, hblock⟩ := h
  have hsteps : (((t >>> shift j) - (m.counter >>> shift j)) &&& 0xff).toNat =
      (2 ^ 32 - (n % 2 ^ 32) / period j + (N % 2 ^ 32) / period j) % 2 ^ 32 % 256 := by
    rw [UInt32.toNat_and, UInt32.toNat_sub, shiftRight_toNat, shiftRight_toNat, hn, hN]
    exact Nat.and_two_pow_sub_one_eq_mod _ 8
  have hzero : (((t >>> shift j) - (m.counter >>> shift j)) &&& 0xff) = 0 ↔
      (2 ^ 32 - (n % 2 ^ 32) / period j + (N % 2 ^ 32) / period j) % 2 ^ 32 % 256 = 0 := by
    rw [← UInt32.toNat_inj, hsteps]
    rfl
  have hwrap : t < m.counter ↔ N % 2 ^ 32 < n % 2 ^ 32 := by
    rw [UInt32.lt_iff_toNat_lt, hn, hN]
  simp only [stepsTo, hzero, hwrap, hsteps]
  have hcases := period_cases j
  generalize period j = s at hcases hblock ⊢
  rcases hcases with ⟨-, rfl⟩ | ⟨rfl, rfl⟩ | ⟨rfl, rfl⟩ | ⟨rfl, rfl⟩
  · split_ifs <;> omega
  all_goals
    have := hblock (by decide)
    split_ifs <;> omega

/-- One round bumps its part that many times and leaves the counter at the
last multiple of the period. -/
theorem advancePart_eq (m : Megolm) (t : UInt32) (j : Fin MEGOLM_RATCHET_PARTS) :
    advancePart hmac t m j =
      ⟨(bump (partHash hmac) j)^[stepsTo m t j] m.data,
        if stepsTo m t j = 0 then m.counter else t &&& ((~~~ (0 : UInt32)) <<< shift j)⟩ := by
  have hself : ∀ steps data, (fun data => rehashPart hmac data j j)^[steps] data =
      Function.update data j ((fun x => partHash hmac x j)^[steps] (data j)) := by
    intro steps data
    induction steps with
    | zero => simp
    | succ steps ih =>
      rw [Function.iterate_succ_apply', ih, Function.iterate_succ_apply']
      simp [rehashPart, partHash]
  simp only [advancePart]
  split
  · next h => rw [h]; rfl
  · next steps h =>
    rw [h, rehashDown_eq_bump, hself, ← iterate_bump_succ]
    rfl

/-- The multiples of part `j`'s period within one value of the part above
it bump part `j`. -/
theorem level_of_dvd {j : Fin MEGOLM_RATCHET_PARTS} {m : ℕ}
    (hj : j ≠ 0 → ¬ 256 * period j ∣ m) (h : period j ∣ m) : level m = j := by
  have hcases := period_cases j
  generalize period j = s at hcases hj h
  rw [Nat.dvd_iff_mod_eq_zero] at h
  rcases hcases with ⟨rfl, rfl⟩ | ⟨rfl, rfl⟩ | ⟨rfl, rfl⟩ | ⟨rfl, rfl⟩
  · simp only [level, if_pos h]
  all_goals
    have := hj (by decide)
    rw [Nat.dvd_iff_mod_eq_zero] at this
    unfold level
    split_ifs <;> first | rfl | omega

/-- And everything else bumps a finer part. -/
theorem level_of_not_dvd {j : Fin MEGOLM_RATCHET_PARTS} {m : ℕ} (h : ¬ period j ∣ m) :
    j < level m := by
  have hcases := period_cases j
  generalize period j = s at hcases h
  rw [Nat.dvd_iff_mod_eq_zero] at h
  unfold level
  rcases hcases with ⟨rfl, rfl⟩ | ⟨rfl, rfl⟩ | ⟨rfl, rfl⟩ | ⟨rfl, rfl⟩ <;>
    split_ifs <;> first | decide | omega

/-! ## The rounds together -/

/-- Within one value of the part above `j` there is no multiple of that
part's period. -/
theorem not_dvd_of_block {j : Fin MEGOLM_RATCHET_PARTS} {n N m : ℕ} (h : Approaching j n N)
    (hn : n < m) (hN : m ≤ N) (hj : j ≠ 0) : ¬ 256 * period j ∣ m := by
  rintro ⟨q, rfl⟩
  have hpos : 0 < 256 * period j := Nat.mul_pos (by decide) (period_pos j)
  have h1 : n / (256 * period j) < q := (Nat.div_lt_iff_lt_mul hpos).mpr (by rwa [Nat.mul_comm q])
  have h2 : q ≤ N / (256 * period j) :=
    (Nat.le_div_iff_mul_le hpos).mpr (by rwa [Nat.mul_comm q])
  have := h.block hj
  omega

/-- The counter a round leaves, read back from the unwrapped target. -/
theorem mul_div_mod (j : Fin MEGOLM_RATCHET_PARTS) (N : ℕ) :
    period j * (N % 2 ^ 32 / period j) = period j * (N / period j) % 2 ^ 32 := by
  have hcases := period_cases j
  generalize period j = s at hcases ⊢
  rcases hcases with ⟨-, rfl⟩ | ⟨-, rfl⟩ | ⟨-, rfl⟩ | ⟨-, rfl⟩ <;> omega

/-- **One round of the jump is a stretch of single steps**: those up to the
last multiple of the part's period on the way to the target. -/
theorem advancePart_iterate {m : Megolm} {t : UInt32} {j : Fin MEGOLM_RATCHET_PARTS} {k N : ℕ}
    (h : Approaching j (m.counter.toNat + k) N) (hN : t.toNat = N % 2 ^ 32) :
    advancePart hmac t ((advance hmac)^[k] m) j =
      (advance hmac)^[k + (period j * (N / period j) - (m.counter.toNat + k))] m := by
  set n := m.counter.toNat + k with hn
  have hcounter : ((advance hmac)^[k] m).counter.toNat = n % 2 ^ 32 := by
    rw [iterate_advance]
    simp [hn, UInt32.toNat_add]
  have hsteps : stepsTo ((advance hmac)^[k] m) t j = N / period j - n / period j :=
    stepsTo_eq h hcounter hN
  have hdiv : n / period j ≤ N / period j := Nat.div_le_div_right h.le
  have hsum : n / period j + (N / period j - n / period j) = N / period j := by omega
  have hmulN : period j * (N / period j) ≤ N := Nat.mul_div_le N _
  rw [advancePart_eq, hsteps]
  -- both sides are the cascade, stopped at the same value of the counter
  have hrun : run (partHash hmac) level n
      (period j * (n / period j + (N / period j - n / period j)) - n)
      ((advance hmac)^[k] m).data =
        (bump (partHash hmac) j)^[N / period j - n / period j] ((advance hmac)^[k] m).data :=
    run_eq_iterate_bump (period_pos j) _
      (fun x h1 h2 hx => level_of_dvd (not_dvd_of_block h h1 (by rw [hsum] at h2; omega)) hx)
      (fun x _ _ hx => level_of_not_dvd hx) _
  rw [hsum] at hrun
  rw [← hrun, iterate_advance, iterate_advance, run_add, ← hn]
  congr 1
  split_ifs with hzero
  · have : period j * (N / period j) ≤ n := by
      have : period j * (n / period j) ≤ n := Nat.mul_div_le n _
      rwa [show N / period j = n / period j by omega]
    rw [Nat.sub_eq_zero_of_le this, Nat.add_zero]
  · have hreach : n ≤ period j * (N / period j) := by
      have h1 : n < period j * (n / period j + 1) := Nat.lt_mul_div_succ n (period_pos j)
      have h2 : period j * (n / period j + 1) ≤ period j * (N / period j) :=
        Nat.mul_le_mul_left _ (by omega)
      omega
    rw [← UInt32.toNat_inj, and_mask_toNat, hN, mul_div_mod, UInt32.toNat_add,
      UInt32.toNat_ofNat']
    omega

/-- After the round of part `j`, the counter is in the target's own value of
that part. -/
theorem exists_advancePart {m : Megolm} {t : UInt32} {j : Fin MEGOLM_RATCHET_PARTS} {k N : ℕ}
    (h : Approaching j (m.counter.toNat + k) N) (hN : t.toNat = N % 2 ^ 32) :
    ∃ k', advancePart hmac t ((advance hmac)^[k] m) j = (advance hmac)^[k'] m ∧
      m.counter.toNat + k ≤ m.counter.toNat + k' ∧ m.counter.toNat + k' ≤ N ∧
      (m.counter.toNat + k') / period j = N / period j := by
  refine ⟨_, advancePart_iterate hmac h hN, by omega, ?_⟩
  have hle := h.le
  have hlow : period j * (N / period j) ≤ N := Nat.mul_div_le N _
  have hhigh : N < period j * (N / period j + 1) := Nat.lt_mul_div_succ N (period_pos j)
  refine ⟨by omega, Nat.div_eq_of_lt_le ?_ ?_⟩
  · rw [Nat.mul_comm (N / period j)]
    omega
  · rw [Nat.mul_comm (N / period j + 1)]
    omega

/-- The jump over `k` messages is `k` single steps. -/
theorem advanceTo_add (m : Megolm) {k : ℕ} (hk : k < 2 ^ 32) :
    advanceTo hmac m (m.counter + UInt32.ofNat k) = (advance hmac)^[k] m := by
  set N := m.counter.toNat + k with hNdef
  have hN : (m.counter + UInt32.ofNat k).toNat = N % 2 ^ 32 := by
    rw [UInt32.toNat_add, UInt32.toNat_ofNat']
    omega
  obtain ⟨k0, e0, hk0, hle0, hblock0⟩ := exists_advancePart hmac (m := m) (k := 0)
    (⟨by omega, by omega, fun h => absurd rfl h⟩ : Approaching 0 _ N) hN
  obtain ⟨k1, e1, hk1, hle1, hblock1⟩ := exists_advancePart hmac (m := m) (k := k0)
    (⟨hle0, by omega, fun _ => hblock0⟩ : Approaching 1 _ N) hN
  obtain ⟨k2, e2, hk2, hle2, hblock2⟩ := exists_advancePart hmac (m := m) (k := k1)
    (⟨hle1, by omega, fun _ => hblock1⟩ : Approaching 2 _ N) hN
  obtain ⟨k3, e3, -, -, hblock3⟩ := exists_advancePart hmac (m := m) (k := k2)
    (⟨hle2, by omega, fun _ => hblock2⟩ : Approaching 3 _ N) hN
  -- a value of the last part is one value of the counter, so its round ends at the target
  have hlast : k3 = k := by
    have hone : period 3 = 1 := rfl
    rw [hone, Nat.div_one, Nat.div_one] at hblock3
    omega
  rw [hlast] at e3
  simp only [advanceTo, List.foldl_cons, List.foldl_nil]
  rw [← e3, ← e2, ← e1, ← e0]
  rfl

/-- **The jump is the single steps**: `megolm_advance_to` reaches the target
in the state that many calls of `megolm_advance` would, whatever the parts,
the counter, the target and the HMAC, and however the counter wraps. -/
theorem advanceTo_eq_iterate_advance (m : Megolm) (target : UInt32) :
    advanceTo hmac m target = (advance hmac)^[(target - m.counter).toNat] m := by
  have htarget : m.counter + UInt32.ofNat (target - m.counter).toNat = target := by
    rw [UInt32.ofNat_toNat, UInt32.add_comm, UInt32.sub_add_cancel]
  have hjump := advanceTo_add hmac m (target - m.counter).toNat_lt
  rwa [htarget] at hjump

end Megolm

end Olm
