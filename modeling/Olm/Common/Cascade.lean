import Mathlib.Data.Nat.Basic
import Mathlib.Logic.Function.Iterate
import Mathlib.Order.Lattice
import Mathlib.Tactic.Set

/-!
# Cascades of registers

Registers indexed by a linear order, the coarse ones first. A **bump** at
level `j` rewrites register `j` and every finer one from the old value of
register `j`. A counter decides the level: reaching the value `m` bumps
level `level m`, and `run` takes such steps one by one.

What makes a cascade worth having is that it can be jumped. Where a
stretch of counter values bumps only levels finer than `j` before its last
value bumps `j` itself, the stretch is one bump (`run_eq_bump`); and over
the multiples of a period it is an iterate of that bump
(`run_eq_iterate_bump`), the finer steps in between leaving no trace.
-/

namespace Cascade

variable {ι α : Type*} [LinearOrder ι] {hash : α → ι → α} {level : ℕ → ι}

/-- Register `j` and every finer one, rewritten from register `j`. -/
def bump (hash : α → ι → α) (j : ι) (d : ι → α) : ι → α :=
  fun i => if j ≤ i then hash (d j) i else d i

/-- `k` single steps from the counter value `c`. -/
def run (hash : α → ι → α) (level : ℕ → ι) (c : ℕ) : ℕ → (ι → α) → ι → α
  | 0, d => d
  | k + 1, d => bump hash (level (c + k + 1)) (run hash level c k d)

theorem bump_apply_self (j : ι) (d : ι → α) : bump hash j d j = hash (d j) j := by
  simp [bump]

theorem bump_apply_of_lt {i j : ι} (h : i < j) (d : ι → α) : bump hash j d i = d i := by
  simp [bump, not_le.mpr h]

/-! ## Iterating one bump -/

/-- Coarser registers do not notice. -/
theorem iterate_bump_apply_of_lt {i j : ι} (h : i < j) (n : ℕ) (d : ι → α) :
    (bump hash j)^[n] d i = d i := by
  induction n with
  | zero => rfl
  | succ n ih => rw [Function.iterate_succ_apply', bump_apply_of_lt h, ih]

/-- Register `j` is hashed into itself. -/
theorem iterate_bump_apply_self (j : ι) (n : ℕ) (d : ι → α) :
    (bump hash j)^[n] d j = (fun x => hash x j)^[n] (d j) := by
  induction n with
  | zero => rfl
  | succ n ih => rw [Function.iterate_succ_apply', Function.iterate_succ_apply', bump_apply_self, ih]

/-- **Only the last of several bumps has to reach the finer registers**:
each rewrites what the one before wrote there. -/
theorem iterate_bump_succ (j : ι) (n : ℕ) (d : ι → α) :
    (bump hash j)^[n + 1] d =
      bump hash j (Function.update d j ((fun x => hash x j)^[n] (d j))) := by
  rw [Function.iterate_succ_apply']
  funext i
  simp only [bump, Function.update_self, iterate_bump_apply_self]
  by_cases h : j ≤ i
  · rw [if_pos h, if_pos h]
  · have hij : i < j := not_le.mp h
    rw [if_neg h, if_neg h, iterate_bump_apply_of_lt hij, Function.update_of_ne (ne_of_lt hij)]

/-! ## Runs -/

theorem run_add (c k l : ℕ) (d : ι → α) :
    run hash level c (k + l) d = run hash level (c + k) l (run hash level c k d) := by
  induction l with
  | zero => rfl
  | succ l ih =>
    show bump hash (level (c + (k + l) + 1)) (run hash level c (k + l) d) = _
    rw [ih, ← Nat.add_assoc]
    rfl

/-- Steps finer than `j` leave register `j` and the coarser ones alone. -/
theorem run_apply_of_level_lt {c k : ℕ} {j i : ι}
    (hfine : ∀ m, c < m → m ≤ c + k → j < level m) (hi : i ≤ j) (d : ι → α) :
    run hash level c k d i = d i := by
  induction k with
  | zero => rfl
  | succ k ih =>
    have hlast : i < level (c + k + 1) := lt_of_le_of_lt hi (hfine _ (by omega) (by omega))
    show bump hash (level (c + k + 1)) (run hash level c k d) i = d i
    rw [bump_apply_of_lt hlast, ih fun m h1 h2 => hfine m h1 (by omega)]

/-- **A stretch that ends in its only bump of level `j` is that bump.** -/
theorem run_eq_bump {c k : ℕ} {j : ι} (hk : 0 < k)
    (hfine : ∀ m, c < m → m < c + k → j < level m) (hlast : level (c + k) = j) (d : ι → α) :
    run hash level c k d = bump hash j d := by
  obtain ⟨k, rfl⟩ : ∃ l, k = l + 1 := ⟨k - 1, by omega⟩
  show bump hash (level (c + (k + 1))) (run hash level c k d) = _
  rw [hlast]
  have hkeep : ∀ i ≤ j, run hash level c k d i = d i := fun i hi =>
    run_apply_of_level_lt (fun m h1 h2 => hfine m h1 (by omega)) hi d
  funext i
  by_cases h : j ≤ i
  · simp only [bump, if_pos h, hkeep j le_rfl]
  · simp only [bump, if_neg h, hkeep i (le_of_not_ge h)]

/-- **A run over the multiples of a period is an iterate.** Between `c` and
the `n`-th multiple of `s` past it, the multiples of `s` bump level `j`
and everything else is finer. -/
theorem run_eq_iterate_bump {s c : ℕ} {j : ι} (hs : 0 < s) (n : ℕ)
    (hmult : ∀ m, c < m → m ≤ s * (c / s + n) → s ∣ m → level m = j)
    (hfine : ∀ m, c < m → m ≤ s * (c / s + n) → ¬ s ∣ m → j < level m) (d : ι → α) :
    run hash level c (s * (c / s + n) - c) d = (bump hash j)^[n] d := by
  induction n with
  | zero =>
    have : s * (c / s) ≤ c := Nat.mul_div_le c s
    rw [Nat.add_zero, Nat.sub_eq_zero_of_le this]
    rfl
  | succ n ih =>
    have hdiv : s * (c / s) ≤ c := Nat.mul_div_le c s
    have hlt : c < s * (c / s + 1) := Nat.lt_mul_div_succ c hs
    have hgrow : s * (c / s + (n + 1)) = s * (c / s + n) + s := Nat.mul_succ s _
    have hreach : s * (c / s + 1) ≤ s * (c / s + (n + 1)) := Nat.mul_le_mul_left s (by omega)
    set b := s * (c / s + n) - c with hb
    set e := s * (c / s + (n + 1)) - (c + b) with he
    have hfloor : s * (c / s + n) ≤ c + b := by omega
    have hpos : 0 < e := by
      rcases Nat.eq_zero_or_pos n with rfl | hn
      · simp only [Nat.add_zero] at hb; omega
      · have : s * (c / s + 1) ≤ s * (c / s + n) := Nat.mul_le_mul_left s (by omega)
        omega
    have hend : c + b + e = s * (c / s + (n + 1)) := by omega
    have hsplit : s * (c / s + (n + 1)) - c = b + e := by omega
    rw [hsplit, run_add, ih (fun m h1 h2 => hmult m h1 (by omega))
      (fun m h1 h2 => hfine m h1 (by omega)), Function.iterate_succ_apply']
    refine run_eq_bump hpos (fun m h1 h2 => hfine m (by omega) (by omega) ?_) ?_ _
    · -- two neighbouring multiples of `s` enclose `m`
      rintro ⟨q, rfl⟩
      have h3 : s * (c / s + n) < s * q := by omega
      have h4 : s * q < s * (c / s + (n + 1)) := by omega
      have h5 := Nat.lt_of_mul_lt_mul_left h3
      have h6 := Nat.lt_of_mul_lt_mul_left h4
      omega
    · rw [hend]
      exact hmult _ (by omega) le_rfl (Nat.dvd_mul_right s _)

end Cascade
