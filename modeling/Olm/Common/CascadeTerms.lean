import Olm.Common.Cascade
import Olm.Common.Derivation

/-!
# What the registers of a cascade give away

A cascade whose hash is free: its values are the terms they were hashed by
(`Term`), and any other cascade is the value of this one (`eval_terms`). A
register keeps its term from one bump that reaches it to the next
(`birth`), and no term is in two registers or comes twice (`terms_inj`). So
the registers after `m` steps lead to a term of an earlier time only if it
has been there ever since (`derivable_terms_iff`); to all the registers of an earlier
time, never (`derivable_all_iff`).
-/

namespace Cascade

variable {ι α : Type*}

/-- A value, as the hashes that made it. -/
inductive Term (ι : Type*) where
  | seed (i : ι)
  | hash (t : Term ι) (i : ι)

namespace Term

/-- The value of a term. -/
def eval (hash : α → ι → α) (seeds : ι → α) : Term ι → α
  | .seed i => seeds i
  | .hash t i => hash (t.eval hash seeds) i

/-- One hash. -/
def Leads (t t' : Term ι) : Prop := ∃ i, t' = t.hash i

theorem leads_hash_iff {t t' : Term ι} {i : ι} : Leads t' (t.hash i) ↔ t' = t := by
  constructor
  · rintro ⟨i', h⟩
    exact (Term.hash.inj h).1.symm
  · rintro rfl
    exact ⟨i, rfl⟩

theorem not_leads_seed {t : Term ι} {i : ι} : ¬ Leads t (.seed i) := by
  rintro ⟨i', h⟩
  cases h

end Term

variable [LinearOrder ι] (level : ℕ → ι) (c : ℕ)

/-- The registers after `k` steps from the counter value `c`, as terms. -/
def terms (k : ℕ) : ι → Term ι := run Term.hash level c k Term.seed

/-- When the register got the value that it has after `k` steps. -/
def birth : ℕ → ι → ℕ
  | 0, _ => 0
  | k + 1, i => if level (c + k + 1) ≤ i then k + 1 else birth k i

variable {level c}

/-- **The terms stand for the values** of any cascade that takes the same
steps. -/
theorem eval_terms (hash : α → ι → α) (seeds : ι → α) (k : ℕ) (i : ι) :
    (terms level c k i).eval hash seeds = run hash level c k seeds i := by
  induction k generalizing i with
  | zero => rfl
  | succ k ih =>
    show (bump Term.hash (level (c + k + 1)) (terms level c k) i).eval hash seeds =
      bump hash (level (c + k + 1)) (run hash level c k seeds) i
    unfold bump
    split
    · rw [Term.eval, ih]
    · exact ih i

/-! ## When values are replaced -/

theorem birth_le (k : ℕ) (i : ι) : birth level c k i ≤ k := by
  induction k with
  | zero => exact le_rfl
  | succ k ih =>
    unfold birth
    split
    · exact le_rfl
    · exact Nat.le_succ_of_le ih

/-- A bump that reaches the register is not after its last one. -/
theorem le_birth {k b : ℕ} {i : ι} (hb : 0 < b) (hle : b ≤ k) (hlevel : level (c + b) ≤ i) :
    b ≤ birth level c k i := by
  induction k with
  | zero => exact absurd hb (Nat.not_lt.mpr hle)
  | succ k ih =>
    unfold birth
    split
    · exact hle
    · rename_i hfine
      rcases Nat.le_succ_iff.mp hle with hle | rfl
      · exact ih hle
      · exact absurd hlevel hfine

/-- **A value is a seed, or was made by the bump at its birth.** -/
theorem terms_cases (k : ℕ) (i : ι) :
    (birth level c k i = 0 ∧ terms level c k i = .seed i) ∨
    ∃ b < k, birth level c k i = b + 1 ∧ level (c + b + 1) ≤ i ∧
      terms level c k i = (terms level c b (level (c + b + 1))).hash i := by
  induction k with
  | zero => exact .inl ⟨rfl, rfl⟩
  | succ k ih =>
    have hbump : terms level c (k + 1) i =
        if level (c + k + 1) ≤ i then (terms level c k (level (c + k + 1))).hash i
        else terms level c k i := rfl
    rw [hbump, birth]
    split
    · rename_i hlevel
      exact .inr ⟨k, Nat.lt_succ_self k, rfl, hlevel, rfl⟩
    · rcases ih with h | ⟨b, hb, hbirth, hlevel, hterm⟩
      · exact .inl h
      · exact .inr ⟨b, Nat.lt_succ_of_lt hb, hbirth, hlevel, hterm⟩

/-- **No term comes twice.** -/
theorem terms_inj {k k' : ℕ} {i i' : ι} (h : terms level c k i = terms level c k' i') :
    i = i' ∧ birth level c k i = birth level c k' i' := by
  induction k using Nat.strong_induction_on generalizing k' i i' with
  | h k ih =>
    rcases terms_cases k i with ⟨hbirth, hterm⟩ | ⟨b, hb, hbirth, -, hterm⟩ <;>
      rcases terms_cases k' i' with ⟨hbirth', hterm'⟩ | ⟨b', hb', hbirth', -, hterm'⟩
    · rw [hterm, hterm'] at h
      exact ⟨Term.seed.inj h, hbirth.trans hbirth'.symm⟩
    · rw [hterm, hterm'] at h
      cases h
    · rw [hterm, hterm'] at h
      cases h
    · rw [hterm, hterm'] at h
      obtain ⟨hmade, rfl⟩ := Term.hash.inj h
      obtain ⟨hlevel, hsame⟩ := ih b hb hmade
      refine ⟨rfl, ?_⟩
      -- both were made from one value, which the earlier of the two bumps replaced
      have hle : birth level c b (level (c + b + 1)) ≤ b := birth_le _ _
      have hle' : birth level c b' (level (c + b' + 1)) ≤ b' := birth_le _ _
      rcases Nat.lt_trichotomy b b' with hlt | rfl | hlt
      · have hreplaced := le_birth (c := c) (Nat.succ_pos b) hlt hlevel.le
        omega
      · rw [hbirth, hbirth']
      · have hreplaced := le_birth (c := c) (Nat.succ_pos b') hlt hlevel.ge
        omega

/-! ## What is derived -/

/-- What comes later is derived. -/
theorem derivable_of_le {m k : ℕ} (hle : m ≤ k) (i : ι) :
    Derivable Term.Leads (Set.range (terms level c m)) (terms level c k i) := by
  induction k, hle using Nat.le_induction generalizing i with
  | base => exact .of_mem ⟨i, rfl⟩
  | succ k hle ih =>
    have hbump : terms level c (k + 1) i =
        if level (c + k + 1) ≤ i then (terms level c k (level (c + k + 1))).hash i
        else terms level c k i := rfl
    rw [hbump]
    split
    · exact (ih _).next ⟨i, rfl⟩
    · exact ih i

/-- **What came before is derived only if it is still there.** -/
theorem birth_eq_of_derivable {m k : ℕ} (hle : k ≤ m) {i : ι}
    (h : Derivable Term.Leads (Set.range (terms level c m)) (terms level c k i)) :
    birth level c k i = birth level c m i := by
  induction k using Nat.strong_induction_on generalizing i with
  | h k ih =>
    rcases h.cases_tail with ⟨j, hj⟩ | ⟨t, ht, hleads⟩
    · obtain ⟨rfl, hbirth⟩ := terms_inj hj
      exact hbirth.symm
    · rcases terms_cases k i with ⟨-, hterm⟩ | ⟨b, hb, -, -, hterm⟩
      · rw [hterm] at hleads
        exact absurd hleads Term.not_leads_seed
      · -- it was made from a value that the bump replaced
        rw [hterm] at hleads
        obtain rfl := Term.leads_hash_iff.mp hleads
        have hsame := ih b hb (hb.le.trans hle) ht
        have hreplaced : b + 1 ≤ birth level c m (level (c + b + 1)) :=
          le_birth (Nat.succ_pos b) (Nat.le_trans hb hle) le_rfl
        have hle' : birth level c b (level (c + b + 1)) ≤ b := birth_le _ _
        omega

theorem terms_birth (k : ℕ) (i : ι) : terms level c (birth level c k i) i = terms level c k i := by
  induction k with
  | zero => rfl
  | succ k ih =>
    have hbump : terms level c (k + 1) i =
        if level (c + k + 1) ≤ i then (terms level c k (level (c + k + 1))).hash i
        else terms level c k i := rfl
    rw [birth]
    split
    · rfl
    · rename_i hfine
      rw [ih, hbump, if_neg hfine]

/-- **What the registers lead to**: all that comes later, and of what came
before the values that have not been replaced. -/
theorem derivable_terms_iff {m k : ℕ} {i : ι} :
    Derivable Term.Leads (Set.range (terms level c m)) (terms level c k i) ↔
      m ≤ k ∨ birth level c k i = birth level c m i := by
  constructor
  · intro h
    by_cases hle : m ≤ k
    · exact .inl hle
    · exact .inr (birth_eq_of_derivable (Nat.le_of_not_le hle) h)
  · rintro (hle | hbirth)
    · exact derivable_of_le hle i
    · refine .of_mem ⟨i, ?_⟩
      rw [← terms_birth m, ← hbirth, terms_birth]

variable (level c) in
/-- The registers of all these times. -/
def held (times : Set ℕ) : Set (Term ι) := {t | ∃ m ∈ times, t ∈ Set.range (terms level c m)}

/-- **Who has the registers of some times can have all those of another**, if
it does not come before them. -/
theorem derivable_all_iff {times : Set ℕ} {k : ℕ} {top : ι} (htop : ∀ i, i ≤ top) :
    (∀ i, Derivable Term.Leads (held level c times) (terms level c k i)) ↔ ∃ m ∈ times, m ≤ k := by
  -- the finest register is replaced at every step
  have hbirth : ∀ k, birth level c k top = k := by
    intro k
    rcases Nat.eq_zero_or_pos k with rfl | hpos
    · rfl
    · exact le_antisymm (birth_le k top) (le_birth hpos le_rfl (htop _))
  constructor
  · intro h
    obtain ⟨t, ⟨m, hm, hin⟩, hpath⟩ := h top
    refine ⟨m, hm, ?_⟩
    rcases derivable_terms_iff.mp ⟨t, hin, hpath⟩ with hle | heq
    · exact hle
    · rw [hbirth, hbirth] at heq
      exact heq.ge
  · rintro ⟨m, hm, hle⟩ i
    obtain ⟨t, hin, hpath⟩ := derivable_of_le hle i
    exact ⟨t, ⟨m, hm, hin⟩, hpath⟩

end Cascade
