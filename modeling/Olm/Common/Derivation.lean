import Mathlib.Data.Set.Basic
import Mathlib.Logic.Function.Iterate
import Mathlib.Logic.Relation

/-!
# What can be derived

Values that are made from one another by one-way steps, and what someone
can get at who knows some of them. Where a value is made from one other
value and in no other way, it can be had only if it is known itself or that
value can be had (`Derivable.iff_of_only`); along a chain of such values,
only from a place at or before it (`Derivable.iterate`).
-/

variable {α : Type*} {step : α → α → Prop} {known : Set α} {a b : α}

/-- The value can be had from what is known, one step after another. -/
def Derivable (step : α → α → Prop) (known : Set α) (a : α) : Prop :=
  ∃ b ∈ known, Relation.ReflTransGen step b a

namespace Derivable

theorem of_mem (h : a ∈ known) : Derivable step known a := ⟨a, h, .refl⟩

theorem next (h : Derivable step known b) (hstep : step b a) : Derivable step known a := by
  obtain ⟨c, hc, hpath⟩ := h
  exact ⟨c, hc, hpath.tail hstep⟩

/-- The last step of a derivation. -/
theorem cases_tail (h : Derivable step known a) :
    a ∈ known ∨ ∃ b, Derivable step known b ∧ step b a := by
  obtain ⟨c, hc, hpath⟩ := h
  rcases Relation.ReflTransGen.cases_tail hpath with rfl | ⟨b, hb, hstep⟩
  · exact .inl hc
  · exact .inr ⟨b, ⟨c, hc, hb⟩, hstep⟩

/-- **A value with no way to it but one**, which may have a condition. -/
theorem iff_of_only {condition : Prop} (honly : ∀ c, step c a ↔ condition ∧ c = b) :
    Derivable step known a ↔ a ∈ known ∨ condition ∧ Derivable step known b := by
  constructor
  · intro h
    rcases h.cases_tail with hmem | ⟨c, hc, hstep⟩
    · exact .inl hmem
    · obtain ⟨hcondition, rfl⟩ := (honly c).mp hstep
      exact .inr ⟨hcondition, hc⟩
  · rintro (hmem | ⟨hcondition, hb⟩)
    · exact of_mem hmem
    · exact hb.next ((honly b).mpr ⟨hcondition, rfl⟩)

/-- A value that nothing leads to. -/
theorem iff_of_none (hnone : ∀ c, ¬ step c a) : Derivable step known a ↔ a ∈ known := by
  constructor
  · intro h
    rcases h.cases_tail with hmem | ⟨c, -, hstep⟩
    · exact hmem
    · exact absurd hstep (hnone c)
  · exact of_mem

/-- **Along a chain**: from a place of it that is known, or from its start. -/
theorem iterate {f : α → α} (honly : ∀ a c, step c (f a) ↔ c = a) (n : ℕ) :
    Derivable step known (f^[n] a) ↔
      (∃ i, 0 < i ∧ i ≤ n ∧ f^[i] a ∈ known) ∨ Derivable step known a := by
  induction n with
  | zero =>
    refine ⟨.inr, ?_⟩
    rintro (⟨i, hpos, hle, -⟩ | h)
    · exact absurd hle (Nat.not_le.mpr hpos)
    · exact h
  | succ n ih =>
    have hlast : Derivable step known (f^[n + 1] a) ↔
        f^[n + 1] a ∈ known ∨ True ∧ Derivable step known (f^[n] a) := by
      refine iff_of_only fun c => ?_
      rw [Function.iterate_succ_apply', honly, true_and]
    rw [hlast, true_and, ih]
    constructor
    · rintro (hmem | ⟨i, hpos, hle, hmem⟩ | h)
      · exact .inl ⟨n + 1, n.succ_pos, le_rfl, hmem⟩
      · exact .inl ⟨i, hpos, Nat.le_succ_of_le hle, hmem⟩
      · exact .inr h
    · rintro (⟨i, hpos, hle, hmem⟩ | h)
      · rcases Nat.le_succ_iff.mp hle with hle | rfl
        · exact .inr (.inl ⟨i, hpos, hle, hmem⟩)
        · exact .inl hmem
      · exact .inr (.inr h)

end Derivable
