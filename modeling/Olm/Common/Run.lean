import Olm.Common.Bytes

/-!
# Runs

What holds throughout the runs of a system that takes one event at a time.
`step` may fault; a run is made of the steps that do not, under assumptions
on the events that are taken. A result about all runs is a property of the
start and of one step (`Run.invariant`), and a run of one system is one of
another where the steps of the first are runs of the second
(`Run.simulation`). A script of events is checked as it is played, and one
that passes is a run (`Run.Plays.run`).
-/

variable {σ τ ε δ : Type}

/-- The states that a run from `start` gets to by events that meet
`assumed`. -/
inductive Run (step : σ → ε → Checked σ) (assumed : σ → ε → Prop) (start : σ) : σ → Prop
  | start : Run step assumed start start
  | step {s s' : σ} (e : ε) : Run step assumed start s → assumed s e → step s e = .ok s' →
      Run step assumed start s'

namespace Run

variable {step : σ → ε → Checked σ} {assumed : σ → ε → Prop} {start s s' : σ}

/-- **What one step preserves holds throughout.** -/
theorem invariant {P : σ → Prop} (hstart : P start)
    (hstep : ∀ s e s', P s → assumed s e → step s e = .ok s' → P s')
    (h : Run step assumed start s) : P s := by
  induction h with
  | start => exact hstart
  | step e _ hassumed hrun ih => exact hstep _ e _ ih hassumed hrun

theorem trans (h : Run step assumed start s) (h' : Run step assumed s s') :
    Run step assumed start s' := by
  induction h' with
  | start => exact h
  | step e _ hassumed hrun ih => exact .step e ih hassumed hrun

/-- **A simulation**: a relation that every step of the first system keeps by
a run of the second. -/
theorem simulation {step' : τ → δ → Checked τ} {assumed' : τ → δ → Prop} {start' : τ}
    {R : σ → τ → Prop} (hstart : R start start')
    (hstep : ∀ s t e s', R s t → assumed s e → step s e = .ok s' →
      ∃ t', Run step' assumed' t t' ∧ R s' t')
    (h : Run step assumed start s) : ∃ t, Run step' assumed' start' t ∧ R s t := by
  induction h with
  | start => exact ⟨start', .start, hstart⟩
  | step e _ hassumed hrun ih =>
    obtain ⟨t, ht, hR⟩ := ih
    obtain ⟨t', ht', hR'⟩ := hstep _ t e _ hR hassumed hrun
    exact ⟨t', ht.trans ht', hR'⟩

/-- The state after an event that does not fault. -/
def next (step : σ → ε → Checked σ) (s : σ) (e : ε) : σ :=
  match step s e with
  | .ok s' => s'
  | .error _ => s

theorem step_eq_next {e : ε} (h : (step s e).isOk = true) : step s e = .ok (next step s e) := by
  unfold next
  cases hstep : step s e with
  | ok s' => rfl
  | error fault =>
    rw [hstep] at h
    cases h

/-- A run goes on where a step does not fault. -/
theorem extend (h : Run step assumed start s) (e : ε) (hassumed : assumed s e)
    (hok : (step s e).isOk = true) : Run step assumed start (next step s e) :=
  .step e h hassumed (step_eq_next hok)

/-! ## Scripts -/

/-- The state after a script of events, each of which is made of the state that
it finds. -/
def play (step : σ → ε → Checked σ) : List (σ → ε) → σ → σ
  | [], s => s
  | e :: script, s => play step script (next step s (e s))

/-- **The script can be played**: each event meets the assumption where it comes,
and does not fault. -/
def Plays (step : σ → ε → Checked σ) (assumed : σ → ε → Prop) : List (σ → ε) → σ → Prop
  | [], _ => True
  | e :: script, s =>
    assumed s (e s) ∧ (step s (e s)).isOk = true ∧ Plays step assumed script (next step s (e s))

/-- So a script can be tried out. -/
instance decidablePlays [∀ s e, Decidable (assumed s e)] :
    (script : List (σ → ε)) → (s : σ) → Decidable (Plays step assumed script s)
  | [], _ => .isTrue trivial
  | e :: script, s =>
    have : Decidable (Plays step assumed script (next step s (e s))) :=
      decidablePlays script (next step s (e s))
    inferInstanceAs (Decidable (_ ∧ _ ∧ _))

/-- **What is played is a run**, under any assumption that follows. -/
theorem Plays.run {assumed' : σ → ε → Prop} (himp : ∀ s e, assumed s e → assumed' s e)
    {script : List (σ → ε)} (h : Run step assumed' start s) (hplays : Plays step assumed script s) :
    Run step assumed' start (play step script s) := by
  induction script generalizing s with
  | nil => exact h
  | cons e script ih =>
    obtain ⟨hassumed, hok, hrest⟩ := hplays
    exact ih (h.extend (e s) (himp _ _ hassumed) hok) hrest

end Run
