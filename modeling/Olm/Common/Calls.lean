import Olm.Common.Bytes

/-!
# Calls and their replies

A thing that is called, again and again, and replies. Two of them cannot be
told apart if the same calls always get the same replies. For that it is
enough to relate their states in a way that one call keeps
(`KeepsReplies.replies_eq`): the states need not be equal, as long as what
differs never shows in a reply.

Where a call that fails leaves its error in the state, `report` makes the
reply of the result or the error.
-/

variable {σ τ ι ω : Type}

/-- The replies to calls, made one after another. -/
def replies (call : σ → ι → Checked (σ × ω)) : σ → List ι → Checked (List ω)
  | _, [] => .ok []
  | s, i :: calls => do
    let (s, reply) ← call s i
    let rest ← replies call s calls
    .ok (reply :: rest)

/-- The state after calls, up to one that faults. -/
def afterCalls (call : σ → ι → Checked (σ × ω)) : σ → List ι → σ
  | s, [] => s
  | s, i :: calls =>
    match call s i with
    | .ok (s, _) => afterCalls call s calls
    | .error _ => s

/-- What one call keeps, calls keep. -/
theorem afterCalls_invariant {call : σ → ι → Checked (σ × ω)} {P : σ → Prop}
    (hcall : ∀ s i s' reply, P s → call s i = .ok (s', reply) → P s') {s : σ} (h : P s)
    (calls : List ι) : P (afterCalls call s calls) := by
  induction calls generalizing s with
  | nil => exact h
  | cons i calls ih =>
    unfold afterCalls
    split
    · rename_i s' reply heq
      exact ih (hcall s i s' reply h heq)
    · exact h

/-- Two outcomes of a call: the same reply and related states, or the same
fault. -/
inductive SameReply (R : σ → τ → Prop) : Checked (σ × ω) → Checked (τ × ω) → Prop
  | ok {s : σ} {t : τ} (reply : ω) : R s t → SameReply R (.ok (s, reply)) (.ok (t, reply))
  | error (fault : Fault) : SameReply R (.error fault) (.error fault)

/-- A relation of states that one call keeps, with the same reply. -/
def KeepsReplies (call : σ → ι → Checked (σ × ω)) (call' : τ → ι → Checked (τ × ω))
    (R : σ → τ → Prop) : Prop :=
  ∀ s t i, R s t → SameReply R (call s i) (call' t i)

/-- **Related states cannot be told apart** by any calls. -/
theorem KeepsReplies.replies_eq {call : σ → ι → Checked (σ × ω)} {call' : τ → ι → Checked (τ × ω)}
    {R : σ → τ → Prop} (h : KeepsReplies call call' R) {s : σ} {t : τ} (hR : R s t)
    (calls : List ι) : replies call s calls = replies call' t calls := by
  induction calls generalizing s t with
  | nil => rfl
  | cons i calls ih =>
    have hcall := h s t i hR
    unfold replies
    generalize call s i = outcome at hcall
    generalize call' t i = outcome' at hcall
    cases hcall with
    | ok reply hnext => simp only [Checked.ok_bind, ih hnext]
    | error fault => rfl

/-! ## Calls that report an error -/

section Report

variable {ε α β : Type}

/-- The outcome of a call as its caller sees it: the result, or the error
that a failed call left in the state. -/
def report (lastError : σ → ε) (f : α → ω) (outcome : Checked (σ × Option α)) :
    Checked (σ × Except ε ω) := do
  let (s, result) ← outcome
  match result with
  | some a => .ok (s, .ok (f a))
  | none => .ok (s, .error (lastError s))

/-- What was returned, and what of it the caller sees. -/
theorem report_cases {lastError : σ → ε} {f : α → ω} {outcome : Checked (σ × Option α)} {s : σ}
    {reply : Except ε ω} (h : report lastError f outcome = .ok (s, reply)) :
    (outcome = .ok (s, none) ∧ reply = .error (lastError s)) ∨
      ∃ a, outcome = .ok (s, some a) ∧ reply = .ok (f a) := by
  unfold report at h
  obtain ⟨⟨s', result⟩, houtcome, h⟩ := Checked.bind_eq_ok.mp h
  cases result with
  | some a =>
    obtain ⟨rfl, rfl⟩ := Prod.mk.inj (Except.ok.inj h)
    exact .inr ⟨a, houtcome, rfl⟩
  | none =>
    obtain ⟨rfl, rfl⟩ := Prod.mk.inj (Except.ok.inj h)
    exact .inl ⟨houtcome, rfl⟩

theorem report_eq_ok {lastError : σ → ε} {f : α → ω} {outcome : Checked (σ × Option α)} {s : σ}
    {reply : Except ε ω} (h : report lastError f outcome = .ok (s, reply)) :
    ∃ result, outcome = .ok (s, result) := by
  rcases report_cases h with ⟨houtcome, -⟩ | ⟨a, houtcome, -⟩
  · exact ⟨none, houtcome⟩
  · exact ⟨some a, houtcome⟩

/-- The call returns the value for an error, and leaves the code. -/
def FailsWith (lastError : σ → ε) (code : ε) (outcome : Checked (σ × Option α)) : Prop :=
  ∃ s, outcome = .ok (s, none) ∧ lastError s = code

theorem failsWith_none {lastError : σ → ε} {code : ε} {s : σ} :
    FailsWith lastError code (.ok (s, (none : Option α))) ↔ lastError s = code := by
  constructor
  · rintro ⟨s', h, hcode⟩
    cases h
    exact hcode
  · intro h
    exact ⟨s, rfl, h⟩

theorem not_failsWith_some {lastError : σ → ε} {code : ε} {s : σ} {a : α} :
    ¬FailsWith lastError code (.ok (s, some a)) := by
  rintro ⟨s', h, -⟩
  cases h

theorem failsWith_bind {lastError : σ → ε} {code : ε} {x : Checked β}
    {g : β → Checked (σ × Option α)} :
    FailsWith lastError code (x >>= g) ↔ ∃ b, x = .ok b ∧ FailsWith lastError code (g b) := by
  cases x with
  | ok b => simp [Checked.ok_bind]
  | error fault => exact iff_of_false (fun ⟨_, h, _⟩ => nomatch h) fun ⟨_, h, _⟩ => nomatch h

/-- A computation that comes before does not make a call fail. -/
theorem not_failsWith_bind {lastError : σ → ε} {code : ε} {x : Checked β}
    {g : β → Checked (σ × Option α)} (h : ∀ b, ¬FailsWith lastError code (g b)) :
    ¬FailsWith lastError code (x >>= g) := by
  rw [failsWith_bind]
  rintro ⟨b, -, hb⟩
  exact h b hb

theorem not_failsWith_ite {lastError : σ → ε} {code : ε} {c : Prop} [Decidable c]
    {x y : Checked (σ × Option α)} (hx : ¬FailsWith lastError code x)
    (hy : ¬FailsWith lastError code y) : ¬FailsWith lastError code (if c then x else y) := by
  split
  · exact hx
  · exact hy

/-- A call that fails so by one check only. -/
theorem failsWith_ite_iff {lastError : σ → ε} {code : ε} {c : Prop} [Decidable c]
    {x y : Checked (σ × Option α)} (hx : FailsWith lastError code x)
    (hy : ¬FailsWith lastError code y) : FailsWith lastError code (if c then x else y) ↔ c := by
  split
  · rename_i hc
    exact iff_of_true hx hc
  · rename_i hc
    exact iff_of_false hy hc

variable {R : σ → τ → Prop} {lastError : σ → ε} {lastError' : τ → ε} {f : α → ω}

theorem SameReply.report_some {s : σ} {t : τ} (a : α) (hR : R s t) :
    SameReply R (report lastError f (.ok (s, some a))) (report lastError' f (.ok (t, some a))) :=
  .ok _ hR

theorem SameReply.report_none {s : σ} {t : τ} (hR : R s t) (herror : lastError s = lastError' t) :
    SameReply R (report lastError f (.ok (s, none))) (report lastError' f (.ok (t, none))) := by
  unfold report
  rw [Checked.ok_bind, Checked.ok_bind]
  dsimp only
  rw [herror]
  exact .ok _ hR

/-- Two calls that start with the same computation. -/
theorem SameReply.bind {R : σ → τ → Prop} {x : Checked β} {g : β → Checked (σ × ω)}
    {g' : β → Checked (τ × ω)} (h : ∀ b, SameReply R (g b) (g' b)) :
    SameReply R (x >>= g) (x >>= g') := by
  cases x with
  | ok b => exact h b
  | error fault => exact .error fault

theorem SameReply.report_bind_of_eq {x : Checked β} {g : β → Checked (σ × Option α)}
    {g' : β → Checked (τ × Option α)}
    (h : ∀ b, x = .ok b → SameReply R (report lastError f (g b)) (report lastError' f (g' b))) :
    SameReply R (report lastError f (x >>= g)) (report lastError' f (x >>= g')) := by
  cases x with
  | ok b => exact h b rfl
  | error fault => exact .error fault

theorem SameReply.report_bind {x : Checked β} {g : β → Checked (σ × Option α)}
    {g' : β → Checked (τ × Option α)}
    (h : ∀ b, SameReply R (report lastError f (g b)) (report lastError' f (g' b))) :
    SameReply R (report lastError f (x >>= g)) (report lastError' f (x >>= g')) :=
  .report_bind_of_eq fun b _ => h b

/-- Two calls that make the same check. -/
theorem SameReply.report_ite {c : Prop} [Decidable c] {x y : Checked (σ × Option α)}
    {x' y' : Checked (τ × Option α)}
    (hthen : SameReply R (report lastError f x) (report lastError' f x'))
    (helse : SameReply R (report lastError f y) (report lastError' f y')) :
    SameReply R (report lastError f (if c then x else y))
      (report lastError' f (if c then x' else y')) := by
  split
  · exact hthen
  · exact helse

end Report
