import Olm.Common.Bytes

/-!
# Reading records back in place

A reader that fills a value in from bytes, one part after another, and
stops at the first part that is not there. It works on the value in place,
so a reader that fails leaves behind what it had read so far.

`Unpickler.Reads` says that a reader consumes given bytes whatever follows
them, which is how one composes: the readers of two parts one after another
read the bytes of the two parts. `Unpickler.Preserves` says that a reader
never breaks a property, whatever the bytes and whether it fails or not.
`Unpickler.Consumes` says what a reader leaves of any input, and
`Unpickler.WritesBack` is the converse of `Unpickler.Reads`: nothing of the
bytes that were read is lost.
-/

/-- A reader: the value it leaves and the bytes after what it read, or
none where it failed. -/
abbrev Unpickler (σ : Type) := σ → Bytes → σ × Option Bytes

namespace Unpickler

variable {σ α : Type}

/-- One reader after another. -/
def andThen (u v : Unpickler σ) : Unpickler σ := fun s input =>
  match u s input with
  | (s, some rest) => v s rest
  | (s, none) => (s, none)

/-- A reader of one part of the value. -/
def field (get : σ → α) (set : σ → α → σ) (u : Unpickler α) : Unpickler σ := fun s input =>
  (set s (u (get s) input).1, (u (get s) input).2)

/-- A reader that only runs where the value so far asks for it. -/
def onlyIf (p : σ → Bool) (u : Unpickler σ) : Unpickler σ := fun s input =>
  if p s then u s input else (s, some input)

/-- A reader that fails. -/
def failWith (f : σ → σ) : Unpickler σ := fun s _ => (f s, none)

/-! ## Reading what was written -/

/-- The reader takes `s` to `s'` by reading exactly `bytes`. -/
def Reads (u : Unpickler σ) (s : σ) (bytes : Bytes) (s' : σ) : Prop :=
  ∀ rest, u s (bytes ++ rest) = (s', some rest)

section Reads

variable {u v : Unpickler σ} {s s' s'' : σ} {bytes bytes' : Bytes}

theorem Reads.andThen (hu : u.Reads s bytes s') (hv : v.Reads s' bytes' s'') :
    (u.andThen v).Reads s (bytes ++ bytes') s'' := by
  intro rest
  unfold Unpickler.andThen
  rw [List.append_assoc, hu]
  exact hv rest

theorem Reads.field {get : σ → α} {w : Unpickler α} {a : α} (set : σ → α → σ)
    (h : w.Reads (get s) bytes a) : (Unpickler.field get set w).Reads s bytes (set s a) := by
  intro rest
  simp only [Unpickler.field, h rest]

theorem Reads.onlyIf {p : σ → Bool} (hp : p s = true) (h : u.Reads s bytes s') :
    (u.onlyIf p).Reads s bytes s' := by
  intro rest
  rw [Unpickler.onlyIf, if_pos hp, h rest]

theorem reads_onlyIf_nil {p : σ → Bool} (hp : p s = false) : (u.onlyIf p).Reads s [] s := by
  intro rest
  simp only [Unpickler.onlyIf, hp, Bool.false_eq_true, if_false, List.nil_append]

end Reads

/-! ## What reading never breaks -/

/-- The property holds after the reader if it held before. -/
def Preserves (u : Unpickler σ) (P : σ → Prop) : Prop := ∀ s input, P s → P (u s input).1

section Preserves

variable {u v : Unpickler σ} {P : σ → Prop}

theorem Preserves.andThen (hu : u.Preserves P) (hv : v.Preserves P) :
    (u.andThen v).Preserves P := by
  intro s input h
  have hs := hu s input h
  unfold Unpickler.andThen
  split
  · rename_i s' rest heq
    rw [heq] at hs
    exact hv s' rest hs
  · rename_i s' heq
    rw [heq] at hs
    exact hs

theorem Preserves.field {get : σ → α} {set : σ → α → σ} (w : Unpickler α)
    (h : ∀ s a, P s → P (set s a)) : (Unpickler.field get set w).Preserves P :=
  fun s _ hs => h s _ hs

theorem Preserves.onlyIf (p : σ → Bool) (h : u.Preserves P) : (u.onlyIf p).Preserves P := by
  intro s input hs
  unfold Unpickler.onlyIf
  split
  · exact h s input hs
  · exact hs

end Preserves

/-! ## Readers that succeed -/

section Success

variable {u v : Unpickler σ} {s s' : σ} {input rest : Bytes}

/-- Two readers one after another succeed when both do. -/
theorem andThen_eq_some :
    u.andThen v s input = (s', some rest) ↔
      ∃ s₁ rest₁, u s input = (s₁, some rest₁) ∧ v s₁ rest₁ = (s', some rest) := by
  unfold andThen
  split
  · rename_i s₁ rest₁ heq
    simp [heq]
  · rename_i s₁ heq
    simp [heq]

theorem field_eq_some {get : σ → α} {set : σ → α → σ} {w : Unpickler α} :
    field get set w s input = (s', some rest) ↔
      ∃ a, w (get s) input = (a, some rest) ∧ s' = set s a := by
  simp only [field, Prod.mk.injEq]
  constructor
  · rintro ⟨rfl, hrest⟩
    exact ⟨_, Prod.ext rfl hrest, rfl⟩
  · rintro ⟨a, hread, rfl⟩
    simp only [hread, and_self]

theorem onlyIf_eq_some {p : σ → Bool} (h : u.onlyIf p s input = (s', some rest)) :
    (p s = true ∧ u s input = (s', some rest)) ∨ (p s = false ∧ s' = s ∧ rest = input) := by
  unfold onlyIf at h
  split at h
  · rename_i hp
    exact .inl ⟨hp, h⟩
  · rename_i hp
    simp only [Prod.mk.injEq, Option.some.injEq] at h
    exact .inr ⟨by simpa using hp, h.1.symm, h.2.symm⟩

end Success

/-! ## What reading leaves of the input -/

/-- The input after its first `n` bytes, if it has so many. -/
def skip (n : ℕ) (input : Bytes) : Option Bytes :=
  if n ≤ input.length then some (input.drop n) else none

theorem skip_eq_some {n : ℕ} {input rest : Bytes} :
    skip n input = some rest ↔ n ≤ input.length ∧ rest = input.drop n := by
  unfold skip
  split
  · rename_i hle
    simp only [Option.some.injEq, hle, true_and, eq_comm]
  · rename_i hlt
    simp only [reduceCtorEq, hlt, false_and]

theorem skip_bind_skip (m n : ℕ) (input : Bytes) :
    skip m input >>= skip n = skip (m + n) input := by
  unfold skip
  split
  · rename_i hm
    simp only [Option.bind_eq_bind, Option.bind_some, List.length_drop, List.drop_drop]
    by_cases hn : n ≤ input.length - m
    · rw [if_pos hn, if_pos (by omega)]
    · rw [if_neg hn, if_neg (by omega)]
  · rw [if_neg (by omega)]
    rfl

theorem skip_bind_skip_bind (m n : ℕ) (left : Bytes → Option Bytes) (input : Bytes) :
    (skip m input >>= fun input => skip n input >>= left) = skip (m + n) input >>= left := by
  rw [← skip_bind_skip, bind_assoc]

/-- What the reader leaves of an input does not depend on the value. -/
def Consumes (u : Unpickler σ) (left : Bytes → Option Bytes) : Prop :=
  ∀ s input, (u s input).2 = left input

section Consumes

variable {u v : Unpickler σ} {left left' : Bytes → Option Bytes}

theorem Consumes.andThen (hu : u.Consumes left) (hv : v.Consumes left') :
    (u.andThen v).Consumes fun input => left input >>= left' := by
  intro s input
  have hs := hu s input
  unfold Unpickler.andThen
  split
  · rename_i s' rest heq
    rw [heq] at hs
    calc (v s' rest).2 = left' rest := hv s' rest
      _ = left input >>= left' := by rw [← hs]; rfl
  · rename_i s' heq
    rw [heq] at hs
    calc none = none >>= left' := rfl
      _ = left input >>= left' := by rw [← hs]

theorem Consumes.andThen_skip {m n : ℕ} (hu : u.Consumes (skip m)) (hv : v.Consumes (skip n)) :
    (u.andThen v).Consumes (skip (m + n)) :=
  fun s input => (hu.andThen hv s input).trans (skip_bind_skip m n input)

theorem Consumes.field {get : σ → α} {w : Unpickler α} (set : σ → α → σ)
    (h : w.Consumes left) : (Unpickler.field get set w).Consumes left :=
  fun s input => h (get s) input

/-- A reader that is never asked for takes nothing. -/
theorem Consumes.andThen_onlyIf_false (hu : u.Consumes left) :
    (u.andThen (v.onlyIf fun _ => false)).Consumes left := by
  intro s input
  have hv : (v.onlyIf fun _ => false).Consumes some := fun _ _ => rfl
  exact (hu.andThen hv s input).trans (bind_pure (left input))

theorem Consumes.onlyIf_true (hu : u.Consumes left) :
    (u.onlyIf fun _ => true).Consumes left := hu

/-- A reader succeeds when something is left. -/
theorem Consumes.exists_eq_some (h : u.Consumes left) {s : σ} {input rest : Bytes} :
    (∃ s', u s input = (s', some rest)) ↔ left input = some rest := by
  rw [← h s input]
  constructor
  · rintro ⟨s', hread⟩
    rw [hread]
  · intro hrest
    exact ⟨(u s input).1, Prod.ext rfl hrest⟩

end Consumes

/-! ## Why reading fails -/

section Scans

variable {β ε : Type} {u v : Unpickler σ} {view : σ → β} {mark : ε → β → β}
  {scan scan' : Bytes → Except ε Bytes}

/-- What is left, or the reason that reading fails. `view` shows the same of
the value as before, or what `mark` makes of it for that reason. -/
def Outcome (view : σ → β) (mark : ε → β → β) (s : σ) (result : σ × Option Bytes) :
    Except ε Bytes → Prop
  | .ok rest => result.2 = some rest ∧ view result.1 = view s
  | .error e => result.2 = none ∧ view result.1 = mark e (view s)

theorem Outcome.congr {s s' : σ} {result : σ × Option Bytes} {scanned : Except ε Bytes}
    (h : Outcome view mark s result scanned) (hview : view s = view s') :
    Outcome view mark s' result scanned := by
  unfold Outcome at h ⊢
  rw [← hview]
  exact h

/-- The reader fails where `scan` does, and for the same reason. -/
def Scans (u : Unpickler σ) (view : σ → β) (mark : ε → β → β) (scan : Bytes → Except ε Bytes) :
    Prop :=
  ∀ s input, Outcome view mark s (u s input) (scan input)

/-- The same of the values with a property. -/
def ScansWhere (u : Unpickler σ) (P : σ → Prop) (view : σ → β) (mark : ε → β → β)
    (scan : Bytes → Except ε Bytes) : Prop :=
  ∀ s input, P s → Outcome view mark s (u s input) (scan input)

/-- What is left, or the reason that nothing is. -/
def orError (e : ε) : Option Bytes → Except ε Bytes
  | some rest => .ok rest
  | none => .error e

theorem ScansWhere.andThen {P : σ → Prop} (hu : u.ScansWhere P view mark scan)
    (hkeep : u.Preserves P) (hv : v.ScansWhere P view mark scan') :
    (u.andThen v).ScansWhere P view mark fun input => scan input >>= scan' := by
  intro s input hP
  have hs := hu s input hP
  cases hscan : scan input with
  | error e =>
    rw [hscan] at hs
    have hread : u s input = ((u s input).1, none) := Prod.ext rfl hs.1
    simp only [Unpickler.andThen, hscan]
    rw [hread]
    exact ⟨rfl, hs.2⟩
  | ok rest =>
    rw [hscan] at hs
    have hread : u s input = ((u s input).1, some rest) := Prod.ext rfl hs.1
    have hrest := hv (u s input).1 rest (hkeep s input hP)
    simp only [Unpickler.andThen, hscan]
    rw [hread]
    exact hrest.congr hs.2

/-- A reader that is asked for or not, as the property says. -/
theorem ScansWhere.onlyIf {P : σ → Prop} {p : σ → Bool} {q : Prop} [Decidable q]
    (hp : ∀ s, P s → p s = decide q) (hu : u.ScansWhere P view mark scan) :
    (u.onlyIf p).ScansWhere P view mark fun input => if q then scan input else .ok input := by
  intro s input hP
  unfold Unpickler.onlyIf
  rw [hp s hP]
  by_cases hq : q
  · simp only [hq, decide_true, if_true]
    exact hu s input hP
  · simp only [hq, decide_false, if_false, Bool.false_eq_true]
    exact ⟨rfl, rfl⟩

theorem Scans.scansWhere (h : u.Scans view mark scan) (P : σ → Prop) :
    u.ScansWhere P view mark scan :=
  fun s input _ => h s input

theorem ScansWhere.scans (h : u.ScansWhere (fun _ => True) view mark scan) :
    u.Scans view mark scan :=
  fun s input => h s input trivial

theorem Scans.andThen (hu : u.Scans view mark scan) (hv : v.Scans view mark scan') :
    (u.andThen v).Scans view mark fun input => scan input >>= scan' :=
  ((hu.scansWhere _).andThen (fun _ _ _ => trivial) (hv.scansWhere _)).scans

theorem Scans.onlyIf {p : Prop} [Decidable p] (hu : u.Scans view mark scan) :
    (u.onlyIf fun _ => p).Scans view mark fun input => if p then scan input else .ok input :=
  ((hu.scansWhere _).onlyIf fun _ _ => rfl).scans

/-- One of two readers. -/
theorem Scans.ite {p : Prop} [Decidable p] (hu : u.Scans view mark scan)
    (hv : v.Scans view mark scan') :
    Scans (fun s input => if p then u s input else v s input) view mark fun input =>
      if p then scan input else scan' input := by
  intro s input
  dsimp only
  split
  · exact hu s input
  · exact hv s input

/-- A reader that can only run out of bytes, and does not touch what is
shown. -/
theorem Consumes.scans {left : Bytes → Option Bytes} (h : u.Consumes left) {e : ε}
    (hmark : ∀ b, mark e b = b) (hkeep : ∀ b, u.Preserves fun s => view s = b) :
    u.Scans view mark fun input => orError e (left input) := by
  intro s input
  have hview := hkeep (view s) s input rfl
  have hleft := h s input
  dsimp only
  cases hrest : left input with
  | none => exact ⟨hleft.trans hrest, hview.trans (hmark _).symm⟩
  | some rest => exact ⟨hleft.trans hrest, hview⟩

end Scans

/-! ## Writing what was read -/

/-- What was read is written as the bytes it was read from. -/
def WritesBack (u : Unpickler σ) (write : σ → Bytes) : Prop :=
  ∀ s s' input rest, u s input = (s', some rest) → input = write s' ++ rest

section WritesBack

variable {u v : Unpickler σ} {write write' : σ → Bytes}

/-- The second reader does not touch what the first one read. -/
theorem WritesBack.andThen (hu : u.WritesBack write) (hv : v.WritesBack write')
    (hkeep : ∀ bytes, v.Preserves fun s => write s = bytes) :
    (u.andThen v).WritesBack fun s => write s ++ write' s := by
  intro s s' input rest h
  obtain ⟨s₁, rest₁, hread, hread'⟩ := andThen_eq_some.mp h
  have hkept := hkeep (write s₁) s₁ rest₁ rfl
  rw [hread'] at hkept
  calc input = write s₁ ++ rest₁ := hu s s₁ input rest₁ hread
    _ = write s' ++ (write' s' ++ rest) := by rw [← hkept, hv s₁ s' rest₁ rest hread']
    _ = write s' ++ write' s' ++ rest := (List.append_assoc _ _ _).symm

theorem WritesBack.field {get : σ → α} {set : σ → α → σ} {w : Unpickler α} {write : α → Bytes}
    (h : w.WritesBack write) (hget : ∀ s a, get (set s a) = a) :
    (Unpickler.field get set w).WritesBack fun s => write (get s) := by
  intro s s' input rest hfield
  obtain ⟨a, hread, rfl⟩ := field_eq_some.mp hfield
  calc input = write a ++ rest := h (get s) a input rest hread
    _ = write (get (set s a)) ++ rest := by rw [hget]

end WritesBack

end Unpickler
