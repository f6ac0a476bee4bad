import Mathlib.Data.List.Perm.Basic

/-!
# A window that keeps what it skips

Numbered things come in any order. A thing at or after the window moves it
past that number, and something is put in front for each number that was
skipped over; a thing before the window takes out what was kept for it.
Where it has got to, and what it keeps and in which order, depends on the
set of the numbers alone (`receive_comm`, `foldl_receive_perm`).
-/

/-- Where the window starts, and what is kept of what it skipped. -/
structure Window (α : Type) where
  index : ℕ
  kept : List α

namespace Window

variable {α : Type} (keyAt : ℕ → α) (isFor : ℕ → α → Bool)

/-- What is kept for the numbers from `index` up to `counter`, the last one
first. -/
def skippedRange (index counter : ℕ) : List α :=
  ((List.range' index (counter - index)).map keyAt).reverse

/-- The window after the thing numbered `counter`. -/
def receive (window : Window α) (counter : ℕ) : Window α :=
  if window.index ≤ counter then
    { index := counter + 1, kept := skippedRange keyAt window.index counter ++ window.kept }
  else { window with kept := window.kept.eraseP (isFor counter) }

/-- What is skipped over is what is skipped before a number, what is kept for
it, and what is skipped after it. -/
theorem skippedRange_split {index counter counter' : ℕ} (hle : index ≤ counter)
    (hlt : counter < counter') :
    skippedRange keyAt index counter' =
      skippedRange keyAt (counter + 1) counter' ++
        keyAt counter :: skippedRange keyAt index counter := by
  have hlength : counter' - index = (counter - index) + ((counter' - (counter + 1)) + 1) := by
    omega
  have hstart : index + (counter - index) = counter := by omega
  rw [skippedRange, hlength, ← List.range'_append_1, hstart, List.range'_succ, List.map_append,
    List.reverse_append, List.map_cons, List.reverse_cons, List.append_assoc]
  rfl

theorem mem_skippedRange {index counter : ℕ} {a : α} :
    a ∈ skippedRange keyAt index counter ↔ ∃ i, index ≤ i ∧ i < counter ∧ a = keyAt i := by
  simp only [skippedRange, List.mem_reverse, List.mem_map, List.mem_range'_1]
  constructor
  · rintro ⟨i, ⟨hle, hlt⟩, rfl⟩
    exact ⟨i, hle, by omega, rfl⟩
  · rintro ⟨i, hle, hlt, rfl⟩
    exact ⟨i, ⟨hle, by omega⟩, rfl⟩

section Order

variable {keyAt isFor} (hfor : ∀ counter i, isFor counter (keyAt i) = true ↔ i = counter)

include hfor

/-- Nothing in a range that leaves the number out is kept for it. -/
theorem not_isFor_of_mem_skippedRange {index counter i : ℕ} {a : α}
    (ha : a ∈ skippedRange keyAt index counter) (hi : i < index ∨ counter ≤ i) :
    ¬ isFor i a = true := by
  obtain ⟨j, hle, hlt, rfl⟩ := (mem_skippedRange keyAt).mp ha
  rw [hfor]
  omega

variable (honly : ∀ counter counter' a, isFor counter a = true → isFor counter' a = true →
  counter = counter')

include honly

/-- The later of two things first, or last. -/
theorem receive_comm_of_lt (window : Window α) {counter counter' : ℕ} (hlt : counter < counter') :
    receive keyAt isFor (receive keyAt isFor window counter) counter' =
      receive keyAt isFor (receive keyAt isFor window counter') counter := by
  have hdisjoint : ∀ a ∈ window.kept, ¬ isFor counter a = true ∨ ¬ isFor counter' a = true := by
    intro a _
    by_contra hboth
    rw [not_or, not_not, not_not] at hboth
    exact absurd (honly counter counter' a hboth.1 hboth.2) (by omega)
  unfold receive
  by_cases hboth : window.index ≤ counter
  · -- the later one skips over the earlier one, which is taken out again
    have hfirst : isFor counter (keyAt counter) = true := (hfor counter counter).mpr rfl
    rw [if_pos hboth, if_pos (show window.index ≤ counter' by omega)]
    dsimp only
    rw [if_pos (show counter + 1 ≤ counter' by omega), if_neg (by omega : ¬ counter' + 1 ≤ counter),
      skippedRange_split keyAt hboth hlt, List.append_assoc,
      List.eraseP_append_right _ (fun a ha =>
        not_isFor_of_mem_skippedRange hfor ha (.inl (Nat.lt_succ_self counter))),
      List.cons_append, List.eraseP_cons_of_pos hfirst]
  · by_cases hlater : window.index ≤ counter'
    · -- the earlier one is not among those that the later one skips over
      rw [if_neg hboth, if_pos hlater]
      dsimp only
      rw [if_pos hlater, if_neg (show ¬ counter' + 1 ≤ counter by omega),
        List.eraseP_append_right _ (fun a ha =>
          not_isFor_of_mem_skippedRange hfor ha (.inl (by omega)))]
    · rw [if_neg hboth, if_neg hlater]
      dsimp only
      rw [if_neg hlater, if_neg hboth, List.eraseP_comm hdisjoint]

/-- **Two things may come in either order.** -/
theorem receive_comm (window : Window α) (counter counter' : ℕ) :
    receive keyAt isFor (receive keyAt isFor window counter) counter' =
      receive keyAt isFor (receive keyAt isFor window counter') counter := by
  rcases Nat.lt_trichotomy counter counter' with hlt | rfl | hlt
  · exact receive_comm_of_lt hfor honly window hlt
  · rfl
  · exact (receive_comm_of_lt hfor honly window hlt).symm

/-- **Any number of things may come in any order.** -/
theorem foldl_receive_perm (window : Window α) {counters counters' : List ℕ}
    (h : counters.Perm counters') :
    counters.foldl (receive keyAt isFor) window = counters'.foldl (receive keyAt isFor) window :=
  h.foldl_eq' (fun counter _ counter' _ window => receive_comm hfor honly window counter counter')
    window

end Order

end Window
