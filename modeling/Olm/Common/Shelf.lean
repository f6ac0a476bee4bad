import Mathlib.Data.List.Nodup

/-!
# A shelf, and what is on it

A shelf has room for so many things. A new one is put in front, and pushes
the one at the end off a full shelf; things are taken out from anywhere. So
what is on it depends on the order in which everything happened.
`mem_shelf_iff` says it of a thing on its own: it was put there and not
taken since, and at no time were there as many newer ones that had not been
taken as there is room for.

What happened is a list, the last first.
-/

namespace Shelf

variable {α : Type}

/-- A thing is put on the shelf or taken from it. -/
inductive Event (α : Type) where
  | put (a : α)
  | take (a : α)
  deriving DecidableEq

/-- What was put on the shelf, the last first. -/
def puts : List (Event α) → List α
  | [] => []
  | .put a :: events => a :: puts events
  | .take _ :: events => puts events

theorem mem_puts {a : α} {events : List (Event α)} : a ∈ puts events ↔ Event.put a ∈ events := by
  induction events with
  | nil => simp [puts]
  | cons event events ih => cases event <;> simp [puts, ih]

theorem puts_append (later earlier : List (Event α)) :
    puts (later ++ earlier) = puts later ++ puts earlier := by
  induction later with
  | nil => rfl
  | cons event later ih => cases event <;> simp [puts, ih]

/-- What is in front of an element, and the element, are not cut off. -/
theorem exists_take_append_cons {n : ℕ} {a : α} {front rest : List α} (h : front.length < n) :
    ∃ rest', (front ++ a :: rest).take n = front ++ a :: rest' := by
  obtain ⟨m, hm⟩ : ∃ m, n - front.length = m + 1 := ⟨n - front.length - 1, by omega⟩
  refine ⟨rest.take m, ?_⟩
  rw [List.take_append, List.take_of_length_le (Nat.le_of_lt h), hm, List.take_succ_cons]

variable [DecidableEq α]

/-- What was put there and not taken since, the last first. -/
def untaken : List (Event α) → List α
  | [] => []
  | .put a :: events => a :: untaken events
  | .take a :: events => (untaken events).erase a

/-- What is on a shelf with room for `n`, the last first. -/
def shelf (n : ℕ) : List (Event α) → List α
  | [] => []
  | .put a :: events => (a :: shelf n events).take n
  | .take a :: events => (shelf n events).erase a

variable {n : ℕ} {a : α} {events later earlier : List (Event α)}

theorem untaken_sublist (events : List (Event α)) : (untaken events).Sublist (puts events) := by
  induction events with
  | nil => exact .slnil
  | cons event events ih =>
    cases event with
    | put b => exact ih.cons_cons b
    | take b => exact List.erase_sublist.trans ih

theorem shelf_sublist (n : ℕ) (events : List (Event α)) :
    (shelf n events).Sublist (puts events) := by
  induction events with
  | nil => exact .slnil
  | cons event events ih =>
    cases event with
    | put b => exact (List.take_sublist _ _).trans (ih.cons_cons b)
    | take b => exact List.erase_sublist.trans ih

/-- It was not taken since, and there was always room for it. -/
def Stays (n : ℕ) (later : List (Event α)) (a : α) : Prop :=
  .take a ∉ later ∧ ∀ recent, recent <:+ later → (untaken recent).length < n

/-- With every event it has stayed until then, and stays. -/
theorem stays_cons {event : Event α} :
    Stays n (event :: later) a ↔
      event ≠ .take a ∧ Stays n later a ∧ (untaken (event :: later)).length < n := by
  unfold Stays
  simp only [List.suffix_cons_iff, forall_eq_or_imp, List.mem_cons, not_or]
  constructor
  · rintro ⟨⟨hne, htake⟩, hlength, hrecent⟩
    exact ⟨fun h => hne h.symm, ⟨htake, hrecent⟩, hlength⟩
  · rintro ⟨hne, ⟨htake, hrecent⟩, hlength⟩
    exact ⟨⟨fun h => hne h.symm, htake⟩, hlength, hrecent⟩

/-- **The shelf after a thing was put there**: as long as it stays, the newer
ones that were not taken are in front of it; once it does not, it is gone. -/
theorem shelf_append_put (hnodup : (puts (later ++ .put a :: earlier)).Nodup) :
    (Stays n later a → ∃ rest, shelf n (later ++ .put a :: earlier) = untaken later ++ a :: rest) ∧
    (¬ Stays n later a → a ∉ shelf n (later ++ .put a :: earlier)) := by
  induction later with
  | nil =>
    constructor
    · intro hstays
      have hpos := hstays.2 [] (List.suffix_refl _)
      obtain ⟨n, rfl⟩ := Nat.exists_eq_succ_of_ne_zero (Nat.ne_of_gt hpos)
      exact ⟨(shelf (n + 1) earlier).take n, rfl⟩
    · intro hnot hmem
      have hzero : n = 0 := by
        by_contra hne
        refine hnot ⟨List.not_mem_nil, fun recent hrecent => ?_⟩
        rw [List.suffix_nil.mp hrecent]
        exact Nat.pos_of_ne_zero hne
      subst hzero
      cases hmem
  | cons event later ih =>
    rw [List.cons_append] at hnodup ⊢
    cases event with
    | put b =>
      obtain ⟨hnew, hold⟩ := List.nodup_cons.mp hnodup
      obtain ⟨hstay, hgone⟩ := ih hold
      have hne : b ≠ a := by
        rintro rfl
        exact hnew (mem_puts.mpr (List.mem_append_right _ List.mem_cons_self))
      by_cases hlater : Stays n later a
      · obtain ⟨rest, hrest⟩ := hstay hlater
        rw [shelf, hrest, ← List.cons_append]
        constructor
        · intro hstays
          exact exists_take_append_cons (stays_cons.mp hstays).2.2
        · -- there is no room for one more, and the last one goes
          intro hnot hmem
          have hroom : n ≤ (b :: untaken later).length := by
            by_contra hlt
            exact hnot (stays_cons.mpr ⟨nofun, hlater, Nat.lt_of_not_le hlt⟩)
          rw [List.take_append_of_le_length hroom] at hmem
          rcases List.mem_cons.mp (List.mem_of_mem_take hmem) with rfl | hmem
          · exact hne rfl
          · rw [puts_append] at hold
            exact (List.nodup_append.mp hold).2.2 a ((untaken_sublist later).subset hmem) a
              List.mem_cons_self rfl
      · refine ⟨fun hstays => absurd (stays_cons.mp hstays).2.1 hlater, fun _ hmem => ?_⟩
        rcases List.mem_cons.mp (List.mem_of_mem_take hmem) with rfl | hmem
        · exact hne rfl
        · exact hgone hlater hmem
    | take b =>
      obtain ⟨hstay, hgone⟩ := ih hnodup
      rw [shelf]
      constructor
      · intro hstays
        obtain ⟨hne, hlater, -⟩ := stays_cons.mp hstays
        obtain ⟨rest, hrest⟩ := hstay hlater
        rw [hrest, untaken]
        by_cases hmem : b ∈ untaken later
        · exact ⟨rest, List.erase_append_left _ hmem⟩
        · have hba : ¬ (a == b) = true := by
            rw [beq_iff_eq]
            rintro rfl
            exact hne rfl
          refine ⟨rest.erase b, ?_⟩
          rw [List.erase_append_right _ hmem, List.erase_of_not_mem hmem, List.erase_cons_tail hba]
      · intro hnot hmem
        by_cases hlater : Stays n later a
        · -- taking something out makes room, so it is this one that was taken
          have hlength : (untaken (.take b :: later)).length < n :=
            Nat.lt_of_le_of_lt List.length_erase_le (hlater.2 later (List.suffix_refl _))
          obtain rfl : b = a := by
            by_contra hne
            refine hnot (stays_cons.mpr ⟨?_, hlater, hlength⟩)
            rintro ⟨⟩
            exact hne rfl
          exact (hnodup.sublist (shelf_sublist n (later ++ .put b :: earlier))).not_mem_erase hmem
        · exact hgone hlater (List.mem_of_mem_erase hmem)

/-- **What is on the shelf.** -/
theorem mem_shelf_iff (hnodup : (puts events).Nodup) :
    a ∈ shelf n events ↔
      ∃ later earlier, events = later ++ .put a :: earlier ∧ Stays n later a := by
  constructor
  · intro hmem
    obtain ⟨later, earlier, rfl⟩ :=
      List.append_of_mem (mem_puts.mp ((shelf_sublist n events).subset hmem))
    refine ⟨later, earlier, rfl, ?_⟩
    by_contra hnot
    exact (shelf_append_put hnodup).2 hnot hmem
  · rintro ⟨later, earlier, rfl, hstays⟩
    obtain ⟨rest, hrest⟩ := (shelf_append_put hnodup).1 hstays
    rw [hrest]
    exact List.mem_append_right _ List.mem_cons_self

/-- What was taken is not there, and does not come back. -/
theorem not_mem_shelf_of_take (hnodup : (puts (later ++ .put a :: earlier)).Nodup)
    (htake : .take a ∈ later) : a ∉ shelf n (later ++ .put a :: earlier) :=
  (shelf_append_put hnodup).2 fun hstays => hstays.1 htake

end Shelf
