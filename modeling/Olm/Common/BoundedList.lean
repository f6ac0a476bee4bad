import Mathlib.Data.List.Basic

/-!
# Lists of a bounded length

A list that holds at most `n` values. A value pushed on a full list drops
the one at its end, so the bound is kept by construction.
-/

/-- A list of at most `n` values. -/
structure BoundedList (α : Type) (n : ℕ) where
  toList : List α
  length_le : toList.length ≤ n

namespace BoundedList

variable {α : Type} {n : ℕ}

@[ext] theorem ext {l l' : BoundedList α n} (h : l.toList = l'.toList) : l = l' := by
  cases l; cases l'; cases h; rfl

instance [DecidableEq α] : DecidableEq (BoundedList α n) := fun l l' =>
  decidable_of_iff (l.toList = l'.toList) ⟨ext, fun h => h ▸ rfl⟩

/-- The list of no values. -/
def empty : BoundedList α n := ⟨[], Nat.zero_le n⟩

/-- A value in front; the last one goes if the list was full. -/
def push (l : BoundedList α n) (v : α) : BoundedList α n :=
  ⟨(v :: l.toList).take n, by rw [List.length_take]; exact Nat.min_le_left _ _⟩

/-- The list without its value at `i`. -/
def eraseIdx (l : BoundedList α n) (i : ℕ) : BoundedList α n :=
  ⟨l.toList.eraseIdx i, Nat.le_trans (List.length_eraseIdx_le _ _) l.length_le⟩

/-- Another value at `i`, where there is one. -/
def set (l : BoundedList α n) (i : ℕ) (v : α) : BoundedList α n :=
  ⟨l.toList.set i v, by rw [List.length_set]; exact l.length_le⟩

/-- A value at the end; it takes the place of the last one if the list was
full. -/
def insertEnd (l : BoundedList α n) (v : α) : BoundedList α n :=
  if h : l.toList.length < n then ⟨l.toList ++ [v], by rw [List.length_append]; exact h⟩
  else l.set (n - 1) v

/-- A value at `pos`; the last one goes if the list was full, and a value at
the end of a full list takes its place. -/
def insert (l : BoundedList α n) (pos : ℕ) (v : α) : BoundedList α n :=
  if pos = l.toList.length ∧ l.toList.length = n then l.set (n - 1) v
  else ⟨(l.toList.insertIdx pos v).take n, by rw [List.length_take]; exact Nat.min_le_left _ _⟩

/-- Where the value is then. -/
def insertPlace (l : BoundedList α n) (pos : ℕ) : ℕ :=
  if pos = l.toList.length ∧ l.toList.length = n then n - 1 else pos

/-- What is at the place where a value put at the end goes, `stale` being
what is past the end of the list. -/
def endSlot (l : BoundedList α n) (stale : ℕ → α) : α :=
  l.toList[min l.toList.length (n - 1)]?.getD (stale l.toList.length)

@[simp] theorem toList_empty : (empty : BoundedList α n).toList = [] := rfl

@[simp] theorem toList_push (l : BoundedList α n) (v : α) :
    (l.push v).toList = (v :: l.toList).take n := rfl

@[simp] theorem toList_eraseIdx (l : BoundedList α n) (i : ℕ) :
    (l.eraseIdx i).toList = l.toList.eraseIdx i := rfl

@[simp] theorem toList_set (l : BoundedList α n) (i : ℕ) (v : α) :
    (l.set i v).toList = l.toList.set i v := rfl

theorem toList_insertEnd {l : BoundedList α n} (h : l.toList.length < n) (v : α) :
    (l.insertEnd v).toList = l.toList ++ [v] := by
  rw [insertEnd, dif_pos h]

theorem toList_insert_of_lt {l : BoundedList α n} (h : l.toList.length < n) (pos : ℕ) (v : α) :
    (l.insert pos v).toList = l.toList.insertIdx pos v := by
  have hle : (l.toList.insertIdx pos v).length ≤ n :=
    Nat.le_trans List.length_insertIdx_le_succ h
  rw [insert, if_neg (by omega)]
  exact List.take_of_length_le hle

/-- A pushed value is inserted at the front. -/
theorem push_eq_insert (l : BoundedList α n) (v : α) : l.push v = l.insert 0 v := by
  by_cases h : 0 = l.toList.length ∧ l.toList.length = n
  · obtain rfl : n = 0 := by omega
    refine ext ?_
    rw [insert, if_pos h, toList_push, toList_set, List.take_zero,
      List.eq_nil_of_length_eq_zero h.1.symm, List.set_nil]
  · rw [insert, if_neg h]
    rfl

/-- A value put at the end is inserted there. -/
theorem insertEnd_eq_insert (l : BoundedList α n) (v : α) :
    l.insertEnd v = l.insert l.toList.length v := by
  by_cases h : l.toList.length < n
  · refine ext ?_
    rw [toList_insertEnd h, toList_insert_of_lt h, List.insertIdx_length_self]
  · have hfull : l.toList.length = n := Nat.le_antisymm l.length_le (Nat.le_of_not_lt h)
    rw [insertEnd, dif_neg h, insert, if_pos ⟨rfl, hfull⟩]

theorem length_insertEnd (l : BoundedList α n) (v : α) :
    (l.insertEnd v).toList.length = min n (l.toList.length + 1) := by
  have hle := l.length_le
  by_cases h : l.toList.length < n
  · rw [toList_insertEnd h, List.length_append, List.length_singleton]
    omega
  · rw [insertEnd, dif_neg h, toList_set, List.length_set]
    omega

/-- Values put at the end one after another are all there if they fit. -/
theorem toList_foldl_insertEnd {vs : List α} {l : BoundedList α n}
    (h : l.toList.length + vs.length ≤ n) :
    (vs.foldl insertEnd l).toList = l.toList ++ vs := by
  induction vs generalizing l with
  | nil => exact (List.append_nil _).symm
  | cons v vs ih =>
    rw [List.length_cons] at h
    have hlist := toList_insertEnd (show l.toList.length < n by omega) v
    rw [List.foldl_cons, ih, hlist, List.append_assoc, List.singleton_append]
    rw [hlist, List.length_append, List.length_singleton]
    omega

theorem length_foldl_insertEnd (vs : List α) (l : BoundedList α n) :
    (vs.foldl insertEnd l).toList.length = min n (l.toList.length + vs.length) := by
  induction vs generalizing l with
  | nil => exact (Nat.min_eq_right l.length_le).symm
  | cons v vs ih =>
    rw [List.foldl_cons, ih, length_insertEnd, List.length_cons]
    omega

/-- A pushed value is in front, and the others were there before. -/
theorem mem_push {l : BoundedList α n} {v w : α} (h : w ∈ (l.push v).toList) :
    w = v ∨ w ∈ l.toList :=
  List.mem_cons.mp (List.mem_of_mem_take h)

end BoundedList
