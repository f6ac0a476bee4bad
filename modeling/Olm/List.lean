import Olm.Common.BoundedList
import Olm.Common.Bytes
import Olm.Common.Lists

/-!
# Lists in an array

`include/olm/list.hh`: a list is an array of `max_size` slots and a pointer
to the slot behind its last value. Values are shifted one slot at a time. A
pointer is an offset into the array, and an access to a slot that is not
there is a `Fault`.

What the slots behind the end hold is never looked at, so at valid positions
a list is the sequence of its values (`OlmList.refines_sequence`), and
`BoundedList.push` and `BoundedList.insertEnd`, which stand for `insert` at the
begin and at the end elsewhere, are what it does there.
-/

namespace Olm

variable {α : Type} {maxSize : ℕ}

/-- `List<T, max_size>`. -/
structure OlmList (α : Type) (maxSize : ℕ) where
  data : List α
  end_ : ℕ
  length_data : data.length = maxSize

namespace OlmList

/-- `List()`, on memory that holds these values. -/
def new (data : List α) (h : data.length = maxSize) : OlmList α maxSize := ⟨data, 0, h⟩

/-- `size`. -/
def size (l : OlmList α maxSize) : ℕ := l.end_

/-- `empty`. -/
def empty (l : OlmList α maxSize) : Bool := l.end_ == 0

/-- `*pos`, and `operator[]`. -/
def read (l : OlmList α maxSize) (pos : ℕ) : Checked α :=
  match l.data[pos]? with
  | some value => .ok value
  | none => .error .outOfBounds

/-- `*pos = value`. -/
def write (l : OlmList α maxSize) (pos : ℕ) (value : α) : Checked (OlmList α maxSize) :=
  if pos < l.data.length then
    .ok ⟨l.data.set pos value, l.end_, by rw [List.length_set]; exact l.length_data⟩
  else .error .outOfBounds

/-- The loop of `erase`, with `count` slots up to the end. -/
def eraseLoop : (count pos : ℕ) → OlmList α maxSize → Checked (OlmList α maxSize)
  | 0, _, l => .ok l
  | count + 1, pos, l => do
    let value ← l.read (pos + 1)
    let l ← l.write pos value
    eraseLoop count (pos + 1) l

/-- `erase`. -/
def erase (l : OlmList α maxSize) (pos : ℕ) : Checked (OlmList α maxSize) :=
  if l.end_ = 0 then .error .outOfBounds
  else
    let l := { l with end_ := l.end_ - 1 }
    if l.end_ < pos then .error .diverges
    else eraseLoop (l.end_ - pos) pos l

/-- The loop of `insert`, with `tmp` `count` slots behind the place. -/
def insertLoop : (count tmp : ℕ) → OlmList α maxSize → Checked (OlmList α maxSize)
  | 0, _, l => .ok l
  | count + 1, tmp, l => do
    let value ← l.read (tmp - 1)
    let l ← l.write tmp value
    insertLoop count (tmp - 1) l

/-- `insert` without a value: the place that was made. -/
def insertSlot (l : OlmList α maxSize) (pos : ℕ) : Checked (OlmList α maxSize × ℕ) := do
  let (l, pos) :=
    if l.end_ ≠ maxSize then ({ l with end_ := l.end_ + 1 }, pos)
    else if pos = l.end_ then (l, pos - 1)
    else (l, pos)
  let tmp := l.end_ - 1
  if tmp < pos then .error .diverges
  else do
    let l ← insertLoop (tmp - pos) tmp l
    .ok (l, pos)

/-- `insert` of a value. -/
def insert (l : OlmList α maxSize) (pos : ℕ) (value : α) :
    Checked (OlmList α maxSize × ℕ) := do
  let (l, pos) ← l.insertSlot pos
  let l ← l.write pos value
  .ok (l, pos)

/-! ## The values of a list -/

/-- The values, up to the end. -/
def contents (l : OlmList α maxSize) : List α := l.data.take l.end_

variable {l : OlmList α maxSize} {pre mid post : List α} {x : α} {pos : ℕ}

theorem read_eq (h : l.data = pre ++ x :: post) (hpos : pos = pre.length) :
    l.read pos = .ok x := by
  have hget : l.data[pos]? = some x := by
    rw [h, hpos, List.getElem?_append_right le_rfl, Nat.sub_self, List.getElem?_cons_zero]
  simp only [read, hget]

theorem write_eq (h : l.data = pre ++ x :: post) (hpos : pos = pre.length) (value : α) :
    ∃ l', l.write pos value = .ok l' ∧ l'.data = pre ++ value :: post ∧ l'.end_ = l.end_ := by
  have hlt : pos < l.data.length := by
    rw [h, List.length_append, List.length_cons]
    omega
  refine ⟨_, if_pos hlt, ?_, rfl⟩
  dsimp only
  rw [h, hpos, List.set_append_right _ _ le_rfl, Nat.sub_self, List.set_cons_zero]

/-- **`erase` shifts the values behind the place** one slot down. What is left
in the last of these slots does not matter. -/
theorem eraseLoop_eq (h : l.data = pre ++ x :: (mid ++ post)) (hpos : pos = pre.length) :
    ∃ l' y, eraseLoop mid.length pos l = .ok l' ∧ l'.data = pre ++ (mid ++ y :: post) ∧
      l'.end_ = l.end_ := by
  induction mid generalizing l pre x pos with
  | nil => exact ⟨l, x, rfl, h, rfl⟩
  | cons z mid ih =>
    have hdata : l.data = (pre ++ [x]) ++ z :: (mid ++ post) := by
      rw [h, List.append_assoc, List.singleton_append, List.cons_append]
    have hread : l.read (pos + 1) = .ok z :=
      read_eq hdata (by rw [List.length_append, List.length_singleton, hpos])
    obtain ⟨l₁, hwrite, hdata₁, hend₁⟩ := write_eq h hpos z
    have hnext : l₁.data = (pre ++ [z]) ++ z :: (mid ++ post) := by
      rw [hdata₁, List.append_assoc, List.singleton_append, List.cons_append]
    obtain ⟨l₂, y, hloop, hdata₂, hend₂⟩ :=
      ih hnext (by rw [List.length_append, List.length_singleton, hpos] : pos + 1 = _)
    refine ⟨l₂, y, ?_, ?_, hend₂.trans hend₁⟩
    · rw [List.length_cons, eraseLoop, hread, Checked.ok_bind, hwrite, Checked.ok_bind, hloop]
    · rw [hdata₂, List.append_assoc, List.singleton_append, List.cons_append]

/-- **`insert` shifts them one slot up**, from the last one down, over the value
behind them. What is left at the place does not matter. -/
theorem insertLoop_eq {tmp : ℕ} (h : l.data = pre ++ (mid ++ x :: post))
    (htmp : tmp = pre.length + mid.length) :
    ∃ l' y, insertLoop mid.length tmp l = .ok l' ∧ l'.data = pre ++ y :: (mid ++ post) ∧
      l'.end_ = l.end_ := by
  induction mid using List.reverseRecOn generalizing l x post tmp with
  | nil => exact ⟨l, x, rfl, h, rfl⟩
  | append_singleton mid z ih =>
    rw [List.length_append, List.length_singleton] at htmp
    have hdata : l.data = (pre ++ mid) ++ z :: x :: post := by
      rw [h]
      simp only [List.append_assoc, List.singleton_append]
    have hdata' : l.data = (pre ++ (mid ++ [z])) ++ x :: post := by
      rw [h]
      simp only [List.append_assoc]
    have hread : l.read (tmp - 1) = .ok z :=
      read_eq hdata (by rw [List.length_append]; omega)
    obtain ⟨l₁, hwrite, hdata₁, hend₁⟩ := write_eq hdata'
      (by simp only [List.length_append, List.length_singleton]; omega : tmp = _) z
    have hnext : l₁.data = pre ++ (mid ++ z :: z :: post) := by
      rw [hdata₁]
      simp only [List.append_assoc, List.singleton_append]
    obtain ⟨l₂, y, hloop, hdata₂, hend₂⟩ := ih hnext (by omega : tmp - 1 = _)
    refine ⟨l₂, y, ?_, ?_, hend₂.trans hend₁⟩
    · rw [List.length_append, List.length_singleton, insertLoop, hread, Checked.ok_bind, hwrite,
        Checked.ok_bind, hloop]
    · rw [hdata₂]
      simp only [List.append_assoc, List.singleton_append]

/-- What `insert` does once there is a slot for the last value. -/
theorem insertLoop_write (h : l.data = pre ++ (mid ++ x :: post)) (hpos : pos = pre.length)
    (hend : l.end_ = pre.length + mid.length + 1) (value : α) :
    ∃ l₁ l', insertLoop (l.end_ - 1 - pos) (l.end_ - 1) l = .ok l₁ ∧ l₁.write pos value = .ok l' ∧
      l'.data = pre ++ value :: (mid ++ post) ∧ l'.end_ = l.end_ := by
  have hcount : l.end_ - 1 - pos = mid.length := by omega
  obtain ⟨l₁, y, hloop, hdata₁, hend₁⟩ := insertLoop_eq h (by omega : l.end_ - 1 = _)
  obtain ⟨l', hwrite, hdata', hend'⟩ := write_eq hdata₁ hpos value
  rw [hcount]
  exact ⟨l₁, l', hloop, hwrite, hdata', hend'.trans hend₁⟩

/-! ## What the operations do to the values -/

/-- **The list is this sequence.** -/
structure Represents (l : OlmList α maxSize) (xs : BoundedList α maxSize) : Prop where
  end_eq : l.end_ = xs.toList.length
  contents_eq : l.contents = xs.toList

theorem represents_new (data : List α) (h : data.length = maxSize) :
    (new data h).Represents .empty := ⟨rfl, rfl⟩

/-- A list of these values and whatever is behind them. -/
theorem represents_of_data {xs : BoundedList α maxSize} (post : List α)
    (hend : l.end_ = xs.toList.length)
    (hdata : l.data = xs.toList ++ post) : l.Represents xs where
  end_eq := hend
  contents_eq := by rw [contents, hdata, hend, List.take_left]

variable {xs : BoundedList α maxSize}

namespace Represents

theorem size_eq (h : l.Represents xs) : l.size = xs.toList.length := h.end_eq

theorem empty_eq (h : l.Represents xs) : l.empty = xs.toList.isEmpty := by
  rw [empty, h.end_eq]
  cases xs.toList with
  | nil => rfl
  | cons x values => rfl

theorem exists_data (h : l.Represents xs) :
    ∃ post, l.data = xs.toList ++ post ∧ xs.toList.length + post.length = maxSize := by
  refine ⟨l.data.drop l.end_, ?_, ?_⟩
  · rw [← h.contents_eq, contents, List.take_append_drop]
  · have hle := xs.length_le
    rw [List.length_drop, l.length_data, h.end_eq]
    omega

/-- A value of the list is read. -/
theorem read_eq (h : l.Represents xs) (hpos : pos < xs.toList.length) :
    l.read pos = .ok xs.toList[pos] := by
  obtain ⟨post, hdata, -⟩ := h.exists_data
  have hget : l.data[pos]? = some xs.toList[pos] := by
    rw [hdata, List.getElem?_append_left hpos, List.getElem?_eq_getElem hpos]
  simp only [read, hget]

/-- A value of the list is replaced. -/
theorem write_eq (h : l.Represents xs) (hpos : pos < xs.toList.length) (value : α) :
    ∃ l', l.write pos value = .ok l' ∧ l'.Represents (xs.set pos value) := by
  obtain ⟨post, hdata, hlength⟩ := h.exists_data
  have hlt : pos < l.data.length := by
    rw [l.length_data]
    omega
  refine ⟨_, if_pos hlt, ?_⟩
  refine represents_of_data post ?_ ?_
  · rw [BoundedList.toList_set, List.length_set]
    exact h.end_eq
  · dsimp only
    rw [hdata, List.set_append_left _ _ hpos, BoundedList.toList_set]

/-- **`erase` removes the value at the place** and keeps the order of the
others. -/
theorem erase_eq (h : l.Represents xs) (hpos : pos < xs.toList.length) :
    ∃ l', l.erase pos = .ok l' ∧ l'.Represents (xs.eraseIdx pos) := by
  obtain ⟨post, hdata, -⟩ := h.exists_data
  have hend := h.end_eq
  obtain ⟨pre, x, mid, hxs, hpre⟩ : ∃ pre x mid, xs.toList = pre ++ x :: mid ∧ pre.length = pos :=
    ⟨xs.toList.take pos, xs.toList[pos], xs.toList.drop (pos + 1),
      by rw [List.getElem_cons_drop, List.take_append_drop], List.length_take_of_le hpos.le⟩
  have hlength : xs.toList.length = pre.length + (mid.length + 1) := by
    rw [hxs, List.length_append, List.length_cons]
  rw [erase, if_neg (by omega)]
  dsimp only
  have hcount : l.end_ - 1 - pos = mid.length := by omega
  have hshorter : ({ l with end_ := l.end_ - 1 } : OlmList α maxSize).data =
      pre ++ x :: (mid ++ post) := by
    rw [hdata, hxs, List.append_assoc, List.cons_append]
  obtain ⟨l', y, hloop, hdata', hend'⟩ := eraseLoop_eq hshorter hpre.symm
  rw [if_neg (by omega), hcount]
  have herase : (xs.eraseIdx pos).toList = pre ++ mid := by
    rw [BoundedList.toList_eraseIdx, hxs, List.eraseIdx_append_of_length_le hpre.le, hpre,
      Nat.sub_self, List.eraseIdx_cons_zero]
  refine ⟨l', hloop, represents_of_data (y :: post) ?_ ?_⟩
  · rw [hend', herase, List.length_append]
    dsimp only
    omega
  · rw [hdata', herase, List.append_assoc]

/-- A value is put behind the first ones of a list that has room. -/
theorem insert_of_room (h : l.Represents xs) (hxs : xs.toList = pre ++ mid)
    (hroom : xs.toList.length < maxSize) (value : α) :
    ∃ l', l.insert pre.length value = .ok (l', pre.length) ∧
      l'.Represents (xs.insert pre.length value) := by
  obtain ⟨post, hdata, hlength⟩ := h.exists_data
  have hend := h.end_eq
  have hsplit : xs.toList.length = pre.length + mid.length := by rw [hxs, List.length_append]
  obtain ⟨z, rest, rfl⟩ := List.exists_cons_of_length_pos (show 0 < post.length by omega)
  have hlonger : ({ l with end_ := l.end_ + 1 } : OlmList α maxSize).data =
      pre ++ (mid ++ z :: rest) := by
    rw [hdata, hxs, List.append_assoc]
  obtain ⟨l₁, l', hloop, hwrite, hdata', hend'⟩ :=
    insertLoop_write hlonger rfl (by dsimp only; omega) value
  have hlist : (xs.insert pre.length value).toList = pre ++ value :: mid := by
    rw [BoundedList.toList_insert_of_lt hroom, hxs, List.insertIdx_append]
  refine ⟨l', ?_, represents_of_data rest ?_ ?_⟩
  · unfold insert insertSlot
    rw [if_pos (by omega)]
    dsimp only at hloop ⊢
    rw [if_neg (by omega)]
    simp only [hloop, Checked.ok_bind, hwrite]
  · rw [hend', hlist, List.length_append, List.length_cons]
    dsimp only
    omega
  · rw [hdata', hlist, List.append_assoc, List.cons_append]

/-- The last value of a full list goes where one is put before it. -/
theorem insert_of_full {z : α} (h : l.Represents xs) (hxs : xs.toList = pre ++ (mid ++ [z]))
    (hfull : xs.toList.length = maxSize) (value : α) :
    ∃ l', l.insert pre.length value = .ok (l', pre.length) ∧
      l'.Represents (xs.insert pre.length value) := by
  obtain ⟨post, hdata, hlength⟩ := h.exists_data
  have hend := h.end_eq
  obtain rfl : post = [] := List.eq_nil_of_length_eq_zero (by omega)
  have hsplit : xs.toList.length = pre.length + (mid.length + 1) := by
    rw [hxs, List.length_append, List.length_append, List.length_singleton]
  obtain ⟨l₁, l', hloop, hwrite, hdata', hend'⟩ := insertLoop_write
    (by rw [hdata, hxs, List.append_nil] : l.data = pre ++ (mid ++ z :: [])) rfl (by omega) value
  have hlonger : pre ++ value :: (mid ++ [z]) = (pre ++ value :: mid) ++ [z] := by
    rw [List.append_assoc, List.cons_append]
  have hall : (pre ++ value :: mid).length = maxSize := by
    rw [List.length_append, List.length_cons]
    omega
  have hlist : (xs.insert pre.length value).toList = pre ++ value :: mid := by
    rw [BoundedList.insert, if_neg (by omega)]
    dsimp only
    rw [hxs, List.insertIdx_append, hlonger, List.take_left' hall]
  refine ⟨l', ?_, represents_of_data [] ?_ ?_⟩
  · unfold insert insertSlot
    rw [if_neg (by omega), if_neg (by omega)]
    dsimp only
    rw [if_neg (by omega)]
    simp only [hloop, Checked.ok_bind, hwrite]
  · rw [hend', hlist, hall, hend, hfull]
  · rw [hdata', hlist, List.append_nil, List.append_nil]

/-- And it is replaced where one is put behind it. -/
theorem insert_of_full_end {z : α} (h : l.Represents xs) (hxs : xs.toList = pre ++ [z])
    (hfull : xs.toList.length = maxSize) (value : α) :
    ∃ l', l.insert maxSize value = .ok (l', pre.length) ∧
      l'.Represents (xs.insert maxSize value) := by
  obtain ⟨post, hdata, hlength⟩ := h.exists_data
  have hend := h.end_eq
  obtain rfl : post = [] := List.eq_nil_of_length_eq_zero (by omega)
  have hsplit : maxSize = pre.length + 1 := by
    rw [← hfull, hxs, List.length_append, List.length_singleton]
  have hplace : maxSize - 1 = pre.length := by omega
  obtain ⟨l₁, l', hloop, hwrite, hdata', hend'⟩ := insertLoop_write
    (by rw [hdata, hxs, List.append_nil]; rfl : l.data = pre ++ ([] ++ z :: [])) rfl
    (by rw [List.length_nil]; omega) value
  have hlist : (xs.insert maxSize value).toList = pre ++ [value] := by
    rw [BoundedList.insert, if_pos ⟨hfull.symm, hfull⟩, BoundedList.toList_set, hxs, hplace,
      List.set_append_right _ _ le_rfl, Nat.sub_self, List.set_cons_zero]
  refine ⟨l', ?_, represents_of_data [] ?_ ?_⟩
  · unfold insert insertSlot
    rw [if_neg (by omega), if_pos (by omega)]
    dsimp only
    rw [hplace, if_neg (by omega)]
    simp only [hloop, Checked.ok_bind, hwrite]
  · rw [hend', hlist, List.length_append, List.length_singleton]
    omega
  · rw [hdata', hlist, List.append_nil, List.append_nil]

/-- **`insert` makes a place** for the value: behind those before `pos`, and
without the last value where the list was full. The value is written there. -/
theorem insert_eq (hcapacity : 1 ≤ maxSize) (h : l.Represents xs)
    (hpos : pos ≤ xs.toList.length) (value : α) :
    ∃ l', l.insert pos value = .ok (l', xs.insertPlace pos) ∧
      l'.Represents (xs.insert pos value) := by
  obtain ⟨pre, mid, hxs, rfl⟩ : ∃ pre mid, xs.toList = pre ++ mid ∧ pre.length = pos :=
    ⟨xs.toList.take pos, xs.toList.drop pos, (List.take_append_drop pos _).symm,
      List.length_take_of_le hpos⟩
  have hsplit : xs.toList.length = pre.length + mid.length := by rw [hxs, List.length_append]
  have hle := xs.length_le
  by_cases hroom : xs.toList.length < maxSize
  · rw [BoundedList.insertPlace, if_neg (by omega)]
    exact h.insert_of_room hxs hroom value
  · have hfull : xs.toList.length = maxSize := by omega
    by_cases hmid : 0 < mid.length
    · obtain ⟨front, z, rfl⟩ := List.exists_append_singleton hmid
      rw [BoundedList.insertPlace, if_neg (by omega)]
      exact h.insert_of_full hxs hfull value
    · obtain rfl : mid = [] := List.eq_nil_of_length_eq_zero (by omega)
      rw [List.append_nil] at hxs
      have hlast : pre.length = maxSize := by rw [← hxs, hfull]
      obtain ⟨front, z, rfl⟩ := List.exists_append_singleton (show 0 < pre.length by omega)
      rw [BoundedList.insertPlace, if_pos ⟨by omega, hfull⟩, hlast]
      have hplace : maxSize - 1 = front.length := by
        rw [List.length_append, List.length_singleton] at hlast
        omega
      rw [hplace]
      exact h.insert_of_full_end hxs hfull value

/-- `insert` at the begin. -/
theorem insert_begin (hcapacity : 1 ≤ maxSize) (h : l.Represents xs) (value : α) :
    ∃ l' place, l.insert 0 value = .ok (l', place) ∧ l'.Represents (xs.push value) := by
  obtain ⟨l', hinsert, h'⟩ := h.insert_eq hcapacity (Nat.zero_le _) value
  rw [← BoundedList.push_eq_insert] at h'
  exact ⟨l', _, hinsert, h'⟩

/-- `insert` at the end. -/
theorem insert_end (hcapacity : 1 ≤ maxSize) (h : l.Represents xs) (value : α) :
    ∃ l' place, l.insert l.end_ value = .ok (l', place) ∧ l'.Represents (xs.insertEnd value) := by
  obtain ⟨l', hinsert, h'⟩ := h.insert_eq hcapacity le_rfl value
  rw [← h.end_eq] at hinsert
  rw [← BoundedList.insertEnd_eq_insert] at h'
  exact ⟨l', _, hinsert, h'⟩

end Represents

/-- What is at the place that `insert` makes at the end: what was behind the
last value, or that value where the list was full. -/
theorem Represents.insertSlot_end (h : l.Represents xs) (hcapacity : 1 ≤ maxSize)
    {stale : ℕ → α} (hstale : ∀ i < maxSize, l.data[i]? = some (stale i)) :
    ∃ l' place, l.insertSlot l.end_ = .ok (l', place) ∧ l'.read place = .ok (xs.endSlot stale) := by
  have hend := h.end_eq
  have hle := xs.length_le
  unfold insertSlot
  by_cases hroom : xs.toList.length < maxSize
  · have hread : l.data[l.end_]? = some (xs.endSlot stale) := by
      have hmin : min xs.toList.length (maxSize - 1) = xs.toList.length := by omega
      rw [hend, hstale _ hroom, BoundedList.endSlot, hmin, List.getElem?_eq_none le_rfl,
        Option.getD_none]
    rw [if_pos (by omega)]
    dsimp only
    rw [if_neg (by omega), Nat.add_sub_cancel, Nat.sub_self, insertLoop, Checked.ok_bind]
    exact ⟨_, _, rfl, by simp only [read, hread]⟩
  · have hread : l.read (l.end_ - 1) = .ok (xs.endSlot stale) := by
      have hmin : min xs.toList.length (maxSize - 1) = l.end_ - 1 := by omega
      have hlast : l.end_ - 1 < xs.toList.length := by omega
      rw [h.read_eq hlast, BoundedList.endSlot, hmin, List.getElem?_eq_getElem hlast,
        Option.getD_some]
    rw [if_neg (by omega), if_pos rfl]
    dsimp only
    rw [if_neg (by omega), Nat.sub_self, insertLoop, Checked.ok_bind]
    exact ⟨_, _, rfl, hread⟩

end OlmList

/-! ## Sequences of operations -/

/-- An operation on a list. -/
inductive ListCall (α : Type) where
  | insert (pos : ℕ) (value : α)
  | erase (pos : ℕ)
  | get (index : ℕ)
  | set (index : ℕ) (value : α)
  | size
  | empty

/-- What it gives. -/
inductive ListReply (α : Type) where
  | done
  | place (pos : ℕ)
  | value (value : Option α)
  | size (size : ℕ)
  | empty (empty : Bool)

/-- The position is one of the list. -/
def ListCall.Valid (call : ListCall α) (xs : BoundedList α maxSize) : Prop :=
  match call with
  | .insert pos _ => pos ≤ xs.toList.length
  | .erase pos | .get pos | .set pos _ => pos < xs.toList.length
  | .size | .empty => True

/-- The operation on the sequence, and what it gives. -/
def ListCall.apply (xs : BoundedList α maxSize) : ListCall α → BoundedList α maxSize × ListReply α
  | .insert pos value => (xs.insert pos value, .place (xs.insertPlace pos))
  | .erase pos => (xs.eraseIdx pos, .done)
  | .get index => (xs, .value xs.toList[index]?)
  | .set index value => (xs.set index value, .done)
  | .size => (xs, .size xs.toList.length)
  | .empty => (xs, .empty xs.toList.isEmpty)

/-- The operations on the sequence, one after another. -/
def ListCall.applyAll (xs : BoundedList α maxSize) :
    List (ListCall α) → BoundedList α maxSize × List (ListReply α)
  | [] => (xs, [])
  | call :: calls =>
    let (xs, reply) := call.apply xs
    let (xs, replies) := applyAll xs calls
    (xs, reply :: replies)

/-- Each position is one of the list at that time. -/
def ListCall.AllValid (xs : BoundedList α maxSize) : List (ListCall α) → Prop
  | [] => True
  | call :: calls => call.Valid xs ∧ AllValid (call.apply xs).1 calls

namespace OlmList

/-- The operation on the array. -/
def call (l : OlmList α maxSize) : ListCall α → Checked (OlmList α maxSize × ListReply α)
  | .insert pos value => do
    let (l, place) ← l.insert pos value
    .ok (l, .place place)
  | .erase pos => do
    let l ← l.erase pos
    .ok (l, .done)
  | .get index => do
    let value ← l.read index
    .ok (l, .value (some value))
  | .set index value => do
    let l ← l.write index value
    .ok (l, .done)
  | .size => .ok (l, .size l.size)
  | .empty => .ok (l, .empty l.empty)

/-- The operations on the array, one after another. -/
def callAll (l : OlmList α maxSize) :
    List (ListCall α) → Checked (OlmList α maxSize × List (ListReply α))
  | [] => .ok (l, [])
  | call :: calls => do
    let (l, reply) ← l.call call
    let (l, replies) ← callAll l calls
    .ok (l, reply :: replies)

variable {l : OlmList α maxSize} {xs : BoundedList α maxSize}

/-- **One operation** gives what it gives on the sequence, and no access leaves
the array. -/
theorem Represents.call_eq (hcapacity : 1 ≤ maxSize) (h : l.Represents xs) {call : ListCall α}
    (hvalid : call.Valid xs) :
    ∃ l', l.call call = .ok (l', (call.apply xs).2) ∧ l'.Represents (call.apply xs).1 := by
  cases call with
  | insert pos value =>
    obtain ⟨l', hinsert, h'⟩ := h.insert_eq hcapacity hvalid value
    exact ⟨l', by rw [OlmList.call, hinsert]; rfl, h'⟩
  | erase pos =>
    obtain ⟨l', herase, h'⟩ := h.erase_eq hvalid
    exact ⟨l', by rw [OlmList.call, herase]; rfl, h'⟩
  | get index =>
    refine ⟨l, ?_, h⟩
    rw [OlmList.call, h.read_eq hvalid, ListCall.apply, List.getElem?_eq_getElem hvalid]
    rfl
  | set index value =>
    obtain ⟨l', hwrite, h'⟩ := h.write_eq hvalid value
    exact ⟨l', by rw [OlmList.call, hwrite]; rfl, h'⟩
  | size => exact ⟨l, by rw [OlmList.call, h.size_eq]; rfl, h⟩
  | empty => exact ⟨l, by rw [OlmList.call, h.empty_eq]; rfl, h⟩

/-- All operations, from a list that is the sequence. -/
theorem Represents.callAll_eq (hcapacity : 1 ≤ maxSize) (h : l.Represents xs)
    {calls : List (ListCall α)} (hvalid : ListCall.AllValid xs calls) :
    ∃ l', l.callAll calls = .ok (l', (ListCall.applyAll xs calls).2) ∧
      l'.Represents (ListCall.applyAll xs calls).1 := by
  induction calls generalizing l xs with
  | nil => exact ⟨l, rfl, h⟩
  | cons call calls ih =>
    obtain ⟨hcall, hrest⟩ := hvalid
    obtain ⟨l₁, hrun₁, h₁⟩ := h.call_eq hcapacity hcall
    obtain ⟨l₂, hrun₂, h₂⟩ := ih h₁ hrest
    refine ⟨l₂, ?_, h₂⟩
    rw [callAll, hrun₁, Checked.ok_bind]
    dsimp only
    rw [hrun₂]
    rfl

/-- **A list is the sequence of its values** after any operations at valid
positions: each gives what it gives on the sequence, which has `max_size`
values at most, and no access leaves the array. -/
theorem refines_sequence (hcapacity : 1 ≤ maxSize) (data : List α) (hdata : data.length = maxSize)
    {calls : List (ListCall α)} (hvalid : ListCall.AllValid (.empty : BoundedList α maxSize) calls) :
    ∃ l, (new data hdata).callAll calls =
        .ok (l, (ListCall.applyAll (.empty : BoundedList α maxSize) calls).2) ∧
      l.contents = (ListCall.applyAll (.empty : BoundedList α maxSize) calls).1.toList ∧
      l.size = l.contents.length ∧ l.size ≤ maxSize := by
  obtain ⟨l, hrun, h⟩ := (represents_new data hdata).callAll_eq hcapacity hvalid
  refine ⟨l, hrun, h.contents_eq, ?_, ?_⟩
  · rw [h.contents_eq, h.size_eq]
  · rw [h.size_eq]
    exact BoundedList.length_le _

/-- Three values put at the end of a list of two, and the first one erased. -/
theorem refines_sequence_two : ∃ l, (new [0, 0] rfl).callAll
      [.insert 0 7, .insert 1 8, .insert 2 9, .get 1, .erase 0] =
        .ok (l, [.place 0, .place 1, .place 1, .value (some 9), .done]) ∧
      l.contents = [9] ∧ l.size = l.contents.length ∧ l.size ≤ 2 :=
  have hvalid : ListCall.AllValid (.empty : BoundedList ℕ 2)
      [.insert 0 7, .insert 1 8, .insert 2 9, .get 1, .erase 0] :=
    ⟨(show 0 ≤ 0 by decide), (show 1 ≤ 1 by decide), (show 2 ≤ 2 by decide), (show 1 < 2 by decide),
      (show 0 < 2 by decide), trivial⟩
  refines_sequence (by decide) [0, 0] rfl hvalid

end OlmList

end Olm
