import Mathlib.Data.List.Induction
import Mathlib.Tactic.Common

/-!
# A stream taken in block by block

Things arrive one at a time and wait on a tray; when there are `size` of
them they are worked into a state, all at once, and the tray is empty
again. Where the stream is cut into pieces makes no difference
(`feed_append`): whole blocks have gone into the state in their order
(`feed_flatten`), and what is left of the last one waits (`feed_waiting`).
-/

namespace Blocks

/-- A state, and what waits to be worked into it. -/
structure Tray (σ α : Type*) where
  state : σ
  waiting : List α

section Feed

variable {σ α : Type*} (size : ℕ) (work : σ → List α → σ)

/-- One thing arrives. -/
def put (tray : Tray σ α) (a : α) : Tray σ α :=
  if tray.waiting.length + 1 = size then
    { state := work tray.state (tray.waiting ++ [a]), waiting := [] }
  else { tray with waiting := tray.waiting ++ [a] }

/-- Things arrive one after another. -/
def feed (tray : Tray σ α) (stream : List α) : Tray σ α := stream.foldl (put size work) tray

variable {size work} {tray : Tray σ α}

@[simp] theorem feed_nil : feed size work tray [] = tray := rfl

theorem feed_append (stream stream' : List α) :
    feed size work tray (stream ++ stream') = feed size work (feed size work tray stream) stream' :=
  List.foldl_append

/-- Less than a block waits. -/
theorem feed_of_lt {stream : List α} (h : tray.waiting.length + stream.length < size) :
    feed size work tray stream = { tray with waiting := tray.waiting ++ stream } := by
  induction stream generalizing tray with
  | nil => rw [feed_nil, List.append_nil]
  | cons a stream ih =>
    rw [List.length_cons] at h
    have hput : put size work tray a = { tray with waiting := tray.waiting ++ [a] } :=
      if_neg (by omega)
    rw [feed, List.foldl_cons, hput]
    rw [show List.foldl (put size work) _ stream = feed size work _ stream from rfl,
      ih (by rw [List.length_append, List.length_singleton]; omega), List.append_assoc]
    rfl

/-- What fills the block is worked into the state. -/
theorem feed_of_eq {stream : List α} (h : tray.waiting.length + stream.length = size)
    (hpos : stream ≠ []) :
    feed size work tray stream =
      { state := work tray.state (tray.waiting ++ stream), waiting := [] } := by
  obtain ⟨front, last, rfl⟩ := (List.eq_nil_or_concat stream).resolve_left hpos
  rw [List.concat_eq_append] at h ⊢
  rw [List.length_append, List.length_singleton] at h
  have hfront : tray.waiting.length + front.length < size := by omega
  rw [feed_append, feed_of_lt hfront]
  show put size work _ last = _
  rw [put, if_pos (by rw [List.length_append]; omega), List.append_assoc]

/-- **Whole blocks go into the state** in their order. -/
theorem feed_flatten (hpos : 0 < size) (state : σ) {blocks : List (List α)}
    (h : ∀ block ∈ blocks, block.length = size) :
    feed size work { state := state, waiting := [] } blocks.flatten =
      { state := blocks.foldl work state, waiting := [] } := by
  induction blocks generalizing state with
  | nil => rfl
  | cons block blocks ih =>
    have hblock : block.length = size := h block List.mem_cons_self
    have hwork : feed size work { state := state, waiting := [] } block =
        { state := work state block, waiting := [] } := by
      refine feed_of_eq ?_ (List.ne_nil_of_length_pos (by omega))
      rw [List.length_nil, Nat.zero_add, hblock]
    rw [List.flatten_cons, feed_append, hwork,
      ih _ fun other hother => h other (List.mem_cons_of_mem _ hother), List.foldl_cons]

/-- What waits is the rest of the stream after its last whole block. -/
theorem feed_waiting (hpos : 0 < size) (state : σ) (stream : List α) :
    (feed size work { state := state, waiting := [] } stream).waiting.length =
      stream.length % size := by
  induction stream using List.reverseRecOn with
  | nil => rw [feed_nil, List.length_nil, Nat.zero_mod]
  | append_singleton stream a ih =>
    rw [feed_append]
    show (put size work _ a).waiting.length = _
    have hlt := Nat.mod_lt stream.length hpos
    rw [put, ih, List.length_append, List.length_singleton, ← Nat.mod_add_mod]
    split
    · rename_i hfull
      rw [hfull, Nat.mod_self, List.length_nil]
    · rename_i hfull
      rw [Nat.mod_eq_of_lt (by omega), List.length_append, ih, List.length_singleton]

end Feed

end Blocks
