import Olm.Common.Bytes

/-!
# JSON

JSON texts of strings and objects: no white space, and in the strings only
printable characters of one byte that stand for themselves. `Json.parse`
reads such a text, all of it, and takes nothing that is not JSON. The rules
below (`Json.Parses`) say what it makes of a text that is put together from
others.
-/

/-- A JSON value. An object has its members in their order. -/
inductive Json where
  | string (text : Bytes)
  | object (members : List (Bytes × Json))

namespace Json

/-- Characters that stand for themselves in a string: not the quote and the
backslash. -/
def IsPlain (b : UInt8) : Prop := 0x20 ≤ b ∧ b < 0x7F ∧ b ≠ 0x22 ∧ b ≠ 0x5C

instance (b : UInt8) : Decidable (IsPlain b) :=
  inferInstanceAs (Decidable (0x20 ≤ b ∧ b < 0x7F ∧ b ≠ 0x22 ∧ b ≠ 0x5C))

/-- What comes after `b`. -/
def parseByte (b : UInt8) : Bytes → Option Bytes
  | [] => none
  | b' :: input => if b' = b then some input else none

/-- The rest of a string whose first quote was read. -/
def parseString : Bytes → Option (Bytes × Bytes)
  | [] => none
  | b :: input =>
    if b = 0x22 then some ([], input)
    else if IsPlain b then (parseString input).map fun (text, rest) => (b :: text, rest)
    else none

mutual

/-- A value, and what comes after it. -/
def parseValue : (fuel : ℕ) → Bytes → Option (Json × Bytes)
  | 0, _ => none
  | fuel + 1, input =>
    match parseByte 0x22 input with
    | some input => (parseString input).map fun (text, rest) => (.string text, rest)
    | none => do
      let input ← parseByte 0x7B input
      match parseByte 0x7D input with
      | some rest => some (.object [], rest)
      | none => (parseMembers fuel input).map fun (members, rest) => (.object members, rest)

/-- The members of an object up to its end, and what comes after it. -/
def parseMembers : (fuel : ℕ) → Bytes → Option (List (Bytes × Json) × Bytes)
  | 0, _ => none
  | fuel + 1, input => do
    let input ← parseByte 0x22 input
    let (name, input) ← parseString input
    let input ← parseByte 0x3A input
    let (value, input) ← parseValue fuel input
    match parseByte 0x2C input with
    | some input =>
      (parseMembers fuel input).map fun (members, rest) => ((name, value) :: members, rest)
    | none => do
      let rest ← parseByte 0x7D input
      some ([(name, value)], rest)

end

/-- The value of a text. -/
def parse (input : Bytes) : Option Json :=
  match parseValue input.length input with
  | some (value, []) => some value
  | _ => none

/-! ## The texts of values -/

/-- The text is that of the value, whatever follows. -/
def Parses (text : Bytes) (value : Json) : Prop :=
  ∀ fuel rest, text.length ≤ fuel → parseValue fuel (text ++ rest) = some (value, rest)

/-- The text is that of the members of an object, without its end. -/
def ParsesMembers (text : Bytes) (members : List (Bytes × Json)) : Prop :=
  ∀ fuel rest, text.length ≤ fuel →
    parseMembers fuel (text ++ 0x7D :: rest) = some (members, rest)

variable {text text' name : Bytes} {value : Json} {members : List (Bytes × Json)}

theorem Parses.parse_eq (h : Parses text value) : parse text = some value := by
  have hvalue := h text.length [] (Nat.le_refl _)
  rw [List.append_nil] at hvalue
  rw [parse, hvalue]

/-- The text in quotes. -/
def quoted (text : Bytes) : Bytes := 0x22 :: (text ++ [0x22])

@[simp] theorem length_quoted (text : Bytes) : (quoted text).length = text.length + 2 := by
  rw [quoted, List.length_cons, List.length_append, List.length_singleton]

@[simp] theorem parseByte_cons (b : UInt8) (input : Bytes) :
    parseByte b (b :: input) = some input := if_pos rfl

theorem parseByte_of_ne {b b' : UInt8} (h : b' ≠ b) (input : Bytes) :
    parseByte b (b' :: input) = none := if_neg h

theorem parseString_append (h : ∀ b ∈ text, IsPlain b) (rest : Bytes) :
    parseString (text ++ 0x22 :: rest) = some (text, rest) := by
  induction text with
  | nil => exact if_pos rfl
  | cons b text ih =>
    have hplain := h b List.mem_cons_self
    rw [List.cons_append, parseString, if_neg hplain.2.2.1, if_pos hplain,
      ih fun b' hb' => h b' (List.mem_cons_of_mem _ hb')]
    rfl

theorem quoted_append (text rest : Bytes) : quoted text ++ rest = 0x22 :: (text ++ 0x22 :: rest) := by
  rw [quoted, List.cons_append, List.append_assoc, List.singleton_append]

theorem parses_string (h : ∀ b ∈ text, IsPlain b) : Parses (quoted text) (.string text) := by
  intro fuel rest hfuel
  cases fuel with
  | zero =>
    rw [length_quoted] at hfuel
    omega
  | succ fuel =>
    rw [parseValue, quoted_append, parseByte_cons]
    simp only [parseString_append h, Option.map_some]

theorem parses_empty : Parses [0x7B, 0x7D] (.object []) := by
  intro fuel rest hfuel
  cases fuel with
  | zero => cases hfuel
  | succ fuel => rfl

/-- What an object holds does not begin with its end. -/
theorem parses_object (h : ParsesMembers (quoted name ++ text) members) :
    Parses (0x7B :: (quoted name ++ text ++ [0x7D])) (.object members) := by
  intro fuel rest hfuel
  rw [List.length_cons, List.length_append, List.length_singleton] at hfuel
  cases fuel with
  | zero => omega
  | succ fuel =>
    have hquote : parseByte 0x7D (quoted name ++ text ++ 0x7D :: rest) = none := by
      rw [List.append_assoc, quoted_append]
      exact parseByte_of_ne (by decide) _
    rw [parseValue, List.cons_append, List.append_assoc, List.singleton_append,
      parseByte_of_ne (by decide)]
    simp only [parseByte_cons, Option.bind_eq_bind, Option.bind_some, hquote,
      h fuel rest (by omega), Option.map_some]

/-- The last member. -/
theorem parsesMembers_singleton (hname : ∀ b ∈ name, IsPlain b) (hvalue : Parses text value) :
    ParsesMembers (quoted name ++ 0x3A :: text) [(name, value)] := by
  intro fuel rest hfuel
  rw [List.length_append, length_quoted, List.length_cons] at hfuel
  cases fuel with
  | zero => omega
  | succ fuel =>
    rw [parseMembers, List.append_assoc, quoted_append, List.cons_append]
    simp only [parseByte_cons, Option.bind_eq_bind, Option.bind_some, parseString_append hname,
      hvalue fuel (0x7D :: rest) (by omega), parseByte_of_ne (show (0x7D : UInt8) ≠ 0x2C by decide)]

/-- A member that others come after. -/
theorem parsesMembers_cons (hname : ∀ b ∈ name, IsPlain b) (hvalue : Parses text value)
    (hmembers : ParsesMembers text' members) :
    ParsesMembers (quoted name ++ 0x3A :: (text ++ 0x2C :: text')) ((name, value) :: members) := by
  intro fuel rest hfuel
  rw [List.length_append, length_quoted, List.length_cons, List.length_append,
    List.length_cons] at hfuel
  cases fuel with
  | zero => omega
  | succ fuel =>
    rw [parseMembers, List.append_assoc, quoted_append, List.cons_append, List.append_assoc,
      List.cons_append]
    simp only [parseByte_cons, Option.bind_eq_bind, Option.bind_some, parseString_append hname,
      hvalue fuel (0x2C :: (text' ++ 0x7D :: rest)) (by omega), hmembers fuel rest (by omega),
      Option.map_some]

end Json
