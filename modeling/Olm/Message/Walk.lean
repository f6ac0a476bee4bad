import Olm.Message.RoundTrip

/-!
# What the decoders make of any bytes

The payload of a message is a list of fields in any order: those a decoder
knows, several times or not at all, and others. A member of a reader reports
what the last field of its tag holds.

The loop of a decoder goes through a payload from one item to the next. An
integer goes up to a byte that ends it, or to the end of the payload, and a
string has the length that its bytes say modulo `2 ^ 64`. Where there is less
than that left, or the tag says neither, all that follows is passed over. No
decoder ever stops with an error. `walk` are these items, and each call of a
decoder takes the next of them (`decodeInt_item`, `decodeString_item`,
`skipUnknown_item`).
-/

namespace Olm

/-! ## Fields -/

/-- What is in a field. -/
inductive Contents where
  | int (value : ℕ)
  | string (bytes : Bytes)
  deriving DecidableEq, Repr

namespace Contents

def wireType : Contents → ℕ
  | .int _ => 0
  | .string _ => 2

/-- The integer behind the tag: the value, or the length of the string. -/
def number : Contents → ℕ
  | .int value => value
  | .string bytes => bytes.length

/-- The bytes behind that. -/
def body : Contents → Bytes
  | .int _ => []
  | .string bytes => bytes

/-- The width that the integer is read at. -/
def width : Contents → ℕ
  | .int _ => 32
  | .string _ => SIZE_WIDTH

end Contents

/-- **A well-formed field**: the shortest encoding of a tag that says what
follows, and an encoding of the value or the length, the shortest or not. -/
structure Field where
  tag : ℕ
  contents : Contents
  number : Bytes
  wireType_eq : tag % 8 = contents.wireType
  encodes : Varint.Encodes number contents.number
  fits : contents.number < 2 ^ contents.width

namespace Field

def bytes (field : Field) : Bytes :=
  Varint.encode field.tag ++ (field.number ++ field.contents.body)

theorem body_fits (field : Field) : field.contents.body.length < 2 ^ SIZE_WIDTH := by
  have hfits := field.fits
  cases hcontents : field.contents with
  | int value => exact Nat.two_pow_pos SIZE_WIDTH
  | string bytes => rwa [hcontents] at hfits

end Field

def payload (fields : List Field) : Bytes := (fields.map Field.bytes).flatten

/-- What the last field of a tag holds. -/
def lastOf (tag : ℕ) (fields : List Field) : Option Contents :=
  (fields.filter (fun field => field.tag = tag)).getLast?.map Field.contents

/-! ## Reports -/

/-- The member of a reader reports what the last field held, and nothing
where there was none. -/
def StringField.Reports (field : StringField) (buf : Bytes) : Option Contents → Prop
  | none => field = .absent
  | some (.string bytes) => field.Reads buf bytes
  | some (.int _) => False

def IntField.Reports (field : IntField) : Option Contents → Prop
  | none => field = .absent
  | some (.int value) => field = { value := value, hasValue := true }
  | some (.string _) => False

/-! ## Items -/

/-- What a decoder makes of the next bytes of a payload. -/
inductive Item where
  | int (tag number : Bytes)
  | string (tag number body : Bytes)
  | passedOver (bytes : Bytes)
  deriving DecidableEq, Repr

namespace Item

def bytes : Item → Bytes
  | int tag number => tag ++ number
  | string tag number body => tag ++ (number ++ body)
  | passedOver bytes => bytes

/-- What the item says of a tag, which is one byte. -/
def contentsOf (tag : UInt8) : Item → Option Contents
  | int tag' number => if tag' = [tag] then some (.int (Varint.decode number)) else none
  | string tag' _ body => if tag' = [tag] then some (.string body) else none
  | passedOver _ => none

end Item

/-- The next item, and the bytes behind it. -/
def nextItem : Bytes → Option (Item × Bytes)
  | [] => none
  | b :: bytes =>
    let tag := Varint.span (b :: bytes)
    let number := Varint.span tag.2
    if b.toNat % 8 = 0 then some (.int tag.1 number.1, number.2)
    else if b.toNat % 8 = 2 then
      let length := Varint.decode number.1 % 2 ^ SIZE_WIDTH
      if number.2.length < length then some (.passedOver (b :: bytes), [])
      else some (.string tag.1 number.1 (number.2.take length), number.2.drop length)
    else some (.passedOver (b :: bytes), [])

/-- The first `fuel` items. -/
def itemsUpTo : (fuel : ℕ) → Bytes → List Item
  | 0, _ => []
  | fuel + 1, bytes =>
    match nextItem bytes with
    | none => []
    | some (item, rest) => item :: itemsUpTo fuel rest

/-- All the items of a payload: each has a byte. -/
def walk (payload : Bytes) : List Item := itemsUpTo payload.length payload

section Walk

variable {bytes rest : Bytes} {item : Item}

/-- There is one as long as there are bytes. -/
theorem exists_nextItem (b : UInt8) (bytes : Bytes) :
    ∃ item rest, nextItem (b :: bytes) = some (item, rest) := by
  unfold nextItem
  dsimp only
  split_ifs
  all_goals exact ⟨_, _, rfl⟩

/-- No byte is lost. -/
theorem nextItem_append (h : nextItem bytes = some (item, rest)) : item.bytes ++ rest = bytes := by
  cases bytes with
  | nil => cases h
  | cons b bytes =>
    have htag := Varint.span_append (b :: bytes)
    have hnumber := Varint.span_append (Varint.span (b :: bytes)).2
    unfold nextItem at h
    dsimp only at h
    split at h
    · cases h
      rw [Item.bytes, List.append_assoc, hnumber, htag]
    · split at h
      · split at h
        · cases h
          rw [Item.bytes, List.append_nil]
        · cases h
          rw [Item.bytes, List.append_assoc, List.append_assoc, List.take_append_drop, hnumber,
            htag]
      · cases h
        rw [Item.bytes, List.append_nil]

/-- An item starts with the byte that is next. -/
theorem exists_bytes_of_nextItem {b : UInt8} (h : nextItem (b :: bytes) = some (item, rest)) :
    ∃ more, item.bytes = b :: more := by
  obtain ⟨more, hspan⟩ := Varint.span_cons b bytes
  unfold nextItem at h
  dsimp only at h
  rw [hspan] at h
  split at h
  · cases h
    exact ⟨_, rfl⟩
  · split at h
    · split at h
      · cases h
        exact ⟨_, rfl⟩
      · cases h
        exact ⟨_, rfl⟩
    · cases h
      exact ⟨_, rfl⟩

theorem length_lt_of_nextItem (h : nextItem bytes = some (item, rest)) :
    rest.length < bytes.length := by
  cases bytes with
  | nil => cases h
  | cons b bytes =>
    obtain ⟨more, hbytes⟩ := exists_bytes_of_nextItem h
    rw [← nextItem_append h, hbytes, List.length_append, List.length_cons]
    omega

/-- The item says nothing of a tag that is not the next byte. -/
theorem contentsOf_of_ne {b tag : UInt8} (hne : tag ≠ b)
    (h : nextItem (b :: bytes) = some (item, rest)) : item.contentsOf tag = none := by
  obtain ⟨more, hspan⟩ := Varint.span_cons b bytes
  have htag : ¬(b :: more) = [tag] := fun heq => hne (List.cons.inj heq).1.symm
  unfold nextItem at h
  dsimp only at h
  rw [hspan] at h
  split at h
  · cases h
    rw [Item.contentsOf, if_neg htag]
  · split at h
    · split at h
      · cases h
        rfl
      · cases h
        rw [Item.contentsOf, if_neg htag]
    · cases h
      rfl

theorem itemsUpTo_eq {fuel fuel' : ℕ} (h : bytes.length ≤ fuel) (h' : bytes.length ≤ fuel') :
    itemsUpTo fuel bytes = itemsUpTo fuel' bytes := by
  induction fuel generalizing bytes fuel' with
  | zero =>
    obtain rfl := List.eq_nil_of_length_eq_zero (Nat.le_zero.mp h)
    cases fuel' with
    | zero => rfl
    | succ fuel' => rfl
  | succ fuel ih =>
    cases fuel' with
    | zero =>
      obtain rfl := List.eq_nil_of_length_eq_zero (Nat.le_zero.mp h')
      rfl
    | succ fuel' =>
      unfold itemsUpTo
      cases hnext : nextItem bytes with
      | none => rfl
      | some result =>
        obtain ⟨item, rest⟩ := result
        have hlt := length_lt_of_nextItem hnext
        dsimp only
        rw [ih (show rest.length ≤ fuel by omega) (show rest.length ≤ fuel' by omega)]

@[simp] theorem walk_nil : walk [] = [] := rfl

/-- **The walk goes on behind the next item.** -/
theorem walk_of_nextItem (h : nextItem bytes = some (item, rest)) :
    walk bytes = item :: walk rest := by
  have hlt := length_lt_of_nextItem h
  obtain ⟨fuel, hfuel⟩ : ∃ fuel, bytes.length = fuel + 1 := ⟨bytes.length - 1, by omega⟩
  rw [walk, hfuel, itemsUpTo, h]
  exact congrArg (item :: ·) (itemsUpTo_eq (by omega) le_rfl)

/-- Induction along the walk. -/
@[elab_as_elim]
theorem walkInduction {motive : Bytes → Prop} (nil : motive [])
    (next : ∀ bytes item rest, nextItem bytes = some (item, rest) → motive rest → motive bytes)
    (bytes : Bytes) : motive bytes := by
  obtain ⟨n, hn⟩ : ∃ n, bytes.length = n := ⟨_, rfl⟩
  induction n using Nat.strongRecOn generalizing bytes with
  | ind n ih =>
    cases bytes with
    | nil => exact nil
    | cons b bytes =>
      obtain ⟨item, rest, hnext⟩ := exists_nextItem b bytes
      have hlt := length_lt_of_nextItem hnext
      exact next (b :: bytes) item rest hnext (ih rest.length (by omega) rest rfl)

/-- The items are the payload. -/
theorem flatten_walk (bytes : Bytes) : ((walk bytes).map Item.bytes).flatten = bytes := by
  induction bytes using walkInduction with
  | nil => rfl
  | next bytes item rest h ih =>
    rw [walk_of_nextItem h, List.map_cons, List.flatten_cons, ih, nextItem_append h]

end Walk

/-! ## The calls -/

/-- These bytes are left at `pos`, up to the end. -/
structure BytesLeft (buf : Bytes) (end_ : ℕ) (trailer bytes : Bytes) (pos : ℕ) : Prop where
  drop_eq : buf.drop pos = bytes ++ trailer
  end_eq : pos + bytes.length = end_

section Calls

variable {buf trailer bytes rest : Bytes} {end_ pos : ℕ} {item : Item} {tag : UInt8}

theorem BytesLeft.behind {bs : Bytes} (h : BytesLeft buf end_ trailer (bs ++ rest) pos) :
    BytesLeft buf end_ trailer rest (pos + bs.length) := by
  have hdrop := h.drop_eq
  have hend := h.end_eq
  rw [List.append_assoc] at hdrop
  rw [List.length_append] at hend
  exact ⟨drop_add_of_drop_eq_append bs hdrop, by omega⟩

/-- Behind all of the bytes. -/
theorem BytesLeft.atEnd (h : BytesLeft buf end_ trailer bytes pos) :
    BytesLeft buf end_ trailer [] end_ := by
  have hnil := h
  rw [← List.append_nil bytes] at hnil
  have hat := hnil.behind
  rwa [h.end_eq] at hat

/-- Behind one of them. -/
theorem BytesLeft.tail {b : UInt8} (h : BytesLeft buf end_ trailer (b :: bytes) pos) :
    BytesLeft buf end_ trailer bytes (pos + 1) :=
  @BytesLeft.behind buf trailer bytes end_ pos [b] h

theorem BytesLeft.readByte_eq {b : UInt8} (h : BytesLeft buf end_ trailer (b :: bytes) pos) :
    readByte buf pos = .ok b :=
  readByte_of_drop_eq_cons h.drop_eq

theorem varintSkipLoop_span (h : buf.drop pos = bytes ++ trailer) :
    varintSkipLoop buf bytes.length pos = .ok (pos + (Varint.span bytes).1.length) := by
  induction bytes generalizing pos with
  | nil => rfl
  | cons b bytes ih =>
    have hnext : buf.drop (pos + 1) = bytes ++ trailer := drop_add_of_drop_eq_append [b] h
    rw [List.length_cons, varintSkipLoop, readByte_of_drop_eq_cons h, Checked.ok_bind, Varint.span]
    by_cases hb : Varint.continues b
    · rw [if_neg hb, if_pos hb, ih hnext, List.length_cons, Nat.add_right_comm, Nat.add_assoc]
    · rw [if_pos (not_not.mp hb), if_neg hb, List.length_singleton]

/-- `varint_skip` stops behind the bytes of an integer, or at the end. -/
theorem BytesLeft.varintSkip_eq (h : BytesLeft buf end_ trailer bytes pos) :
    varintSkip buf pos end_ = .ok (pos + (Varint.span bytes).1.length) ∧
      BytesLeft buf end_ trailer (Varint.span bytes).2 (pos + (Varint.span bytes).1.length) := by
  have hend := h.end_eq
  constructor
  · have hcount : end_ - pos = bytes.length := by omega
    rw [varintSkip, if_neg (by omega), hcount, varintSkipLoop_span h.drop_eq]
  · rw [← Varint.span_append bytes] at h
    exact h.behind

/-- `varint_decode` of these bytes. -/
theorem BytesLeft.varintDecode_eq {width : ℕ} (hwidth : 7 ≤ width)
    (h : BytesLeft buf end_ trailer bytes pos) :
    varintDecode width buf pos (pos + (Varint.span bytes).1.length) =
      .ok (Varint.decode (Varint.span bytes).1 % 2 ^ width) := by
  have hdrop := h.drop_eq
  rw [← Varint.span_append bytes, List.append_assoc] at hdrop
  exact varintDecode_of_drop_eq hwidth hdrop

theorem BytesLeft.atTag_eq (h : BytesLeft buf end_ trailer bytes pos) (tag : UInt8) :
    atTag buf pos end_ tag = .ok (bytes.head? == some tag) := by
  have hend := h.end_eq
  cases bytes with
  | nil =>
    rw [atTag, if_pos (by simpa using hend)]
    rfl
  | cons b bytes =>
    rw [List.length_cons] at hend
    rw [atTag, if_neg (by omega), h.readByte_eq, Checked.ok_bind]
    rfl

/-- A tag that is one byte ends itself. -/
theorem span_tag (hsmall : tag.toNat < 128) (bytes : Bytes) :
    Varint.span (tag :: bytes) = ([tag], bytes) := by
  have hends : ¬Varint.continues tag := by
    rw [Varint.continues_iff]
    omega
  rw [Varint.span, if_neg hends]

/-- **`decode` of an integer** at its tag takes the next item. -/
theorem decodeInt_item (h : BytesLeft buf end_ trailer (tag :: bytes) pos)
    (hsmall : tag.toNat < 128) (hwire : tag.toNat % 8 = 0) (field : IntField) :
    ∃ value rest pos', nextItem (tag :: bytes) = some (.int [tag] value, rest) ∧
      decodeInt buf end_ tag pos field =
        .ok (pos', { value := Varint.decode value % 2 ^ 32, hasValue := true }) ∧
      BytesLeft buf end_ trailer rest pos' := by
  have hnumber := h.tail
  obtain ⟨hskip, hrest⟩ := hnumber.varintSkip_eq
  refine ⟨(Varint.span bytes).1, _, _, ?_, ?_, hrest⟩
  · unfold nextItem
    dsimp only
    rw [if_pos hwire, span_tag hsmall]
  · have hat := h.atTag_eq tag
    rw [List.head?_cons, beq_self_eq_true] at hat
    simp only [decodeInt, hat, Checked.ok_bind, if_true, hskip,
      hnumber.varintDecode_eq (show 7 ≤ 32 by decide)]

/-- **`decode` of a string** at its tag takes the next item too, and leaves the
member as it was where the string is too long. -/
theorem decodeString_item (h : BytesLeft buf end_ trailer (tag :: bytes) pos)
    (hsmall : tag.toNat < 128) (hwire : tag.toNat % 8 = 2) (field : StringField) :
    ∃ item rest pos' field', nextItem (tag :: bytes) = some (item, rest) ∧
      decodeString buf end_ tag pos field = .ok (pos', field') ∧
      BytesLeft buf end_ trailer rest pos' ∧
      (item.contentsOf tag = none ∧ field' = field ∨
        ∃ body, item.contentsOf tag = some (.string body) ∧ field'.Reads buf body) := by
  have hnumber := h.tail
  obtain ⟨hskip, hrest⟩ := hnumber.varintSkip_eq
  have hend := hrest.end_eq
  have hlength := hnumber.varintDecode_eq (show 7 ≤ SIZE_WIDTH by decide)
  have hat := h.atTag_eq tag
  rw [List.head?_cons, beq_self_eq_true] at hat
  generalize hlen : Varint.decode (Varint.span bytes).1 % 2 ^ SIZE_WIDTH = length at hlength
  have hnext : nextItem (tag :: bytes) = if (Varint.span bytes).2.length < length then
      some (.passedOver (tag :: bytes), []) else
      some (.string [tag] (Varint.span bytes).1 ((Varint.span bytes).2.take length),
        (Varint.span bytes).2.drop length) := by
    unfold nextItem
    dsimp only
    rw [if_neg (by omega), if_pos hwire, span_tag hsmall, hlen]
  simp only [decodeString, hat, Checked.ok_bind, if_true, hskip, hlength]
  by_cases hlong : (Varint.span bytes).2.length < length
  · rw [if_pos hlong] at hnext
    rw [if_pos (by omega)]
    exact ⟨_, _, _, _, hnext, rfl, h.atEnd, .inl ⟨rfl, rfl⟩⟩
  · rw [if_neg hlong] at hnext
    rw [if_neg (by omega)]
    have hbody : ((Varint.span bytes).2.take length).length = length :=
      List.length_take_of_le (by omega)
    have hsplit := hrest
    rw [← List.take_append_drop length (Varint.span bytes).2] at hsplit
    have hafter := hsplit.behind
    rw [hbody] at hafter
    refine ⟨_, _, _, _, hnext, rfl, hafter, .inr ⟨_, if_pos rfl, _,
      (Varint.span bytes).2.drop length ++ trailer, by rw [hbody], ?_⟩⟩
    rw [hsplit.drop_eq, List.append_assoc]

/-- The bits of a byte that say what follows the tag. -/
theorem wireBits (b : UInt8) : (b &&& 0x7).toNat = b.toNat % 8 := by
  rw [UInt8.toNat_and]
  exact Nat.and_two_pow_sub_one_eq_mod b.toNat 3

/-- **`skip_unknown`** passes over the next item. -/
theorem skipUnknown_item (h : BytesLeft buf end_ trailer bytes pos)
    (hnext : nextItem bytes = some (item, rest)) :
    ∃ pos', skipUnknown buf pos end_ = .ok pos' ∧ BytesLeft buf end_ trailer rest pos' := by
  cases bytes with
  | nil => cases hnext
  | cons b bytes =>
    obtain ⟨htagSkip, htag⟩ := h.varintSkip_eq
    obtain ⟨hskip, hrest⟩ := htag.varintSkip_eq
    have hend := h.end_eq
    have hend' := hrest.end_eq
    rw [List.length_cons] at hend
    have hzero : b &&& 0x7 = 0 ↔ b.toNat % 8 = 0 := by
      rw [← UInt8.toNat_inj, wireBits]
      rfl
    have htwo : b &&& 0x7 = 2 ↔ b.toNat % 8 = 2 := by
      rw [← UInt8.toNat_inj, wireBits]
      rfl
    rw [skipUnknown, if_neg (by omega), h.readByte_eq, Checked.ok_bind]
    unfold nextItem at hnext
    dsimp only at hnext
    split at hnext
    · rename_i hwire
      cases hnext
      rw [if_pos (hzero.mpr hwire), htagSkip, Checked.ok_bind, hskip]
      exact ⟨_, rfl, hrest⟩
    · rename_i hwire
      rw [if_neg (mt hzero.mp hwire)]
      split at hnext
      · rename_i hwire
        rw [if_pos (htwo.mpr hwire), htagSkip, Checked.ok_bind]
        have hlength := htag.varintDecode_eq (show 7 ≤ SIZE_WIDTH by decide)
        simp only [hskip, hlength, Checked.ok_bind]
        generalize Varint.decode (Varint.span (Varint.span (b :: bytes)).2).1 % 2 ^ SIZE_WIDTH =
          length at hnext ⊢
        split at hnext
        · rename_i hlong
          cases hnext
          rw [if_pos (by omega)]
          exact ⟨_, rfl, h.atEnd⟩
        · rename_i hshort
          cases hnext
          rw [if_neg (by omega)]
          have hsplit := hrest
          rw [← List.take_append_drop length (Varint.span (Varint.span (b :: bytes)).2).2] at hsplit
          have hafter := hsplit.behind
          rw [List.length_take_of_le (by omega)] at hafter
          exact ⟨_, rfl, hafter⟩
      · rename_i hwire
        cases hnext
        rw [if_neg (mt htwo.mp hwire)]
        exact ⟨_, rfl, h.atEnd⟩

end Calls

end Olm
