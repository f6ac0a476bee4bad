import Olm.Message.Decoders

/-!
# The grammar of payloads

A payload of the documented grammar is a sequence of complete fields: each
integer, of a tag, a value or a length, ends in a byte with the high bit clear,
and each string has the length that is said. The decoders take any bytes, so
they also accept payloads of no such fields, and
`decoders_accept_fields_iff` is when they do not.
-/

namespace Olm

/-! ## Fields -/

/-- **A complete field**: a tag that says what follows, and an encoding of the
value or of the length, the shortest or not. A length is a `std::size_t`. -/
structure WireField where
  tag : Bytes
  number : Bytes
  contents : Contents
  tag_ends : Varint.Ends tag
  wireType_eq : Varint.decode tag % 8 = contents.wireType
  encodes : Varint.Encodes number contents.number
  fits : contents.body.length < 2 ^ SIZE_WIDTH

namespace WireField

def bytes (field : WireField) : Bytes := field.tag ++ (field.number ++ field.contents.body)

/-- What a decoder makes of it. -/
def item (field : WireField) : Item :=
  match field.contents with
  | .int _ => .int field.tag field.number
  | .string body => .string field.tag field.number body

end WireField

def wireBytes (fields : List WireField) : Bytes := (fields.map WireField.bytes).flatten

/-- What the last field of a tag holds. The decoders know a tag by its byte. -/
def lastWire (tag : UInt8) (fields : List WireField) : Option Contents :=
  (fields.filter (fun field => field.tag = [tag])).getLast?.map WireField.contents

/-- The item is a field. -/
def Item.Complete : Item → Prop
  | .int tag number => Varint.Ends tag ∧ Varint.Ends number
  | .string tag number body =>
    Varint.Ends tag ∧ Varint.Ends number ∧ Varint.decode number = body.length
  | .passedOver _ => False

/-- A tag or a number runs into the end of the payload. -/
def Item.RunsOut : Item → Prop
  | .int tag number | .string tag number _ => ¬ Varint.Ends tag ∨ ¬ Varint.Ends number
  | .passedOver _ => False

/-- A length wraps around. -/
def Item.WrapsLength : Item → Prop
  | .string _ number body => Varint.decode number ≠ body.length
  | .int .. | .passedOver _ => False

/-- The item is what was left when a tag said neither, or a string was longer. -/
def Item.IsPassedOver : Item → Prop
  | .passedOver _ => True
  | .int .. | .string .. => False

/-- **The defects of an item.** -/
theorem Item.not_complete_iff {item : Item} :
    ¬ item.Complete ↔ item.RunsOut ∨ item.WrapsLength ∨ item.IsPassedOver := by
  cases item with
  | int tag number => simp only [Complete, RunsOut, WrapsLength, IsPassedOver, or_false]; tauto
  | string tag number body =>
    simp only [Complete, RunsOut, WrapsLength, IsPassedOver, or_false]; tauto
  | passedOver bytes => simp only [Complete, RunsOut, WrapsLength, IsPassedOver]; tauto

section Fields

variable {bytes rest : Bytes} {item : Item}

/-- The first byte of a tag says what follows. -/
theorem decode_mod_eight (b : UInt8) (bytes : Bytes) :
    Varint.decode (b :: bytes) % 8 = b.toNat % 8 := by
  rw [Varint.decode_cons]
  omega

theorem nextItem_int {tag number : Bytes} (htag : Varint.Ends tag) (hnumber : Varint.Ends number)
    (hwire : Varint.decode tag % 8 = 0) (rest : Bytes) :
    nextItem (tag ++ (number ++ rest)) = some (.int tag number, rest) := by
  cases tag with
  | nil => exact htag.elim
  | cons b tag =>
    rw [decode_mod_eight] at hwire
    have hspan := Varint.span_of_ends htag (number ++ rest)
    rw [List.cons_append] at hspan
    rw [List.cons_append, nextItem, hspan]
    dsimp only
    rw [Varint.span_of_ends hnumber, if_pos hwire]

theorem nextItem_string {tag number body : Bytes} (htag : Varint.Ends tag)
    (hnumber : Varint.Ends number) (hwire : Varint.decode tag % 8 = 2)
    (hlength : Varint.decode number % 2 ^ SIZE_WIDTH = body.length) (rest : Bytes) :
    nextItem (tag ++ (number ++ (body ++ rest))) = some (.string tag number body, rest) := by
  cases tag with
  | nil => exact htag.elim
  | cons b tag =>
    rw [decode_mod_eight] at hwire
    have hspan := Varint.span_of_ends htag (number ++ (body ++ rest))
    rw [List.cons_append] at hspan
    have hshort : ¬(body ++ rest).length < body.length := by
      rw [List.length_append]
      omega
    rw [List.cons_append, nextItem, hspan]
    dsimp only
    rw [Varint.span_of_ends hnumber, if_neg (by omega), if_pos hwire, hlength, if_neg hshort,
      List.take_left, List.drop_left]

/-- **The next item of fields** is the next field. -/
theorem nextItem_wireField (field : WireField) (rest : Bytes) :
    nextItem (field.bytes ++ rest) = some (field.item, rest) := by
  obtain ⟨tag, number, contents, htag, hwire, hencodes, hfits⟩ := field
  obtain ⟨hnumber, hdecode⟩ := Varint.encodes_iff.mp hencodes
  rw [WireField.bytes, List.append_assoc, List.append_assoc]
  cases contents with
  | int value => exact nextItem_int htag hnumber hwire rest
  | string body =>
    refine nextItem_string htag hnumber hwire ?_ rest
    rw [hdecode]
    exact Nat.mod_eq_of_lt hfits

/-- The walk through fields. -/
theorem walk_wireBytes (fields : List WireField) :
    walk (wireBytes fields) = fields.map WireField.item := by
  induction fields with
  | nil => rfl
  | cons field fields ih =>
    rw [wireBytes, List.map_cons, List.flatten_cons, walk_of_nextItem (nextItem_wireField field _),
      List.map_cons]
    exact congrArg _ ih

theorem WireField.complete_item (field : WireField) : field.item.Complete := by
  obtain ⟨tag, number, contents, htag, hwire, hencodes, hfits⟩ := field
  obtain ⟨hends, hdecode⟩ := Varint.encodes_iff.mp hencodes
  cases contents with
  | int value => exact ⟨htag, hends⟩
  | string body => exact ⟨htag, hends, hdecode⟩

theorem WireField.bytes_item (field : WireField) : field.item.bytes = field.bytes := by
  obtain ⟨tag, number, contents, htag, hwire, hencodes, hfits⟩ := field
  cases contents with
  | int value => exact congrArg (tag ++ ·) (List.append_nil number).symm
  | string body => rfl

/-- An item that is complete is a field. -/
theorem exists_wireField (hnext : nextItem bytes = some (item, rest)) (hcomplete : item.Complete) :
    ∃ field : WireField, field.item = item := by
  cases bytes with
  | nil => cases hnext
  | cons b bytes =>
    obtain ⟨more, hspan⟩ := Varint.span_cons b bytes
    have hwire : Varint.decode (Varint.span (b :: bytes)).1 % 8 = b.toNat % 8 := by
      rw [hspan, decode_mod_eight]
    unfold nextItem at hnext
    dsimp only at hnext
    split at hnext
    · rename_i hint
      cases hnext
      obtain ⟨htag, hnumber⟩ := hcomplete
      exact ⟨⟨_, _, .int _, htag, hwire.trans hint, Varint.encodes_iff.mpr ⟨hnumber, rfl⟩,
        Nat.two_pow_pos SIZE_WIDTH⟩, rfl⟩
    · split at hnext
      · rename_i hstring
        split at hnext
        · cases hnext
          exact hcomplete.elim
        · rename_i hshort
          cases hnext
          obtain ⟨htag, hnumber, hlength⟩ := hcomplete
          refine ⟨⟨_, _, .string _, htag, hwire.trans hstring,
            Varint.encodes_iff.mpr ⟨hnumber, hlength⟩, ?_⟩, rfl⟩
          rw [Contents.body, List.length_take_of_le (not_lt.mp hshort)]
          exact Nat.mod_lt _ (Nat.two_pow_pos SIZE_WIDTH)
      · cases hnext
        exact hcomplete.elim

/-- **The fields of a payload are the items of the walk.** -/
theorem exists_wireBytes_iff (payload : Bytes) :
    (∃ fields, wireBytes fields = payload) ↔ ∀ item ∈ walk payload, item.Complete := by
  constructor
  · rintro ⟨fields, rfl⟩
    rw [walk_wireBytes, List.forall_mem_map]
    intro field _
    exact field.complete_item
  · intro h
    induction payload using walkInduction with
    | nil => exact ⟨[], rfl⟩
    | next bytes item rest hnext ih =>
      rw [walk_of_nextItem hnext] at h
      obtain ⟨hitem, hrest⟩ := List.forall_mem_cons.mp h
      obtain ⟨fields, hfields⟩ := ih hrest
      obtain ⟨field, hfield⟩ := exists_wireField hnext hitem
      refine ⟨field :: fields, ?_⟩
      rw [← nextItem_append hnext, ← hfield, field.bytes_item, ← hfields]
      rfl

theorem contentsOf_wireField (tag : UInt8) (field : WireField) :
    field.item.contentsOf tag = if field.tag = [tag] then some field.contents else none := by
  obtain ⟨tag', number, contents, htag, hwire, hencodes, hfits⟩ := field
  cases contents with
  | int value =>
    obtain rfl : Varint.decode number = value := hencodes.decode_eq
    rfl
  | string body => rfl

/-- The last item of a tag is the last field of it. -/
theorem lastIn_item (tag : UInt8) (fields : List WireField) :
    lastIn tag (fields.map WireField.item) = lastWire tag fields := by
  have hitems : (fields.map WireField.item).filterMap (Item.contentsOf tag) =
      (fields.filter (fun field => field.tag = [tag])).map WireField.contents := by
    induction fields with
    | nil => rfl
    | cons field fields ih =>
      rw [List.map_cons, List.filterMap_cons, contentsOf_wireField, ih]
      by_cases htag : field.tag = [tag]
      · simp [htag]
      · simp [htag]
  rw [lastIn, hitems, List.getLast?_map, lastWire]

end Fields

/-! ## What a reader shows of it -/

/-- The member has what a field held, and an integer is one of 32 bits. -/
def Member.Reports (buf : Bytes) : Member → Option Contents → Prop
  | .int field, contents => field.Reports contents ∧ field.value < 2 ^ 32
  | .string field, contents => field.Reports buf contents

namespace Format

variable {Reader : Type}

/-- The reader has the fields that its caller asks for. -/
def Accepts (format : Format Reader) (required : List UInt8) (reader : Reader) : Prop :=
  ∀ member ∈ format.members reader, member.1 ∈ required → member.2.has = true

/-- The payload is a sequence of complete fields, and each member has what the
last field of its tag holds. -/
def Complete (format : Format Reader) (buf payload : Bytes) (reader : Reader) : Prop :=
  ∃ fields, wireBytes fields = payload ∧
    ∀ member ∈ format.members reader, member.2.Reports buf (lastWire member.1 fields)

/-- On the walk through the payload a field that is asked for is not met, or
else each item is a field and no integer that is reported is too large. -/
def Spared (format : Format Reader) (required : List UInt8) (payload : Bytes) : Prop :=
  (∃ tag ∈ format.tags, tag ∈ required ∧ lastIn tag (walk payload) = none) ∨
    ((∀ item ∈ walk payload, item.Complete) ∧ ∀ tag ∈ format.tags, ∀ value,
      lastIn tag (walk payload) = some (.int value) → value < 2 ^ 32)

variable {format : Format Reader} {buf payload : Bytes} {version : UInt8} {items : List Item}
  {reader : Reader}

theorem exists_member {tag : UInt8} (htag : tag ∈ format.tags) (reader : Reader) :
    ∃ member, (tag, member) ∈ format.members reader := by
  rw [← format.tags_eq reader] at htag
  obtain ⟨⟨tag', member⟩, hmember, rfl⟩ := List.mem_map.mp htag
  exact ⟨member, hmember⟩

theorem mem_tags {member : UInt8 × Member} (hmember : member ∈ format.members reader) :
    member.1 ∈ format.tags := by
  rw [← format.tags_eq reader]
  exact List.mem_map_of_mem hmember

theorem has_iff {member : Member} {contents : Option Contents} (h : member.Wraps buf contents) :
    member.has = true ↔ contents ≠ none := by
  cases member with
  | int field =>
    match contents, h with
    | none, h =>
      rw [Member.has, (h : field = .absent)]
      simp [IntField.absent]
    | some (.int value), h =>
      rw [Member.has, (h : field = _)]
      simp
  | string field =>
    match contents, h with
    | none, h =>
      rw [Member.has, (h : field = .absent)]
      simp [StringField.absent]
    | some (.string body), ⟨start, _, hfield, _⟩ =>
      rw [Member.has, hfield]
      simp

/-- A member reports what it should unless an integer was too large. -/
theorem reports_iff {member : Member} {contents : Option Contents}
    (h : member.Wraps buf contents) :
    member.Reports buf contents ↔ ∀ value, contents = some (.int value) → value < 2 ^ 32 := by
  cases member with
  | int field =>
    match contents, h with
    | none, h =>
      obtain rfl : field = .absent := h
      exact iff_of_true ⟨rfl, Nat.two_pow_pos 32⟩ nofun
    | some (.int value), h =>
      obtain rfl : field = { value := value % 2 ^ 32, hasValue := true } := h
      constructor
      · rintro ⟨hvalue, hlt⟩ value' heq
        obtain rfl : value = value' := by simpa using heq
        have hmod : value % 2 ^ 32 = value := congrArg IntField.value hvalue
        exact hmod ▸ hlt
      · intro hsmall
        have hmod : value % 2 ^ 32 = value := Nat.mod_eq_of_lt (hsmall value rfl)
        exact ⟨congrArg (IntField.mk · true) hmod, Nat.mod_lt _ (Nat.two_pow_pos 32)⟩
  | string field =>
    refine iff_of_true h fun value heq => ?_
    rw [heq] at h
    exact h.elim

theorem Follows.accepts_iff (h : format.Follows buf version items reader) (required : List UInt8) :
    format.Accepts required reader ↔
      ∀ tag ∈ format.tags, tag ∈ required → lastIn tag items ≠ none := by
  constructor
  · intro haccepts tag htag hrequired
    obtain ⟨member, hmember⟩ := exists_member htag reader
    exact (has_iff (h.wraps _ hmember)).mp (haccepts _ hmember hrequired)
  · intro hmet member hmember hrequired
    exact (has_iff (h.wraps _ hmember)).mpr (hmet _ (mem_tags hmember) hrequired)

theorem Follows.complete_iff (h : format.Follows buf version (walk payload) reader) :
    format.Complete buf payload reader ↔
      (∀ item ∈ walk payload, item.Complete) ∧ ∀ tag ∈ format.tags, ∀ value,
        lastIn tag (walk payload) = some (.int value) → value < 2 ^ 32 := by
  constructor
  · rintro ⟨fields, rfl, hreports⟩
    refine ⟨(exists_wireBytes_iff _).mp ⟨fields, rfl⟩, fun tag htag => ?_⟩
    obtain ⟨member, hmember⟩ := exists_member htag reader
    have hmember' := hreports _ hmember
    rw [← lastIn_item, ← walk_wireBytes] at hmember'
    exact (reports_iff (h.wraps _ hmember)).mp hmember'
  · rintro ⟨hcomplete, hsmall⟩
    obtain ⟨fields, rfl⟩ := (exists_wireBytes_iff payload).mpr hcomplete
    refine ⟨fields, rfl, fun member hmember => ?_⟩
    rw [← lastIn_item, ← walk_wireBytes]
    exact (reports_iff (h.wraps _ hmember)).mpr (hsmall _ (mem_tags hmember))

/-- **What a reader accepts is complete on the payloads that are spared.** -/
theorem Follows.spared_iff (h : format.Follows buf version (walk payload) reader)
    (required : List UInt8) :
    (format.Accepts required reader → format.Complete buf payload reader) ↔
      format.Spared required payload := by
  rw [h.accepts_iff, h.complete_iff, Spared, imp_iff_not_or]
  simp only [not_forall, not_not, exists_prop]

/-- **What is accepted and should not be**: all the fields that are asked for are
met, and some item has a defect, or the last counter or index is one of more than
32 bits. -/
theorem not_spared_iff {required : List UInt8} :
    ¬ format.Spared required payload ↔
      (∀ tag ∈ format.tags, tag ∈ required → lastIn tag (walk payload) ≠ none) ∧
      ((∃ item ∈ walk payload, item.RunsOut ∨ item.WrapsLength ∨ item.IsPassedOver) ∨
        ∃ tag ∈ format.tags, ∃ value,
          lastIn tag (walk payload) = some (.int value) ∧ 2 ^ 32 ≤ value) := by
  rw [Spared, not_or, not_and_or]
  refine and_congr ?_ (or_congr ?_ ?_)
  · simp only [not_exists, not_and, ne_eq]
  · simp only [← Item.not_complete_iff, not_forall, exists_prop]
  · simp only [not_forall, exists_prop, Nat.not_lt]

end Format

/-! ## The three decoders -/

/-- **When the decoders accept complete fields only**, of whatever their callers
ask for: the payload is complete fields, and the reader has the last of them,
exactly where the walk misses a field that is asked for, or where each item of it
is a field and the last integer of a tag is one of 32 bits. -/
theorem decoders_accept_fields_iff (required : List UInt8) (pre message post : Bytes)
    (macLength signatureLength : ℕ) :
    (∃ reader, decodeMessage (pre ++ (message ++ post)) pre.length message.length macLength =
        .ok reader ∧
      ((messageFormat.Accepts required reader →
          messageFormat.Complete (pre ++ (message ++ post)) (payloadOf message macLength) reader) ↔
        messageFormat.Spared required (payloadOf message macLength))) ∧
    (∃ reader, decodeOneTimeKeyMessage (pre ++ (message ++ post)) pre.length message.length =
        .ok reader ∧
      ((preKeyMessageFormat.Accepts required reader →
          preKeyMessageFormat.Complete (pre ++ (message ++ post)) (payloadOf message 0) reader) ↔
        preKeyMessageFormat.Spared required (payloadOf message 0))) ∧
    ∃ reader, decodeGroupMessage (message ++ post) message.length macLength signatureLength =
        .ok reader ∧
      ((groupMessageFormat.Accepts required reader →
          groupMessageFormat.Complete (message ++ post)
            (payloadOf message (macLength + signatureLength)) reader) ↔
        groupMessageFormat.Spared required (payloadOf message (macLength + signatureLength))) := by
  obtain ⟨reader₁, hdecode₁, hfollows₁⟩ := decodeMessage_walk pre message post macLength
  obtain ⟨reader₂, hdecode₂, hfollows₂⟩ := decodeOneTimeKeyMessage_walk pre message post
  obtain ⟨reader₃, hdecode₃, hfollows₃⟩ :=
    decodeGroupMessage_walk message post macLength signatureLength
  exact ⟨⟨reader₁, hdecode₁, hfollows₁.spared_iff required⟩,
    ⟨reader₂, hdecode₂, hfollows₂.spared_iff required⟩,
    ⟨reader₃, hdecode₃, hfollows₃.spared_iff required⟩⟩

/-- A group message of complete fields. -/
def wholeIndex : Bytes := [3, 8, 5, 0x12, 0] ++ List.replicate 72 0

/-- It is accepted as what it is. -/
theorem decoders_accept_fields_iff_wholeIndex :
    ∃ reader, decodeGroupMessage wholeIndex wholeIndex.length 8 64 = .ok reader ∧
      reader.messageIndex = { value := 5, hasValue := true } ∧
      groupMessageFormat.Complete wholeIndex (payloadOf wholeIndex 72) reader := by
  obtain ⟨-, -, reader, hdecode, hiff⟩ :=
    decoders_accept_fields_iff groupMessageFormat.tags [] wholeIndex [] 8 64
  rw [List.append_nil] at hdecode hiff
  have hreads : decodeGroupMessage wholeIndex wholeIndex.length 8 64 =
      .ok { version := 3, messageIndex := { value := 5, hasValue := true }
            ciphertext := { value := some 5, length := 0 } } := by decide +kernel
  obtain rfl := Except.ok.inj (hreads.symm.trans hdecode)
  refine ⟨_, hreads, rfl, hiff.mpr (.inr ⟨?_, ?_⟩) ?_⟩
  · intro item hitem
    have hwalk : walk (payloadOf wholeIndex 72) = [.int [8] [5], .string [0x12] [0] []] := by
      decide +kernel
    rw [hwalk] at hitem
    rcases List.mem_pair.mp hitem with rfl | rfl
    · exact ⟨by decide, by decide⟩
    · exact ⟨by decide, by decide, by decide⟩
  · intro tag htag value hvalue
    have hlast : ∀ tag ∈ groupMessageFormat.tags, lastIn tag (walk (payloadOf wholeIndex 72)) =
        some (.int 5) ∨ lastIn tag (walk (payloadOf wholeIndex 72)) = some (.string []) := by
      decide +kernel
    rcases hlast tag htag with h | h
    · rw [h] at hvalue
      cases hvalue
      decide
    · rw [h] at hvalue
      cases hvalue
  · simp [Format.Accepts, groupMessageFormat, Member.has]

/-- A group message whose index is the byte in front of the trailer, which says
that more follow. -/
def partialIndex : Bytes := [3, 0x12, 0, 8, 0x85] ++ List.replicate 72 0

/-- **It is accepted**, with the index 5. -/
theorem accepts_partialIndex :
    ∃ reader, decodeGroupMessage partialIndex partialIndex.length 8 64 = .ok reader ∧
      reader.messageIndex = { value := 5, hasValue := true } ∧
      groupMessageFormat.Accepts groupMessageFormat.tags reader ∧
      ¬∃ fields, wireBytes fields = payloadOf partialIndex 72 := by
  refine ⟨{ version := 3, messageIndex := { value := 5, hasValue := true }
            ciphertext := { value := some 3, length := 0 } }, by decide +kernel, rfl, ?_, ?_⟩
  · simp [Format.Accepts, groupMessageFormat, Member.has]
  · rw [exists_wireBytes_iff]
    intro hcomplete
    have hindex : Item.int [8] [0x85] ∈ walk (payloadOf partialIndex 72) := by decide +kernel
    exact absurd (hcomplete _ hindex).2 (by decide)

end Olm
