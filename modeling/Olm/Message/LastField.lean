import Olm.Message.Grammar

/-!
# The last field counts

The three decoders on payloads of fields: each member of a reader is what
the last field of its tag held, and absent where there was none. So fields
of different tags may come in any order, and unknown ones anywhere.
-/

namespace Olm

/-! ## Fields on the walk -/

/-- A well-formed field is a complete one. -/
def Field.wire (field : Field) : WireField where
  tag := Varint.encode field.tag
  number := field.number
  contents := field.contents
  tag_ends := Varint.ends_iff.mpr (Varint.encode_eq field.tag)
  wireType_eq := (congrArg (· % 8) (Varint.decode_encode field.tag)).trans field.wireType_eq
  encodes := field.encodes
  fits := field.body_fits

theorem wireBytes_wire (fields : List Field) :
    wireBytes (fields.map Field.wire) = payload fields := by
  rw [wireBytes, List.map_map, payload]
  rfl

/-- The tags of the formats are one byte. -/
theorem lastWire_wire {tag : UInt8} (hsmall : tag.toNat < 128) (fields : List Field) :
    lastWire tag (fields.map Field.wire) = lastOf tag.toNat fields := by
  have htag : ∀ field : Field, field.wire.tag = [tag] ↔ field.tag = tag.toNat :=
    fun field => Varint.encode_eq_singleton_iff hsmall field.tag
  have hfilter : (fields.map Field.wire).filter (fun field => field.tag = [tag]) =
      (fields.filter (fun field => field.tag = tag.toNat)).map Field.wire := by
    rw [List.filter_map]
    congr 2
    funext field
    exact decide_eq_decide.mpr (htag field)
  rw [lastWire, hfilter, List.getLast?_map, Option.map_map, lastOf]
  rfl

theorem lastOf_lt {tag : ℕ} {fields : List Field} {value : ℕ}
    (h : lastOf tag fields = some (.int value)) : value < 2 ^ 32 := by
  obtain ⟨field, hfield, hcontents⟩ := Option.map_eq_some_iff.mp h
  have hfits := field.fits
  rwa [hcontents] at hfits

/-- Each member has what the last field of its tag held. -/
theorem Format.Follows.reports {Reader : Type} {format : Format Reader} {buf : Bytes}
    {version : UInt8} {fields : List Field} {reader : Reader}
    (h : format.Follows buf version (walk (payload fields)) reader) {tag : UInt8} {member : Member}
    (hmember : (tag, member) ∈ format.members reader) (hsmall : tag.toNat < 128) :
    member.Reports buf (lastOf tag.toNat fields) := by
  have hwraps := h.wraps _ hmember
  rw [← wireBytes_wire, walk_wireBytes, lastIn_item, lastWire_wire hsmall] at hwraps
  exact (Format.reports_iff hwraps).mpr fun value hvalue => lastOf_lt hvalue

/-! ## The three decoders -/

section Decoders

variable {buf : Bytes}

/-- The tags of a message. -/
def messageTags : List ℕ := [RATCHET_KEY_TAG.toNat, COUNTER_TAG.toNat, CIPHERTEXT_TAG.toNat]

/-- What `decode_message` reports of some fields. -/
structure MessageReader.Reports (buf : Bytes) (version : UInt8) (fields : List Field)
    (reader : MessageReader) : Prop where
  version_eq : reader.version = version
  ratchetKey : reader.ratchetKey.Reports buf (lastOf RATCHET_KEY_TAG.toNat fields)
  counter : reader.counter.Reports (lastOf COUNTER_TAG.toNat fields)
  ciphertext : reader.ciphertext.Reports buf (lastOf CIPHERTEXT_TAG.toNat fields)

theorem MessageReader.Reports.congr {version : UInt8} {fields fields' : List Field}
    {reader : MessageReader} (hsame : ∀ tag ∈ messageTags, lastOf tag fields' = lastOf tag fields)
    (h : MessageReader.Reports buf version fields reader) :
    MessageReader.Reports buf version fields' reader where
  version_eq := h.version_eq
  ratchetKey := by rw [hsame _ (by decide)]; exact h.ratchetKey
  counter := by rw [hsame _ (by decide)]; exact h.counter
  ciphertext := by rw [hsame _ (by decide)]; exact h.ciphertext

theorem Format.Follows.messageReports {version : UInt8} {fields : List Field}
    {reader : MessageReader}
    (h : messageFormat.Follows buf version (walk (payload fields)) reader) :
    reader.Reports buf version fields where
  version_eq := h.version_eq
  ratchetKey := h.reports (.head _) (by decide)
  counter := (h.reports (.tail _ (.head _)) (by decide)).1
  ciphertext := h.reports (.tail _ (.tail _ (.head _))) (by decide)

/-- The tags of a pre-key message. -/
def preKeyMessageTags : List ℕ :=
  [PREKEY_ID_TAG.toNat, ONE_TIME_KEY_ID_TAG.toNat, BASE_KEY_TAG.toNat, IDENTITY_KEY_TAG.toNat,
    MESSAGE_TAG.toNat]

/-- What `decode_one_time_key_message` reports of some fields. -/
structure PreKeyMessageReader.Reports (buf : Bytes) (version : UInt8) (fields : List Field)
    (reader : PreKeyMessageReader) : Prop where
  version_eq : reader.version = version
  prekey : reader.prekey.Reports buf (lastOf PREKEY_ID_TAG.toNat fields)
  oneTimeKey : reader.oneTimeKey.Reports buf (lastOf ONE_TIME_KEY_ID_TAG.toNat fields)
  baseKey : reader.baseKey.Reports buf (lastOf BASE_KEY_TAG.toNat fields)
  identityKey : reader.identityKey.Reports buf (lastOf IDENTITY_KEY_TAG.toNat fields)
  message : reader.message.Reports buf (lastOf MESSAGE_TAG.toNat fields)

theorem PreKeyMessageReader.Reports.congr {version : UInt8} {fields fields' : List Field}
    {reader : PreKeyMessageReader}
    (hsame : ∀ tag ∈ preKeyMessageTags, lastOf tag fields' = lastOf tag fields)
    (h : PreKeyMessageReader.Reports buf version fields reader) :
    PreKeyMessageReader.Reports buf version fields' reader where
  version_eq := h.version_eq
  prekey := by rw [hsame _ (by decide)]; exact h.prekey
  oneTimeKey := by rw [hsame _ (by decide)]; exact h.oneTimeKey
  baseKey := by rw [hsame _ (by decide)]; exact h.baseKey
  identityKey := by rw [hsame _ (by decide)]; exact h.identityKey
  message := by rw [hsame _ (by decide)]; exact h.message

theorem Format.Follows.preKeyMessageReports {version : UInt8} {fields : List Field}
    {reader : PreKeyMessageReader}
    (h : preKeyMessageFormat.Follows buf version (walk (payload fields)) reader) :
    reader.Reports buf version fields where
  version_eq := h.version_eq
  prekey := h.reports (.head _) (by decide)
  oneTimeKey := h.reports (.tail _ (.head _)) (by decide)
  baseKey := h.reports (.tail _ (.tail _ (.head _))) (by decide)
  identityKey := h.reports (.tail _ (.tail _ (.tail _ (.head _)))) (by decide)
  message := h.reports (.tail _ (.tail _ (.tail _ (.tail _ (.head _))))) (by decide)

/-- The tags of a group message. -/
def groupMessageTags : List ℕ := [GROUP_MESSAGE_INDEX_TAG.toNat, GROUP_CIPHERTEXT_TAG.toNat]

/-- What `_olm_decode_group_message` reports of some fields. -/
structure GroupMessageReader.Reports (buf : Bytes) (version : UInt8) (fields : List Field)
    (reader : GroupMessageReader) : Prop where
  version_eq : reader.version = version
  messageIndex : reader.messageIndex.Reports (lastOf GROUP_MESSAGE_INDEX_TAG.toNat fields)
  ciphertext : reader.ciphertext.Reports buf (lastOf GROUP_CIPHERTEXT_TAG.toNat fields)

theorem GroupMessageReader.Reports.congr {version : UInt8} {fields fields' : List Field}
    {reader : GroupMessageReader}
    (hsame : ∀ tag ∈ groupMessageTags, lastOf tag fields' = lastOf tag fields)
    (h : GroupMessageReader.Reports buf version fields reader) :
    GroupMessageReader.Reports buf version fields' reader where
  version_eq := h.version_eq
  messageIndex := by rw [hsame _ (by decide)]; exact h.messageIndex
  ciphertext := by rw [hsame _ (by decide)]; exact h.ciphertext

theorem Format.Follows.groupMessageReports {version : UInt8} {fields : List Field}
    {reader : GroupMessageReader}
    (h : groupMessageFormat.Follows buf version (walk (payload fields)) reader) :
    reader.Reports buf version fields where
  version_eq := h.version_eq
  messageIndex := (h.reports (.head _) (by decide)).1
  ciphertext := h.reports (.tail _ (.head _)) (by decide)

end Decoders

/-! ## Payloads that say the same -/

/-- One payload comes from another by exchanging fields of different tags and
by putting unknown fields in. -/
inductive Rearranged (tags : List ℕ) : List Field → List Field → Prop
  | refl (fields : List Field) : Rearranged tags fields fields
  | trans {fields₁ fields₂ fields₃ : List Field} : Rearranged tags fields₁ fields₂ →
      Rearranged tags fields₂ fields₃ → Rearranged tags fields₁ fields₃
  | swap (front : List Field) (a b : Field) (back : List Field) : a.tag ≠ b.tag →
      Rearranged tags (front ++ a :: b :: back) (front ++ b :: a :: back)
  | insert (front : List Field) (a : Field) (back : List Field) : a.tag ∉ tags →
      Rearranged tags (front ++ back) (front ++ a :: back)

/-- The last fields are the same. -/
theorem Rearranged.lastOf_eq {tags : List ℕ} {fields fields' : List Field}
    (h : Rearranged tags fields fields') {tag : ℕ} (htag : tag ∈ tags) :
    lastOf tag fields' = lastOf tag fields := by
  induction h with
  | refl => rfl
  | trans _ _ ih₁ ih₂ => exact ih₂.trans ih₁
  | swap front a b back hne =>
    have hswap : (b :: a :: back).filter (fun field => field.tag = tag) =
        (a :: b :: back).filter (fun field => field.tag = tag) := by
      by_cases ha : a.tag = tag
      · have hb : b.tag ≠ tag := fun hb => hne (ha.trans hb.symm)
        simp [ha, hb]
      · simp [List.filter_cons, ha]
    rw [lastOf, lastOf, List.filter_append, List.filter_append, hswap]
  | insert front a back hnot =>
    have ha : a.tag ≠ tag := fun ha => hnot (ha ▸ htag)
    simp [lastOf, List.filter_append, ha]

/-! ## Messages of fields -/

section Messages

variable (version : UInt8) (fields : List Field) (pre trailer post : Bytes)

/-- A version, fields and a trailer. -/
def fieldsMessage : Bytes := version :: (payload fields ++ trailer)

theorem payloadOf_fieldsMessage :
    payloadOf (fieldsMessage version fields trailer) trailer.length = payload fields := by
  have hlength : (fieldsMessage version fields trailer).length - trailer.length =
      (payload fields).length + 1 := by
    rw [fieldsMessage, List.length_cons, List.length_append]
    omega
  rw [payloadOf, hlength, fieldsMessage, List.take_succ_cons, List.take_left, List.drop_succ_cons,
    List.drop_zero]

theorem versionOf_fieldsMessage :
    versionOf (fieldsMessage version fields trailer) trailer.length = version := by
  have hlength : (fieldsMessage version fields trailer).length - trailer.length =
      (payload fields).length + 1 := by
    rw [fieldsMessage, List.length_cons, List.length_append]
    omega
  rw [versionOf, hlength, fieldsMessage, List.take_succ_cons, List.headD_cons]

theorem decodeMessage_fields :
    ∃ reader, decodeMessage (pre ++ (fieldsMessage version fields trailer ++ post)) pre.length
        (fieldsMessage version fields trailer).length trailer.length = .ok reader ∧
      reader.Reports (pre ++ (fieldsMessage version fields trailer ++ post)) version fields := by
  obtain ⟨reader, hdecode, hfollows⟩ :=
    decodeMessage_walk pre (fieldsMessage version fields trailer) post trailer.length
  rw [payloadOf_fieldsMessage, versionOf_fieldsMessage] at hfollows
  exact ⟨reader, hdecode, hfollows.messageReports⟩

theorem decodeOneTimeKeyMessage_fields :
    ∃ reader, decodeOneTimeKeyMessage (pre ++ (fieldsMessage version fields [] ++ post)) pre.length
        (fieldsMessage version fields []).length = .ok reader ∧
      reader.Reports (pre ++ (fieldsMessage version fields [] ++ post)) version fields := by
  obtain ⟨reader, hdecode, hfollows⟩ :=
    decodeOneTimeKeyMessage_walk pre (fieldsMessage version fields []) post
  have hpayload := payloadOf_fieldsMessage version fields []
  have hversion := versionOf_fieldsMessage version fields []
  rw [List.length_nil] at hpayload hversion
  rw [hpayload, hversion] at hfollows
  exact ⟨reader, hdecode, hfollows.preKeyMessageReports⟩

theorem decodeGroupMessage_fields {macLength signatureLength : ℕ}
    (htrailer : macLength + signatureLength = trailer.length) :
    ∃ reader, decodeGroupMessage (fieldsMessage version fields trailer ++ post)
        (fieldsMessage version fields trailer).length macLength signatureLength = .ok reader ∧
      reader.Reports (fieldsMessage version fields trailer ++ post) version fields := by
  obtain ⟨reader, hdecode, hfollows⟩ := decodeGroupMessage_walk
    (fieldsMessage version fields trailer) post macLength signatureLength
  rw [htrailer, payloadOf_fieldsMessage, versionOf_fieldsMessage] at hfollows
  exact ⟨reader, hdecode, hfollows.groupMessageReports⟩

end Messages

/-- **The decoders report the last field of each tag they know**, of any
payload of fields, and no field where there is none. A payload whose fields
were exchanged across tags, with unknown fields put in anywhere, is
reported as the one it was made from. -/
theorem decoders_report_last (version : UInt8) (fields fields' : List Field)
    (pre trailer post : Bytes) :
    (Rearranged messageTags fields fields' →
      ∃ reader, decodeMessage (pre ++ (fieldsMessage version fields' trailer ++ post)) pre.length
          (fieldsMessage version fields' trailer).length trailer.length = .ok reader ∧
        reader.Reports (pre ++ (fieldsMessage version fields' trailer ++ post)) version fields) ∧
    (Rearranged preKeyMessageTags fields fields' →
      ∃ reader, decodeOneTimeKeyMessage (pre ++ (fieldsMessage version fields' [] ++ post))
          pre.length (fieldsMessage version fields' []).length = .ok reader ∧
        reader.Reports (pre ++ (fieldsMessage version fields' [] ++ post)) version fields) ∧
    (Rearranged groupMessageTags fields fields' →
      ∀ macLength signatureLength, macLength + signatureLength = trailer.length →
      ∃ reader, decodeGroupMessage (fieldsMessage version fields' trailer ++ post)
          (fieldsMessage version fields' trailer).length macLength signatureLength = .ok reader ∧
        reader.Reports (fieldsMessage version fields' trailer ++ post) version fields) := by
  refine ⟨fun h => ?_, fun h => ?_, fun h macLength signatureLength htrailer => ?_⟩
  · obtain ⟨reader, hreader, hreports⟩ := decodeMessage_fields version fields' pre trailer post
    exact ⟨reader, hreader, hreports.congr fun tag htag => (h.lastOf_eq htag).symm⟩
  · obtain ⟨reader, hreader, hreports⟩ := decodeOneTimeKeyMessage_fields version fields' pre post
    exact ⟨reader, hreader, hreports.congr fun tag htag => (h.lastOf_eq htag).symm⟩
  · obtain ⟨reader, hreader, hreports⟩ :=
      decodeGroupMessage_fields version fields' trailer post htrailer
    exact ⟨reader, hreader, hreports.congr fun tag htag => (h.lastOf_eq htag).symm⟩

/-- The fields of a message with an unknown one, of a tag of two bytes and
with bytes inside that look like a counter. -/
def Field.counter : Field where
  tag := COUNTER_TAG.toNat
  contents := .int 1
  number := [1]
  wireType_eq := rfl
  encodes := ⟨⟨[], 1, rfl, nofun, by decide⟩, rfl⟩
  fits := by decide

def Field.ratchetKey : Field where
  tag := RATCHET_KEY_TAG.toNat
  contents := .string [65, 66]
  number := [0x82, 0]
  wireType_eq := rfl
  encodes := ⟨⟨[0x82], 0, rfl, List.forall_mem_singleton.mpr (by decide), by decide⟩, by decide⟩
  fits := by decide

def Field.unknown : Field where
  tag := 1602
  contents := .string [COUNTER_TAG, 5]
  number := [2]
  wireType_eq := rfl
  encodes := ⟨⟨[], 2, rfl, nofun, by decide⟩, rfl⟩
  fits := by decide

/-- The ratchet key and the counter exchanged, with the unknown field between
them. -/
theorem decoders_report_last_exchanged : ∃ reader,
    decodeMessage (fieldsMessage 3 [Field.counter, Field.unknown, Field.ratchetKey] [0, 0]) 0
        (fieldsMessage 3 [Field.counter, Field.unknown, Field.ratchetKey] [0, 0]).length 2 =
      .ok reader ∧
    reader.Reports (fieldsMessage 3 [Field.counter, Field.unknown, Field.ratchetKey] [0, 0]) 3
      [Field.ratchetKey, Field.counter] := by
  have hrearranged : Rearranged messageTags [Field.ratchetKey, Field.counter]
      [Field.counter, Field.unknown, Field.ratchetKey] :=
    .trans (.swap [] Field.ratchetKey Field.counter [] (by decide))
      (.insert [Field.counter] Field.unknown [Field.ratchetKey] (by decide))
  have hreports := (decoders_report_last 3 _ _ [] [0, 0] []).1 hrearranged
  rwa [List.append_nil] at hreports

end Olm
