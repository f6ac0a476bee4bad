import Olm.Message.Walk

/-!
# What the decoders report of any bytes

Each member of a reader has what the last item of its tag held, and is absent
where there is none: so it is after each round of `decode` calls (`Keeps`),
after the loop (`decodeFields_walk`), and for each of the three decoders.
-/

namespace Olm

/-! ## Readers -/

/-- What the last item of a tag says. -/
def lastIn (tag : UInt8) (items : List Item) : Option Contents :=
  (items.filterMap (Item.contentsOf tag)).getLast?

@[simp] theorem lastIn_nil (tag : UInt8) : lastIn tag [] = none := rfl

theorem lastIn_append_of_none {tag : UInt8} {items : List Item} (seen : List Item)
    (h : ∀ item ∈ items, item.contentsOf tag = none) :
    lastIn tag (seen ++ items) = lastIn tag seen := by
  have hnone : items.filterMap (Item.contentsOf tag) = [] := List.filterMap_eq_nil_iff.mpr h
  rw [lastIn, List.filterMap_append, hnone, List.append_nil, lastIn]

theorem lastIn_concat {tag : UInt8} {item : Item} {contents : Contents} (seen : List Item)
    (h : item.contentsOf tag = some contents) : lastIn tag (seen ++ [item]) = some contents := by
  simp [lastIn, List.filterMap_append, h]

/-- An integer is reported modulo `2 ^ 32`. -/
def IntField.Wraps (field : IntField) : Option Contents → Prop
  | none => field = .absent
  | some (.int value) => field = { value := value % 2 ^ 32, hasValue := true }
  | some (.string _) => False

/-- What a reader has under a tag. -/
inductive Member where
  | int (field : IntField)
  | string (field : StringField)

namespace Member

/-- `has_value`, or a pointer that is not null. -/
def has : Member → Bool
  | int field => field.hasValue
  | string field => field.value.isSome

/-- The member has what an item held, an integer modulo `2 ^ 32`. -/
def Wraps (buf : Bytes) : Member → Option Contents → Prop
  | int field => field.Wraps
  | string field => field.Reports buf

end Member

/-- A reader: its version, and its members under their tags. -/
structure Format (Reader : Type) where
  tags : List UInt8
  version : Reader → UInt8
  members : Reader → List (UInt8 × Member)
  tags_eq : ∀ reader, (members reader).map Prod.fst = tags

/-- The reader reports the last item of each tag. -/
structure Format.Follows {Reader : Type} (format : Format Reader) (buf : Bytes) (version : UInt8)
    (items : List Item) (reader : Reader) : Prop where
  version_eq : format.version reader = version
  wraps : ∀ member ∈ format.members reader, member.2.Wraps buf (lastIn member.1 items)

section Readers

variable {Reader : Type} {format : Format Reader} {buf trailer : Bytes} {end_ : ℕ}
  {version : UInt8} {seen : List Item} {item : Item} {reader reader' : Reader} {tag : UInt8}

/-- An item of none of the tags changes nothing. -/
theorem Format.Follows.pass (h : format.Follows buf version seen reader)
    (hnone : ∀ tag ∈ format.tags, item.contentsOf tag = none) :
    format.Follows buf version (seen ++ [item]) reader where
  version_eq := h.version_eq
  wraps := by
    intro member hmember
    have htag : member.1 ∈ format.tags := by
      rw [← format.tags_eq reader]
      exact List.mem_map_of_mem hmember
    rw [lastIn_append_of_none seen (List.forall_mem_singleton.mpr (hnone _ htag))]
    exact h.wraps member hmember

/-- An item of one tag changes the member of this tag. -/
theorem Format.Follows.change {changed : Member} (h : format.Follows buf version seen reader)
    (hversion : format.version reader' = format.version reader)
    (hput : ∀ member ∈ format.members reader',
      member = (tag, changed) ∨ member.1 ≠ tag ∧ member ∈ format.members reader)
    (hothers : ∀ tag' ≠ tag, item.contentsOf tag' = none)
    (hchanged : changed.Wraps buf (lastIn tag (seen ++ [item]))) :
    format.Follows buf version (seen ++ [item]) reader' where
  version_eq := hversion.trans h.version_eq
  wraps := by
    intro member hmember
    obtain rfl | ⟨hne, hold⟩ := hput member hmember
    · exact hchanged
    · rw [lastIn_append_of_none seen (List.forall_mem_singleton.mpr (hothers _ hne))]
      exact h.wraps member hold

end Readers

/-! ## A round of calls -/

/-- Some calls of `decode` go through these items. Where they do not move, the
next byte is none of their tags. -/
structure Takes (tags : List UInt8) (bytes : Bytes) (items : List Item) (rest : Bytes) : Prop where
  walk_eq : walk bytes = items ++ walk rest
  moves : rest = bytes ∧ (∀ tag ∈ tags, bytes.head? ≠ some tag) ∨ rest.length < bytes.length

/-- The calls of these tags go through the next items, and the reader follows. -/
structure Keeps {Reader : Type} (format : Format Reader) (buf trailer : Bytes) (end_ : ℕ)
    (tags : List UInt8) (calls : ℕ → Reader → Checked (ℕ × Reader)) : Prop where
  round : ∀ {pos bytes version seen reader}, BytesLeft buf end_ trailer bytes pos →
    format.Follows buf version seen reader →
    ∃ items rest pos' reader', Takes tags bytes items rest ∧
      calls pos reader = .ok (pos', reader') ∧ BytesLeft buf end_ trailer rest pos' ∧
      format.Follows buf version (seen ++ items) reader'

section Rounds

variable {Reader : Type} {format : Format Reader} {buf trailer bytes rest rest' : Bytes} {end_ : ℕ}
  {tags tags' : List UInt8} {items items' : List Item}
  {calls calls' : ℕ → Reader → Checked (ℕ × Reader)} {tag : UInt8}

theorem Takes.append (h : Takes tags bytes items rest) (h' : Takes tags' rest items' rest') :
    Takes (tags ++ tags') bytes (items ++ items') rest' where
  walk_eq := by rw [h.walk_eq, h'.walk_eq, List.append_assoc]
  moves := by
    obtain ⟨rfl, htags⟩ | hlt := h.moves
    · obtain ⟨rfl, htags'⟩ | hlt' := h'.moves
      · exact .inl ⟨rfl, List.forall_mem_append.mpr ⟨htags, htags'⟩⟩
      · exact .inr hlt'
    · obtain ⟨rfl, -⟩ | hlt' := h'.moves
      · exact .inr hlt
      · exact .inr (hlt'.trans hlt)

/-- One call after another. -/
theorem Keeps.andThen (h : Keeps format buf trailer end_ tags calls)
    (h' : Keeps format buf trailer end_ tags' calls') :
    Keeps format buf trailer end_ (tags ++ tags') (fun pos reader => do
      let (pos, reader) ← calls pos reader
      calls' pos reader) where
  round := by
    intro pos bytes version seen reader hleft hfollows
    obtain ⟨items₁, rest₁, pos₁, reader₁, htakes₁, hcalls₁, hleft₁, hfollows₁⟩ :=
      h.round hleft hfollows
    obtain ⟨items₂, rest₂, pos₂, reader₂, htakes₂, hcalls₂, hleft₂, hfollows₂⟩ :=
      h'.round hleft₁ hfollows₁
    refine ⟨items₁ ++ items₂, rest₂, pos₂, reader₂, htakes₁.append htakes₂, ?_, hleft₂, ?_⟩
    · simp only [hcalls₁, Checked.ok_bind, hcalls₂]
    · rwa [← List.append_assoc]

/-- One call, which takes an item if it is at its tag. -/
theorem keeps_of_item
    (haway : ∀ {pos bytes reader}, BytesLeft buf end_ trailer bytes pos →
      bytes.head? ≠ some tag → calls pos reader = .ok (pos, reader))
    (hitem : ∀ {pos bytes version seen reader}, BytesLeft buf end_ trailer (tag :: bytes) pos →
      format.Follows buf version seen reader →
      ∃ item rest pos' reader', nextItem (tag :: bytes) = some (item, rest) ∧
        calls pos reader = .ok (pos', reader') ∧ BytesLeft buf end_ trailer rest pos' ∧
        format.Follows buf version (seen ++ [item]) reader') :
    Keeps format buf trailer end_ [tag] calls where
  round := by
    intro pos bytes version seen reader hleft hfollows
    by_cases hhead : bytes.head? = some tag
    · obtain ⟨bytes, rfl⟩ := List.head?_eq_some_iff.mp hhead
      obtain ⟨item, rest, pos', reader', hnext, hcalls, hleft', hfollows'⟩ := hitem hleft hfollows
      have htakes : Takes [tag] (tag :: bytes) [item] rest :=
        ⟨walk_of_nextItem hnext, .inr (length_lt_of_nextItem hnext)⟩
      exact ⟨[item], rest, pos', reader', htakes, hcalls, hleft', hfollows'⟩
    · have htakes : Takes [tag] bytes [] bytes :=
        ⟨rfl, .inl ⟨rfl, List.forall_mem_singleton.mpr hhead⟩⟩
      refine ⟨[], bytes, pos, reader, htakes, haway hleft hhead, hleft, ?_⟩
      rwa [List.append_nil]

/-- **`decode` of an integer** keeps the reader at the walk. -/
theorem keeps_int (get : Reader → IntField) (put : Reader → IntField → Reader)
    (hsmall : tag.toNat < 128) (hwire : tag.toNat % 8 = 0)
    (hget : ∀ reader, put reader (get reader) = reader)
    (hversion : ∀ reader field, format.version (put reader field) = format.version reader)
    (hput : ∀ reader field, ∀ member ∈ format.members (put reader field),
      member = (tag, .int field) ∨ member.1 ≠ tag ∧ member ∈ format.members reader) :
    Keeps format buf trailer end_ [tag] (fun pos reader => do
      let (pos, field) ← decodeInt buf end_ tag pos (get reader)
      .ok (pos, put reader field)) := by
  refine keeps_of_item ?_ ?_
  · intro pos bytes reader hleft hhead
    have hat : (bytes.head? == some tag) = false := beq_false_of_ne hhead
    simp [decodeInt, hleft.atTag_eq, hat, hget]
  · intro pos bytes version seen reader hleft hfollows
    obtain ⟨number, rest, pos', hnext, hdecode, hleft'⟩ :=
      decodeInt_item hleft hsmall hwire (get reader)
    refine ⟨_, rest, pos', _, hnext, by rw [hdecode, Checked.ok_bind], hleft', ?_⟩
    refine hfollows.change (hversion _ _) (hput _ _) (fun tag' hne => contentsOf_of_ne hne hnext) ?_
    have hnumber : (Item.int [tag] number).contentsOf tag = some (.int (Varint.decode number)) :=
      if_pos rfl
    rw [lastIn_concat seen hnumber]
    rfl

/-- **`decode` of a string** does too. -/
theorem keeps_string (get : Reader → StringField) (put : Reader → StringField → Reader)
    (hsmall : tag.toNat < 128) (hwire : tag.toNat % 8 = 2)
    (hget : ∀ reader, put reader (get reader) = reader)
    (hmember : ∀ reader, (tag, .string (get reader)) ∈ format.members reader)
    (hversion : ∀ reader field, format.version (put reader field) = format.version reader)
    (hput : ∀ reader field, ∀ member ∈ format.members (put reader field),
      member = (tag, .string field) ∨ member.1 ≠ tag ∧ member ∈ format.members reader) :
    Keeps format buf trailer end_ [tag] (fun pos reader => do
      let (pos, field) ← decodeString buf end_ tag pos (get reader)
      .ok (pos, put reader field)) := by
  refine keeps_of_item ?_ ?_
  · intro pos bytes reader hleft hhead
    have hat : (bytes.head? == some tag) = false := beq_false_of_ne hhead
    simp [decodeString, hleft.atTag_eq, hat, hget]
  · intro pos bytes version seen reader hleft hfollows
    obtain ⟨item, rest, pos', field', hnext, hdecode, hleft', hfield⟩ :=
      decodeString_item hleft hsmall hwire (get reader)
    refine ⟨item, rest, pos', _, hnext, by rw [hdecode, Checked.ok_bind], hleft', ?_⟩
    refine hfollows.change (hversion _ _) (hput _ _) (fun tag' hne => contentsOf_of_ne hne hnext) ?_
    obtain ⟨hnone, rfl⟩ | ⟨body, hbody, hreads⟩ := hfield
    · rw [lastIn_append_of_none seen (List.forall_mem_singleton.mpr hnone)]
      exact hfollows.wraps _ (hmember reader)
    · rw [lastIn_concat seen hbody]
      exact hreads

/-- **The loop of a decoder walks through what is left.** -/
theorem decodeFields_walk (h : Keeps format buf trailer end_ format.tags calls) {fuel pos : ℕ}
    {version : UInt8} {seen : List Item} {reader : Reader}
    (hleft : BytesLeft buf end_ trailer bytes pos) (hfuel : bytes.length ≤ fuel)
    (hfollows : format.Follows buf version seen reader) :
    ∃ reader', decodeFields buf end_ calls fuel pos reader = .ok reader' ∧
      format.Follows buf version (seen ++ walk bytes) reader' := by
  induction fuel generalizing pos bytes seen reader with
  | zero =>
    obtain rfl := List.eq_nil_of_length_eq_zero (Nat.le_zero.mp hfuel)
    have hend : pos = end_ := hleft.end_eq
    refine ⟨reader, by rw [decodeFields, if_pos hend], ?_⟩
    rwa [walk_nil, List.append_nil]
  | succ fuel ih =>
    have hend := hleft.end_eq
    rw [decodeFields]
    by_cases hnil : pos = end_
    · obtain rfl : bytes = [] := List.eq_nil_of_length_eq_zero (by omega)
      refine ⟨reader, if_pos hnil, ?_⟩
      rwa [walk_nil, List.append_nil]
    · rw [if_neg hnil]
      obtain ⟨items, rest, pos', reader', htakes, hcalls, hleft', hfollows'⟩ :=
        h.round hleft hfollows
      have hend' := hleft'.end_eq
      simp only [hcalls, Checked.ok_bind]
      rw [htakes.walk_eq, ← List.append_assoc]
      obtain ⟨rfl, htags⟩ | hlt := htakes.moves
      · -- no call moved: the next item has none of the tags
        rw [if_pos (by omega)]
        cases rest with
        | nil => exact absurd hend hnil
        | cons b more =>
          obtain ⟨item, rest, hnext⟩ := exists_nextItem b more
          obtain ⟨pos₂, hskip, hleft₂⟩ := skipUnknown_item hleft' hnext
          have hlt := length_lt_of_nextItem hnext
          have hnone : ∀ tag ∈ format.tags, item.contentsOf tag = none := by
            intro tag htag
            have hne : tag ≠ b := fun heq => htags tag htag (congrArg some heq.symm)
            exact contentsOf_of_ne hne hnext
          rw [hskip, Checked.ok_bind, walk_of_nextItem hnext, List.append_cons]
          exact ih hleft₂ (by omega) (hfollows'.pass hnone)
      · rw [if_neg (by omega)]
        exact ih hleft' (by omega) hfollows'

end Rounds

/-! ## The three formats -/

/-- What a message reader has. -/
def messageFormat : Format MessageReader where
  tags := [RATCHET_KEY_TAG, COUNTER_TAG, CIPHERTEXT_TAG]
  version := MessageReader.version
  members reader := [(RATCHET_KEY_TAG, .string reader.ratchetKey),
    (COUNTER_TAG, .int reader.counter), (CIPHERTEXT_TAG, .string reader.ciphertext)]
  tags_eq _ := rfl

/-- What a pre-key message reader has. -/
def preKeyMessageFormat : Format PreKeyMessageReader where
  tags := [PREKEY_ID_TAG, ONE_TIME_KEY_ID_TAG, BASE_KEY_TAG, IDENTITY_KEY_TAG, MESSAGE_TAG]
  version := PreKeyMessageReader.version
  members reader := [(PREKEY_ID_TAG, .string reader.prekey),
    (ONE_TIME_KEY_ID_TAG, .string reader.oneTimeKey), (BASE_KEY_TAG, .string reader.baseKey),
    (IDENTITY_KEY_TAG, .string reader.identityKey), (MESSAGE_TAG, .string reader.message)]
  tags_eq _ := rfl

/-- What a group message reader has. -/
def groupMessageFormat : Format GroupMessageReader where
  tags := [GROUP_MESSAGE_INDEX_TAG, GROUP_CIPHERTEXT_TAG]
  version := GroupMessageReader.version
  members reader := [(GROUP_MESSAGE_INDEX_TAG, .int reader.messageIndex),
    (GROUP_CIPHERTEXT_TAG, .string reader.ciphertext)]
  tags_eq _ := rfl

section Formats

variable {buf trailer : Bytes} {end_ : ℕ}

/-- Nothing has been reported at first. -/
theorem messageFormat_initial (version : UInt8) (input inputLength : ℕ) :
    messageFormat.Follows buf version []
      { MessageReader.initial input inputLength with version := version } where
  version_eq := rfl
  wraps := by
    simp [messageFormat, MessageReader.initial, Member.Wraps, StringField.Reports, IntField.Wraps]

theorem messageFields_keeps :
    Keeps messageFormat buf trailer end_ messageFormat.tags (messageFields buf end_) := by
  have hratchetKey : Keeps messageFormat buf trailer end_ [RATCHET_KEY_TAG] _ :=
    keeps_string MessageReader.ratchetKey (fun reader field => { reader with ratchetKey := field })
      (by decide) (by decide) (fun _ => rfl) (fun _ => by simp [messageFormat]) (fun _ _ => rfl)
      (fun _ _ => by simp [messageFormat, RATCHET_KEY_TAG, COUNTER_TAG, CIPHERTEXT_TAG])
  have hcounter : Keeps messageFormat buf trailer end_ [COUNTER_TAG] _ :=
    keeps_int MessageReader.counter (fun reader field => { reader with counter := field })
      (by decide) (by decide) (fun _ => rfl) (fun _ _ => rfl)
      (fun _ _ => by simp [messageFormat, RATCHET_KEY_TAG, COUNTER_TAG, CIPHERTEXT_TAG])
  have hciphertext : Keeps messageFormat buf trailer end_ [CIPHERTEXT_TAG] _ :=
    keeps_string MessageReader.ciphertext (fun reader field => { reader with ciphertext := field })
      (by decide) (by decide) (fun _ => rfl) (fun _ => by simp [messageFormat]) (fun _ _ => rfl)
      (fun _ _ => by simp [messageFormat, RATCHET_KEY_TAG, COUNTER_TAG, CIPHERTEXT_TAG])
  have hall := hratchetKey.andThen (hcounter.andThen hciphertext)
  simp only [bind_assoc, Checked.ok_bind] at hall
  exact hall

/-- Nothing has been reported at first. -/
theorem preKeyMessageFormat_initial (version : UInt8) :
    preKeyMessageFormat.Follows buf version []
      { PreKeyMessageReader.initial with version := version } where
  version_eq := rfl
  wraps := by
    simp [preKeyMessageFormat, PreKeyMessageReader.initial, Member.Wraps, StringField.Reports]

theorem preKeyMessageFields_keeps :
    Keeps preKeyMessageFormat buf trailer end_ preKeyMessageFormat.tags
      (preKeyMessageFields buf end_) := by
  have hprekey : Keeps preKeyMessageFormat buf trailer end_ [PREKEY_ID_TAG] _ :=
    keeps_string PreKeyMessageReader.prekey (fun reader field => { reader with prekey := field })
      (by decide) (by decide) (fun _ => rfl) (fun _ => by simp [preKeyMessageFormat])
      (fun _ _ => rfl) (fun _ _ => by simp [preKeyMessageFormat, PREKEY_ID_TAG, ONE_TIME_KEY_ID_TAG,
        BASE_KEY_TAG, IDENTITY_KEY_TAG, MESSAGE_TAG])
  have honeTimeKey : Keeps preKeyMessageFormat buf trailer end_ [ONE_TIME_KEY_ID_TAG] _ :=
    keeps_string PreKeyMessageReader.oneTimeKey
      (fun reader field => { reader with oneTimeKey := field })
      (by decide) (by decide) (fun _ => rfl) (fun _ => by simp [preKeyMessageFormat])
      (fun _ _ => rfl) (fun _ _ => by simp [preKeyMessageFormat, PREKEY_ID_TAG, ONE_TIME_KEY_ID_TAG,
        BASE_KEY_TAG, IDENTITY_KEY_TAG, MESSAGE_TAG])
  have hbaseKey : Keeps preKeyMessageFormat buf trailer end_ [BASE_KEY_TAG] _ :=
    keeps_string PreKeyMessageReader.baseKey (fun reader field => { reader with baseKey := field })
      (by decide) (by decide) (fun _ => rfl) (fun _ => by simp [preKeyMessageFormat])
      (fun _ _ => rfl) (fun _ _ => by simp [preKeyMessageFormat, PREKEY_ID_TAG, ONE_TIME_KEY_ID_TAG,
        BASE_KEY_TAG, IDENTITY_KEY_TAG, MESSAGE_TAG])
  have hidentityKey : Keeps preKeyMessageFormat buf trailer end_ [IDENTITY_KEY_TAG] _ :=
    keeps_string PreKeyMessageReader.identityKey
      (fun reader field => { reader with identityKey := field })
      (by decide) (by decide) (fun _ => rfl) (fun _ => by simp [preKeyMessageFormat])
      (fun _ _ => rfl) (fun _ _ => by simp [preKeyMessageFormat, PREKEY_ID_TAG, ONE_TIME_KEY_ID_TAG,
        BASE_KEY_TAG, IDENTITY_KEY_TAG, MESSAGE_TAG])
  have hmessage : Keeps preKeyMessageFormat buf trailer end_ [MESSAGE_TAG] _ :=
    keeps_string PreKeyMessageReader.message (fun reader field => { reader with message := field })
      (by decide) (by decide) (fun _ => rfl) (fun _ => by simp [preKeyMessageFormat])
      (fun _ _ => rfl) (fun _ _ => by simp [preKeyMessageFormat, PREKEY_ID_TAG, ONE_TIME_KEY_ID_TAG,
        BASE_KEY_TAG, IDENTITY_KEY_TAG, MESSAGE_TAG])
  have hall := hprekey.andThen (honeTimeKey.andThen (hbaseKey.andThen
    (hidentityKey.andThen hmessage)))
  simp only [bind_assoc, Checked.ok_bind] at hall
  exact hall

/-- Nothing has been reported at first. -/
theorem groupMessageFormat_initial (version : UInt8) :
    groupMessageFormat.Follows buf version []
      { GroupMessageReader.initial with version := version } where
  version_eq := rfl
  wraps := by
    simp [groupMessageFormat, GroupMessageReader.initial, Member.Wraps, StringField.Reports,
      IntField.Wraps]

theorem groupMessageFields_keeps :
    Keeps groupMessageFormat buf trailer end_ groupMessageFormat.tags
      (groupMessageFields buf end_) := by
  have hmessageIndex : Keeps groupMessageFormat buf trailer end_ [GROUP_MESSAGE_INDEX_TAG] _ :=
    keeps_int GroupMessageReader.messageIndex
      (fun reader field => { reader with messageIndex := field })
      (by decide) (by decide) (fun _ => rfl) (fun _ _ => rfl)
      (fun _ _ => by simp [groupMessageFormat, GROUP_MESSAGE_INDEX_TAG, GROUP_CIPHERTEXT_TAG])
  have hciphertext : Keeps groupMessageFormat buf trailer end_ [GROUP_CIPHERTEXT_TAG] _ :=
    keeps_string GroupMessageReader.ciphertext
      (fun reader field => { reader with ciphertext := field })
      (by decide) (by decide) (fun _ => rfl) (fun _ => by simp [groupMessageFormat])
      (fun _ _ => rfl)
      (fun _ _ => by simp [groupMessageFormat, GROUP_MESSAGE_INDEX_TAG, GROUP_CIPHERTEXT_TAG])
  have hall := hmessageIndex.andThen hciphertext
  simp only [bind_assoc, Checked.ok_bind] at hall
  exact hall

end Formats

/-! ## The three decoders -/

/-- The version byte of a message, and 0 where there is only a trailer. -/
def versionOf (message : Bytes) (trailerLength : ℕ) : UInt8 :=
  (message.take (message.length - trailerLength)).headD 0

/-- The bytes between the version byte and the trailer. -/
def payloadOf (message : Bytes) (trailerLength : ℕ) : Bytes :=
  (message.take (message.length - trailerLength)).drop 1

/-- A message is no longer than its trailer, or has a version and a payload in
front of it. -/
theorem message_cases (message : Bytes) (trailerLength : ℕ) :
    (message.length ≤ trailerLength ∧ versionOf message trailerLength = 0 ∧
      payloadOf message trailerLength = []) ∨
    ∃ trailer, trailer.length = trailerLength ∧ message =
      versionOf message trailerLength :: (payloadOf message trailerLength ++ trailer) := by
  by_cases hle : message.length ≤ trailerLength
  · have hzero : message.length - trailerLength = 0 := by omega
    exact .inl ⟨hle, by rw [versionOf, hzero]; rfl, by rw [payloadOf, hzero]; rfl⟩
  · refine .inr ⟨message.drop (message.length - trailerLength), ?_, ?_⟩
    · rw [List.length_drop]
      omega
    · obtain ⟨n, hn⟩ : ∃ n, message.length - trailerLength = n + 1 :=
        ⟨message.length - trailerLength - 1, by omega⟩
      cases message with
      | nil => exact absurd (Nat.zero_le _) hle
      | cons version bytes =>
        rw [versionOf, payloadOf, hn, List.take_succ_cons, List.drop_succ_cons, List.headD_cons,
          List.drop_succ_cons, List.drop_zero, List.take_append_drop]

section Decoders

variable (pre message post : Bytes) (macLength : ℕ)

theorem bytesLeft_payload (version : UInt8) (payload trailer : Bytes) {end_ : ℕ}
    (hend : end_ = pre.length + 1 + payload.length) :
    BytesLeft (pre ++ (version :: (payload ++ trailer) ++ post)) end_ (trailer ++ post) payload
      (pre.length + 1) := by
  constructor
  · rw [← List.drop_drop, List.drop_left, List.cons_append, List.drop_succ_cons, List.drop_zero,
      List.append_assoc]
  · exact hend.symm

theorem readByte_version (version : UInt8) (payload trailer : Bytes) :
    readByte (pre ++ (version :: (payload ++ trailer) ++ post)) pre.length = .ok version :=
  readByte_of_drop_eq_cons (by rw [List.drop_left, List.cons_append])

/-- **`decode_message` of any bytes.** -/
theorem decodeMessage_walk :
    ∃ reader, decodeMessage (pre ++ (message ++ post)) pre.length message.length macLength =
        .ok reader ∧
      messageFormat.Follows (pre ++ (message ++ post)) (versionOf message macLength)
        (walk (payloadOf message macLength)) reader := by
  obtain ⟨hle, hversion, hpayload⟩ | ⟨trailer, htrailer, hmessage⟩ :=
    message_cases message macLength
  · refine ⟨MessageReader.initial pre.length message.length, ?_, ?_⟩
    · unfold decodeMessage
      dsimp only
      split_ifs with hshort hend
      · rfl
      · rfl
      · omega
    · rw [hversion, hpayload]
      exact messageFormat_initial 0 _ _
  · generalize versionOf message macLength = version at *
    generalize payloadOf message macLength = payload at *
    subst hmessage
    have hlength : (version :: (payload ++ trailer)).length = 1 + payload.length + macLength := by
      rw [List.length_cons, List.length_append]
      omega
    have hleft := bytesLeft_payload pre post version payload trailer
      (by omega : pre.length + (version :: (payload ++ trailer)).length - macLength = _)
    unfold decodeMessage
    dsimp only
    rw [if_neg (by omega), if_neg (by omega), readByte_version, Checked.ok_bind]
    exact decodeFields_walk messageFields_keeps hleft (by omega)
      (messageFormat_initial version _ _)

/-- **`decode_one_time_key_message` of any bytes.** -/
theorem decodeOneTimeKeyMessage_walk :
    ∃ reader, decodeOneTimeKeyMessage (pre ++ (message ++ post)) pre.length message.length =
        .ok reader ∧
      preKeyMessageFormat.Follows (pre ++ (message ++ post)) (versionOf message 0)
        (walk (payloadOf message 0)) reader := by
  obtain ⟨hle, hversion, hpayload⟩ | ⟨trailer, htrailer, hmessage⟩ := message_cases message 0
  · refine ⟨PreKeyMessageReader.initial, ?_, ?_⟩
    · exact if_pos (by omega)
    · rw [hversion, hpayload]
      exact preKeyMessageFormat_initial 0
  · generalize versionOf message 0 = version at *
    generalize payloadOf message 0 = payload at *
    subst hmessage
    have hlength : (version :: (payload ++ trailer)).length = 1 + payload.length := by
      rw [List.length_cons, List.length_append]
      omega
    have hleft := bytesLeft_payload pre post version payload trailer
      (by omega : pre.length + (version :: (payload ++ trailer)).length = _)
    unfold decodeOneTimeKeyMessage
    dsimp only
    rw [if_neg (by omega), readByte_version, Checked.ok_bind]
    exact decodeFields_walk preKeyMessageFields_keeps hleft (by omega)
      (preKeyMessageFormat_initial version)

/-- **`_olm_decode_group_message` of any bytes.** -/
theorem decodeGroupMessage_walk (signatureLength : ℕ) :
    ∃ reader, decodeGroupMessage (message ++ post) message.length macLength signatureLength =
        .ok reader ∧
      groupMessageFormat.Follows (message ++ post)
        (versionOf message (macLength + signatureLength))
        (walk (payloadOf message (macLength + signatureLength))) reader := by
  obtain ⟨hle, hversion, hpayload⟩ | ⟨trailer, htrailer, hmessage⟩ :=
    message_cases message (macLength + signatureLength)
  · refine ⟨GroupMessageReader.initial, ?_, ?_⟩
    · unfold decodeGroupMessage
      dsimp only
      split_ifs with hshort hend
      · rfl
      · rfl
      · omega
    · rw [hversion, hpayload]
      exact groupMessageFormat_initial 0
  · generalize versionOf message (macLength + signatureLength) = version at *
    generalize payloadOf message (macLength + signatureLength) = payload at *
    subst hmessage
    have hlength : (version :: (payload ++ trailer)).length =
        1 + payload.length + (macLength + signatureLength) := by
      rw [List.length_cons, List.length_append]
      omega
    have hleft := bytesLeft_payload [] post version payload trailer
      (by rw [List.length_nil]; omega :
        (version :: (payload ++ trailer)).length - (macLength + signatureLength) = _)
    have hread : readByte (version :: (payload ++ trailer) ++ post) 0 = .ok version :=
      readByte_version [] post version payload trailer
    unfold decodeGroupMessage
    dsimp only
    rw [if_neg (by omega), if_neg (by omega), hread, Checked.ok_bind]
    exact decodeFields_walk groupMessageFields_keeps hleft (by omega)
      (groupMessageFormat_initial version)

end Decoders

end Olm
