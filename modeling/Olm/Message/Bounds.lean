import Olm.Message.Model

/-!
# The decoders stay inside their message

Whatever bytes they are given, the three decoders return a reader, and what
it reports lies in the bytes they were given, between the version byte and
the trailer. Each step moves the position forward, and not past the end.
-/

namespace Olm

/-- Where it was found, the string lies between `start` and `end_`. -/
def StringField.InBounds (field : StringField) (start end_ : ℕ) : Prop :=
  ∀ pos, field.value = some pos → start ≤ pos ∧ pos + field.length ≤ end_

theorem StringField.inBounds_absent (start end_ : ℕ) :
    StringField.absent.InBounds start end_ := by
  intro pos h
  simp [StringField.absent] at h

theorem StringField.InBounds.mono {field : StringField} {start end_ start' end_' : ℕ}
    (h : field.InBounds start end_) (hstart : start' ≤ start) (hend : end_ ≤ end_') :
    field.InBounds start' end_' := by
  intro pos hpos
  obtain ⟨hle, hfit⟩ := h pos hpos
  exact ⟨hstart.trans hle, hfit.trans hend⟩

/-- Where it was found, the integer is what bytes between `start` and `end_`,
with a tag before them, decode to. -/
def IntField.InBounds (field : IntField) (buf : Bytes) (start end_ : ℕ) : Prop :=
  field.hasValue = true → ∃ valueStart valueEnd, start < valueStart ∧ valueStart ≤ valueEnd ∧
    valueEnd ≤ end_ ∧ varintDecode 32 buf valueStart valueEnd = .ok field.value

theorem IntField.inBounds_absent (buf : Bytes) (start end_ : ℕ) :
    IntField.absent.InBounds buf start end_ := by
  intro h
  simp [IntField.absent] at h

section Positions

variable {buf : Bytes} {pos end_ : ℕ}

theorem varintSkipLoop_bounds (count input : ℕ) (h : input + count ≤ buf.length) :
    ∃ pos, varintSkipLoop buf count input = .ok pos ∧ input ≤ pos ∧ pos ≤ input + count ∧
      (0 < count → input < pos) := by
  induction count generalizing input with
  | zero => exact ⟨input, rfl, le_rfl, le_rfl, fun h => absurd h (lt_irrefl 0)⟩
  | succ count ih =>
    rw [varintSkipLoop, readByte_of_lt (by omega), Checked.ok_bind]
    split
    · exact ⟨input + 1, rfl, by omega, by omega, fun _ => by omega⟩
    · obtain ⟨pos, hpos, hle, hend, -⟩ := ih (input + 1) (by omega)
      exact ⟨pos, hpos, by omega, by omega, fun _ => by omega⟩

theorem varintSkip_bounds (hpos : pos ≤ end_) (hend : end_ ≤ buf.length) :
    ∃ pos', varintSkip buf pos end_ = .ok pos' ∧ pos ≤ pos' ∧ pos' ≤ end_ ∧
      (pos < end_ → pos < pos') := by
  obtain ⟨pos', hskip, hle, hfit, hlt⟩ := varintSkipLoop_bounds (end_ - pos) pos
    (by omega : _ ≤ buf.length)
  rw [varintSkip, if_neg (by omega)]
  exact ⟨pos', hskip, hle, by omega, fun h => hlt (by omega)⟩

theorem varintDecodeLoop_bounds (width : ℕ) {start count : ℕ} (value : ℕ)
    (h : start + count ≤ buf.length) :
    ∃ v, varintDecodeLoop width buf start count value = .ok v := by
  induction count generalizing value with
  | zero => exact ⟨value, rfl⟩
  | succ count ih =>
    rw [varintDecodeLoop, readByte_of_lt (by omega), Checked.ok_bind]
    exact ih _ (by omega)

theorem varintDecode_bounds (width : ℕ) (hpos : pos ≤ end_) (hend : end_ ≤ buf.length) :
    ∃ v, varintDecode width buf pos end_ = .ok v := by
  rw [varintDecode, if_neg (by omega)]
  exact varintDecodeLoop_bounds width 0 (by omega)

theorem atTag_bounds (tag : UInt8) (hpos : pos ≤ end_) (hend : end_ ≤ buf.length) :
    ∃ b, atTag buf pos end_ tag = .ok b ∧ (b = true → pos < end_) := by
  by_cases h : pos = end_
  · exact ⟨false, by rw [atTag, if_pos h], by simp⟩
  · refine ⟨buf[pos] == tag, ?_, fun _ => by omega⟩
    rw [atTag, if_neg h, readByte_of_lt (by omega), Checked.ok_bind]

theorem decodeInt_bounds (tag : UInt8) {field : IntField} {start : ℕ} (hpos : pos ≤ end_)
    (hend : end_ ≤ buf.length) (hstart : start ≤ pos) (hfield : field.InBounds buf start end_) :
    ∃ pos' field', decodeInt buf end_ tag pos field = .ok (pos', field') ∧
      pos ≤ pos' ∧ pos' ≤ end_ ∧ field'.InBounds buf start end_ := by
  obtain ⟨b, hb, hlt⟩ := atTag_bounds tag hpos hend
  simp only [decodeInt, hb, Checked.ok_bind]
  cases b with
  | false => exact ⟨pos, field, rfl, le_rfl, hpos, hfield⟩
  | true =>
    obtain ⟨pos', hskip, hle, hfit, -⟩ := varintSkip_bounds (hlt rfl : pos + 1 ≤ end_) hend
    obtain ⟨v, hv⟩ := varintDecode_bounds 32 hle (show pos' ≤ buf.length by omega)
    simp only [if_true, hskip, Checked.ok_bind, hv]
    exact ⟨pos', _, rfl, by omega, hfit, fun _ => ⟨pos + 1, pos', by omega, hle, hfit, hv⟩⟩

theorem decodeString_bounds (tag : UInt8) {field : StringField} {start : ℕ} (hpos : pos ≤ end_)
    (hend : end_ ≤ buf.length) (hstart : start ≤ pos) (hfield : field.InBounds start end_) :
    ∃ pos' field', decodeString buf end_ tag pos field = .ok (pos', field') ∧
      pos ≤ pos' ∧ pos' ≤ end_ ∧ field'.InBounds start end_ := by
  obtain ⟨b, hb, hlt⟩ := atTag_bounds tag hpos hend
  simp only [decodeString, hb, Checked.ok_bind]
  cases b with
  | false => exact ⟨pos, field, rfl, le_rfl, hpos, hfield⟩
  | true =>
    obtain ⟨pos', hskip, hle, hfit, -⟩ := varintSkip_bounds (hlt rfl : pos + 1 ≤ end_) hend
    obtain ⟨len, hlen⟩ := varintDecode_bounds SIZE_WIDTH hle
      (show pos' ≤ buf.length by omega)
    simp only [if_true, hskip, Checked.ok_bind, hlen]
    split
    · exact ⟨end_, field, rfl, hpos, le_rfl, hfield⟩
    · refine ⟨pos' + len, _, rfl, by omega, by omega, ?_⟩
      rintro p ⟨⟩
      exact ⟨by omega, by simp only; omega⟩

theorem skipUnknown_bounds (hpos : pos < end_) (hend : end_ ≤ buf.length) :
    ∃ pos', skipUnknown buf pos end_ = .ok pos' ∧ pos < pos' ∧ pos' ≤ end_ := by
  rw [skipUnknown, if_neg (by omega), readByte_of_lt (by omega), Checked.ok_bind]
  obtain ⟨pos₁, hskip₁, -, hfit₁, hlt₁⟩ := varintSkip_bounds (le_of_lt hpos) hend
  obtain ⟨pos₂, hskip₂, hle₂, hfit₂, -⟩ := varintSkip_bounds hfit₁ hend
  have hlt := hlt₁ hpos
  simp only [hskip₁, hskip₂, Checked.ok_bind]
  split
  · exact ⟨pos₂, rfl, by omega, hfit₂⟩
  · split
    · obtain ⟨len, hlen⟩ := varintDecode_bounds SIZE_WIDTH hle₂
        (show pos₂ ≤ buf.length by omega)
      simp only [hlen, Checked.ok_bind]
      split
      · exact ⟨end_, rfl, hpos, le_rfl⟩
      · exact ⟨pos₂ + len, rfl, by omega, by omega⟩
    · exact ⟨end_, rfl, hpos, le_rfl⟩

/-- **The loop of the decoders returns**, and keeps what its fields keep. -/
theorem decodeFields_bounds {Reader : Type} {fields : ℕ → Reader → Checked (ℕ × Reader)}
    (Inv : Reader → Prop) (start : ℕ) {fuel : ℕ}
    (hfields : ∀ pos reader, start ≤ pos → pos < end_ → Inv reader →
      ∃ pos' reader', fields pos reader = .ok (pos', reader') ∧ pos ≤ pos' ∧ pos' ≤ end_ ∧
        Inv reader')
    (hend : end_ ≤ buf.length) {reader : Reader} (hinv : Inv reader) (hstart : start ≤ pos)
    (hpos : pos ≤ end_) (hfuel : end_ ≤ pos + fuel) :
    ∃ reader', decodeFields buf end_ fields fuel pos reader = .ok reader' ∧ Inv reader' := by
  induction fuel generalizing pos reader with
  | zero =>
    rw [decodeFields, if_pos (by omega)]
    exact ⟨reader, rfl, hinv⟩
  | succ fuel ih =>
    rw [decodeFields]
    by_cases h : pos = end_
    · rw [if_pos h]
      exact ⟨reader, rfl, hinv⟩
    · obtain ⟨pos₁, reader₁, hread, hle, hfit, hinv₁⟩ := hfields pos reader hstart (by omega) hinv
      simp only [if_neg h, hread, Checked.ok_bind]
      -- either a field moved, or what is there is skipped: both go forward
      by_cases hmoved : pos = pos₁
      · obtain ⟨pos₂, hskip, hlt, hfit₂⟩ := skipUnknown_bounds
          (show pos₁ < end_ by omega) hend
        simp only [if_pos hmoved, hskip, Checked.ok_bind]
        exact ih hinv₁ (by omega) hfit₂ (by omega)
      · simp only [if_neg hmoved]
        exact ih hinv₁ (by omega) hfit (by omega)

end Positions

/-! ## The three decoders -/

/-- The strings a message reader points at lie between `start` and `end_`. -/
structure MessageReader.InBounds (reader : MessageReader) (start end_ : ℕ) : Prop where
  ratchetKey : reader.ratchetKey.InBounds start end_
  ciphertext : reader.ciphertext.InBounds start end_

theorem messageFields_bounds {buf : Bytes} {start end_ pos : ℕ} {reader : MessageReader}
    (hend : end_ ≤ buf.length) (hstart : start ≤ pos) (hpos : pos ≤ end_)
    (hreader : reader.InBounds start end_) (hcounter : reader.counter.InBounds buf start end_) :
    ∃ pos' reader', messageFields buf end_ pos reader = .ok (pos', reader') ∧
      pos ≤ pos' ∧ pos' ≤ end_ ∧ reader'.InBounds start end_ ∧
      reader'.counter.InBounds buf start end_ ∧
      reader'.input = reader.input ∧ reader'.inputLength = reader.inputLength := by
  obtain ⟨pos₁, ratchetKey, h₁, hle₁, hfit₁, hkey⟩ :=
    decodeString_bounds RATCHET_KEY_TAG hpos hend hstart hreader.ratchetKey
  obtain ⟨pos₂, counter, h₂, hle₂, hfit₂, hint⟩ :=
    decodeInt_bounds COUNTER_TAG hfit₁ hend (show start ≤ pos₁ by omega) hcounter
  obtain ⟨pos₃, ciphertext, h₃, hle₃, hfit₃, htext⟩ :=
    decodeString_bounds CIPHERTEXT_TAG hfit₂ hend (show start ≤ pos₂ by omega) hreader.ciphertext
  simp only [messageFields, h₁, h₂, h₃, Checked.ok_bind]
  exact ⟨pos₃, _, rfl, by omega, hfit₃, ⟨hkey, htext⟩, hint, rfl, rfl⟩

/-- **`decode_message` reads nothing outside its payload**, the input up to the
MAC, and what it reports lies behind the version byte. -/
theorem decodeMessage_payload {buf : Bytes} {input inputLength macLength : ℕ}
    (h : input + inputLength - macLength ≤ buf.length) :
    ∃ reader, decodeMessage buf input inputLength macLength = .ok reader ∧
      reader.InBounds (input + 1) (input + inputLength - macLength) ∧
      reader.counter.InBounds buf (input + 1) (input + inputLength - macLength) ∧
      reader.input = input ∧ reader.inputLength = inputLength := by
  have hinitial : ∀ version, MessageReader.InBounds
      { MessageReader.initial input inputLength with version := version }
      (input + 1) (input + inputLength - macLength) :=
    fun _ => ⟨StringField.inBounds_absent _ _, StringField.inBounds_absent _ _⟩
  simp only [decodeMessage]
  split
  · exact ⟨_, rfl, hinitial 0, IntField.inBounds_absent _ _ _, rfl, rfl⟩
  · split
    · exact ⟨_, rfl, hinitial 0, IntField.inBounds_absent _ _ _, rfl, rfl⟩
    · rw [readByte_of_lt (by omega), Checked.ok_bind]
      refine decodeFields_bounds
        (fun reader : MessageReader =>
          reader.InBounds (input + 1) (input + inputLength - macLength) ∧
          reader.counter.InBounds buf (input + 1) (input + inputLength - macLength) ∧
          reader.input = input ∧ reader.inputLength = inputLength) (input + 1)
        (fun pos reader hstart hpos hinv => ?_) h
        ⟨hinitial _, IntField.inBounds_absent _ _ _, rfl, rfl⟩ le_rfl (by omega) (by omega)
      obtain ⟨pos', reader', hread, hle, hfit, hbounds, hcounter, hinput, hlength⟩ :=
        messageFields_bounds h hstart (le_of_lt hpos) hinv.1 hinv.2.1
      exact ⟨pos', reader', hread, hle, hfit, hbounds, hcounter, hinput.trans hinv.2.2.1,
        hlength.trans hinv.2.2.2⟩

/-- In the whole message, `decode_message` points inside it. -/
theorem decodeMessage_bounds {buf : Bytes} {input inputLength : ℕ} (macLength : ℕ)
    (h : input + inputLength ≤ buf.length) :
    ∃ reader, decodeMessage buf input inputLength macLength = .ok reader ∧
      reader.InBounds input (input + inputLength) ∧
      reader.input = input ∧ reader.inputLength = inputLength := by
  obtain ⟨reader, hread, hbounds, -, hinput, hlength⟩ :=
    decodeMessage_payload (show input + inputLength - macLength ≤ buf.length by omega)
  exact ⟨reader, hread, ⟨hbounds.ratchetKey.mono (Nat.le_succ _) (Nat.sub_le _ _),
    hbounds.ciphertext.mono (Nat.le_succ _) (Nat.sub_le _ _)⟩, hinput, hlength⟩

/-- The strings a pre-key message reader points at lie between `start` and
`end_`. -/
structure PreKeyMessageReader.InBounds (reader : PreKeyMessageReader) (start end_ : ℕ) : Prop where
  identityKey : reader.identityKey.InBounds start end_
  baseKey : reader.baseKey.InBounds start end_
  prekey : reader.prekey.InBounds start end_
  oneTimeKey : reader.oneTimeKey.InBounds start end_
  message : reader.message.InBounds start end_

theorem preKeyMessageFields_bounds {buf : Bytes} {start end_ pos : ℕ} {reader : PreKeyMessageReader}
    (hend : end_ ≤ buf.length) (hstart : start ≤ pos) (hpos : pos ≤ end_)
    (hreader : reader.InBounds start end_) :
    ∃ pos' reader', preKeyMessageFields buf end_ pos reader = .ok (pos', reader') ∧
      pos ≤ pos' ∧ pos' ≤ end_ ∧ reader'.InBounds start end_ := by
  obtain ⟨pos₁, prekey, h₁, hle₁, hfit₁, hprekey⟩ :=
    decodeString_bounds PREKEY_ID_TAG hpos hend hstart hreader.prekey
  obtain ⟨pos₂, oneTimeKey, h₂, hle₂, hfit₂, hone⟩ :=
    decodeString_bounds ONE_TIME_KEY_ID_TAG hfit₁ hend (by omega) hreader.oneTimeKey
  obtain ⟨pos₃, baseKey, h₃, hle₃, hfit₃, hbase⟩ :=
    decodeString_bounds BASE_KEY_TAG hfit₂ hend (by omega) hreader.baseKey
  obtain ⟨pos₄, identityKey, h₄, hle₄, hfit₄, hid⟩ :=
    decodeString_bounds IDENTITY_KEY_TAG hfit₃ hend (by omega) hreader.identityKey
  obtain ⟨pos₅, message, h₅, hle₅, hfit₅, hmessage⟩ :=
    decodeString_bounds MESSAGE_TAG hfit₄ hend (by omega) hreader.message
  simp only [preKeyMessageFields, h₁, h₂, h₃, h₄, h₅, Checked.ok_bind]
  exact ⟨pos₅, _, rfl, by omega, hfit₅, hid, hbase, hprekey, hone, hmessage⟩

/-- **`decode_one_time_key_message` reads nothing outside its input**, and
what it reports lies behind the version byte. -/
theorem decodeOneTimeKeyMessage_payload {buf : Bytes} {input inputLength : ℕ}
    (h : input + inputLength ≤ buf.length) :
    ∃ reader, decodeOneTimeKeyMessage buf input inputLength = .ok reader ∧
      reader.InBounds (input + 1) (input + inputLength) := by
  have hinitial : PreKeyMessageReader.initial.InBounds (input + 1) (input + inputLength) := by
    constructor <;> exact StringField.inBounds_absent _ _
  simp only [decodeOneTimeKeyMessage]
  split
  · exact ⟨_, rfl, hinitial⟩
  · rw [readByte_of_lt (by omega), Checked.ok_bind]
    exact decodeFields_bounds
      (fun reader : PreKeyMessageReader => reader.InBounds (input + 1) (input + inputLength))
      (input + 1) (fun pos reader hstart hpos hinv =>
        preKeyMessageFields_bounds h hstart (le_of_lt hpos) hinv) h
      (by constructor <;> exact StringField.inBounds_absent _ _)
      le_rfl (by omega) (by omega)

/-- It points inside the message. -/
theorem decodeOneTimeKeyMessage_bounds {buf : Bytes} {input inputLength : ℕ}
    (h : input + inputLength ≤ buf.length) :
    ∃ reader, decodeOneTimeKeyMessage buf input inputLength = .ok reader ∧
      reader.InBounds input (input + inputLength) := by
  obtain ⟨reader, hread, hbounds⟩ := decodeOneTimeKeyMessage_payload h
  refine ⟨reader, hread, ?_, ?_, ?_, ?_, ?_⟩
  · exact hbounds.identityKey.mono (Nat.le_succ _) le_rfl
  · exact hbounds.baseKey.mono (Nat.le_succ _) le_rfl
  · exact hbounds.prekey.mono (Nat.le_succ _) le_rfl
  · exact hbounds.oneTimeKey.mono (Nat.le_succ _) le_rfl
  · exact hbounds.message.mono (Nat.le_succ _) le_rfl

/-- What a group message reader reports lies between `start` and `end_`. -/
structure GroupMessageReader.InBounds (reader : GroupMessageReader) (buf : Bytes)
    (start end_ : ℕ) : Prop where
  messageIndex : reader.messageIndex.InBounds buf start end_
  ciphertext : reader.ciphertext.InBounds start end_

theorem GroupMessageReader.inBounds_initial (version : UInt8) (buf : Bytes) (start end_ : ℕ) :
    GroupMessageReader.InBounds { GroupMessageReader.initial with version := version } buf
      start end_ :=
  ⟨IntField.inBounds_absent _ _ _, StringField.inBounds_absent _ _⟩

theorem groupMessageFields_bounds {buf : Bytes} {start end_ pos : ℕ} {reader : GroupMessageReader}
    (hend : end_ ≤ buf.length) (hstart : start ≤ pos) (hpos : pos ≤ end_)
    (hreader : reader.InBounds buf start end_) :
    ∃ pos' reader', groupMessageFields buf end_ pos reader = .ok (pos', reader') ∧
      pos ≤ pos' ∧ pos' ≤ end_ ∧ reader'.InBounds buf start end_ := by
  obtain ⟨pos₁, messageIndex, h₁, hle₁, hfit₁, hindex⟩ :=
    decodeInt_bounds GROUP_MESSAGE_INDEX_TAG hpos hend hstart hreader.messageIndex
  obtain ⟨pos₂, ciphertext, h₂, hle₂, hfit₂, htext⟩ :=
    decodeString_bounds GROUP_CIPHERTEXT_TAG hfit₁ hend (show start ≤ pos₁ by omega)
      hreader.ciphertext
  simp only [groupMessageFields, h₁, h₂, Checked.ok_bind]
  exact ⟨pos₂, _, rfl, by omega, hfit₂, hindex, htext⟩

/-- **`_olm_decode_group_message` reads nothing outside its payload**, the
input up to the MAC and the signature, and what it reports lies behind the
version byte. A message with a version is longer than the two. -/
theorem decodeGroupMessage_payload {buf : Bytes} {inputLength macLength signatureLength : ℕ}
    (h : inputLength - (macLength + signatureLength) ≤ buf.length) :
    ∃ reader, decodeGroupMessage buf inputLength macLength signatureLength = .ok reader ∧
      reader.InBounds buf 1 (inputLength - (macLength + signatureLength)) ∧
      (reader.version ≠ 0 → macLength + signatureLength < inputLength) := by
  simp only [decodeGroupMessage]
  split
  · exact ⟨_, rfl, GroupMessageReader.inBounds_initial 0 buf _ _, fun h => absurd rfl h⟩
  · split
    · exact ⟨_, rfl, GroupMessageReader.inBounds_initial 0 buf _ _, fun h => absurd rfl h⟩
    · rw [readByte_of_lt (by omega), Checked.ok_bind]
      have hloop : ∃ reader, decodeFields buf (inputLength - (macLength + signatureLength))
          (groupMessageFields buf (inputLength - (macLength + signatureLength)))
          (inputLength - (macLength + signatureLength)) 1
          { GroupMessageReader.initial with version := buf[0] } = .ok reader ∧
          reader.InBounds buf 1 (inputLength - (macLength + signatureLength)) :=
        decodeFields_bounds
          (fun reader : GroupMessageReader =>
            reader.InBounds buf 1 (inputLength - (macLength + signatureLength))) 1
          (fun pos reader hstart hpos hinv =>
            groupMessageFields_bounds h hstart (le_of_lt hpos) hinv) h
          (GroupMessageReader.inBounds_initial _ buf _ _) le_rfl (by omega) (by omega)
      obtain ⟨reader, hread, hbounds⟩ := hloop
      exact ⟨reader, hread, hbounds, fun _ => by omega⟩

end Olm
