import Olm.Common.Varint
import Olm.Message.Model
import Mathlib.Data.List.Induction
import Mathlib.Tactic.Ring

/-!
# What is encoded is decoded

`tagged`, `messageHeader`, `preKeyMessageHeader` and `groupMessageHeader`
are the bytes the encoders write. An encoder is described on a buffer cut
into what comes before, the room it fills, and what comes after; a decoder
by what the buffer reads from its position on.

All the fields of an encoded message are in the order the decoder looks
for them, so one round of its loop reads the message to its end.
-/

namespace Olm

/-- A tag and the integer after it: a whole integer field, or what comes
before the bytes of a string field. -/
def tagged (tag : UInt8) (value : ℕ) : Bytes := tag :: Varint.encode value

@[simp] theorem tagged_length (tag : UInt8) (value : ℕ) :
    (tagged tag value).length = (Varint.encode value).length + 1 := rfl

theorem varintLength_eq (value : ℕ) : varintLength value = (Varint.encode value).length := by
  induction value using Varint.encode.induct with
  | case1 value h ih => rw [varintLength, if_pos h, Varint.encode_of_le h, List.length_cons, ih]
  | case2 value h => rw [varintLength, if_neg h, Varint.encode_of_lt (by omega)]; rfl

/-- An integer takes no more bytes than it counts, and one. -/
theorem varintLength_le (value : ℕ) : varintLength value ≤ value + 1 := by
  induction value using varintLength.induct with
  | case1 value h ih =>
    rw [Nat.shiftRight_eq_div_pow] at ih
    rw [varintLength, if_pos h, Nat.shiftRight_eq_div_pow]
    omega
  | case2 value h =>
    rw [varintLength, if_neg h]
    omega

/-! ## Encoders -/

/-- One byte written leaves the rest of the room. -/
theorem writeAt_singleton (b : UInt8) (pre room post : Bytes) {n : ℕ} (hlen : room.length = n + 1) :
    ∃ left, left.length = n ∧
      writeAt (pre ++ (room ++ post)) pre.length [b] = .ok ((pre ++ [b]) ++ (left ++ post)) := by
  obtain ⟨c, left, rfl⟩ := List.exists_cons_of_length_eq_add_one hlen
  refine ⟨left, by simpa using hlen, ?_⟩
  have hwrite : [b].length = [c].length := rfl
  rw [List.append_assoc, ← writeAt_append pre (left ++ post) hwrite]
  rfl

theorem length_append_singleton (pre : Bytes) (b : UInt8) :
    pre.length + 1 = (pre ++ [b]).length := by simp

theorem varintEncode_room (value : ℕ) (pre room post : Bytes) {n : ℕ}
    (hlen : room.length = n + (Varint.encode value).length) :
    ∃ left, left.length = n ∧ varintEncode (pre ++ (room ++ post)) pre.length value =
      .ok ((pre ++ Varint.encode value) ++ (left ++ post), (pre ++ Varint.encode value).length) := by
  induction value using Varint.encode.induct generalizing pre room with
  | case1 value h ih =>
    rw [Varint.encode_of_le h, List.length_cons, ← Nat.add_assoc] at hlen
    obtain ⟨room, hroom, hwrite⟩ := writeAt_singleton _ pre room post hlen
    obtain ⟨left, hleft, hrest⟩ := ih (pre ++ [_]) room hroom
    refine ⟨left, hleft, ?_⟩
    rw [varintEncode, if_pos h, hwrite, Checked.ok_bind, length_append_singleton, hrest,
      Varint.encode_of_le h, List.append_assoc pre, List.singleton_append]
  | case2 value h =>
    rw [Varint.encode_of_lt (by omega)] at hlen ⊢
    obtain ⟨left, hleft, hwrite⟩ := writeAt_singleton _ pre room post hlen
    refine ⟨left, hleft, ?_⟩
    rw [varintEncode, if_neg h, hwrite, Checked.ok_bind, length_append_singleton]

theorem encodeInt_room (tag : UInt8) (value : ℕ) (pre room post : Bytes) {n : ℕ}
    (hlen : room.length = n + (tagged tag value).length) :
    ∃ left, left.length = n ∧ encodeInt (pre ++ (room ++ post)) pre.length tag value =
      .ok ((pre ++ tagged tag value) ++ (left ++ post), (pre ++ tagged tag value).length) := by
  rw [tagged_length, ← Nat.add_assoc] at hlen
  obtain ⟨room, hroom, hwrite⟩ := writeAt_singleton tag pre room post hlen
  obtain ⟨left, hleft, hrest⟩ := varintEncode_room value (pre ++ [tag]) room post hroom
  refine ⟨left, hleft, ?_⟩
  rw [encodeInt, hwrite, Checked.ok_bind, length_append_singleton, hrest, List.append_assoc pre,
    List.singleton_append, tagged]

theorem encodeString_room (tag : UInt8) (length : ℕ) (pre room post : Bytes) {n : ℕ}
    (hlen : room.length = n + (tagged tag length).length) :
    ∃ left, left.length = n ∧ encodeString (pre ++ (room ++ post)) pre.length tag length =
      .ok { buf := (pre ++ tagged tag length) ++ (left ++ post)
            value := (pre ++ tagged tag length).length
            pos := (pre ++ tagged tag length).length + length } := by
  obtain ⟨left, hleft, hint⟩ := encodeInt_room tag length pre room post hlen
  rw [encodeInt, Checked.bind_eq_ok] at hint
  obtain ⟨written, hwrite, hencode⟩ := hint
  exact ⟨left, hleft, by rw [encodeString, hwrite, Checked.ok_bind, hencode, Checked.ok_bind]⟩

/-- A string inside the room is left for the caller: `string` is what its
bytes were. -/
theorem encodeString_skip (tag : UInt8) (length : ℕ) (pre room post : Bytes) {n : ℕ}
    (hlen : room.length = n + length + (tagged tag length).length) :
    ∃ string left, string.length = length ∧ left.length = n ∧
      encodeString (pre ++ (room ++ post)) pre.length tag length =
        .ok { buf := (pre ++ tagged tag length ++ string) ++ (left ++ post)
              value := (pre ++ tagged tag length).length
              pos := (pre ++ tagged tag length ++ string).length } := by
  obtain ⟨room', hroom', hencode⟩ := encodeString_room tag length pre room post hlen
  have hstring : (room'.take length).length = length := by rw [List.length_take]; omega
  refine ⟨room'.take length, room'.drop length, hstring, by rw [List.length_drop]; omega, ?_⟩
  have hcut : pre ++ tagged tag length ++ List.take length room' ++ (List.drop length room' ++ post) =
      pre ++ tagged tag length ++ (room' ++ post) := by
    rw [List.append_assoc (pre ++ _), ← List.append_assoc (List.take ..), List.take_append_drop]
  have hpos : (pre ++ tagged tag length ++ List.take length room').length =
      (pre ++ tagged tag length).length + length := by rw [List.length_append, hstring]
  rw [hencode, hcut, hpos]

/-! ## Decoders of integers -/

theorem varintSkipLoop_append {buf init rest : Bytes} {last : UInt8} {count pos : ℕ}
    (h : buf.drop pos = init ++ last :: rest) (hinit : ∀ b ∈ init, Varint.continues b)
    (hlast : ¬ Varint.continues last) (hcount : init.length < count) :
    varintSkipLoop buf count pos = .ok (pos + (init.length + 1)) := by
  induction init generalizing count pos with
  | nil =>
    obtain ⟨count, rfl⟩ := Nat.exists_eq_succ_of_ne_zero (Nat.ne_of_gt hcount)
    rw [varintSkipLoop, readByte_of_drop_eq_cons h, Checked.ok_bind,
      if_pos (not_not.mp hlast)]
    rfl
  | cons b init ih =>
    obtain ⟨count, rfl⟩ := Nat.exists_eq_succ_of_ne_zero (Nat.ne_of_gt (Nat.zero_lt_of_lt hcount))
    have hnext : buf.drop (pos + 1) = init ++ last :: rest :=
      drop_add_of_drop_eq_append [b] h
    rw [varintSkipLoop, readByte_of_drop_eq_cons h, Checked.ok_bind,
      if_neg (hinit b List.mem_cons_self),
      ih hnext (fun c hc => hinit c (List.mem_cons_of_mem b hc)) (by simpa using hcount)]
    congr 1
    rw [List.length_cons]
    omega

theorem varintSkip_of_encodes {buf bs rest : Bytes} {pos end_ value : ℕ}
    (h : buf.drop pos = bs ++ rest) (hbs : Varint.Encodes bs value) (hend : pos + bs.length ≤ end_) :
    varintSkip buf pos end_ = .ok (pos + bs.length) := by
  obtain ⟨init, last, rfl, hinit, hlast⟩ := hbs.ends
  rw [List.length_append, List.length_singleton] at hend ⊢
  rw [List.append_assoc] at h
  rw [varintSkip, if_neg (by omega), varintSkipLoop_append h hinit hlast (by omega)]

theorem decode_append_singleton (bs : Bytes) (b : UInt8) :
    Varint.decode (bs ++ [b]) = b.toNat % 128 * 128 ^ bs.length + Varint.decode bs := by
  induction bs with
  | nil => rw [List.nil_append, Varint.decode_cons]; simp [Varint.decode]
  | cons c bs ih =>
    rw [List.cons_append, Varint.decode_cons, Varint.decode_cons, ih, List.length_cons, Nat.pow_succ]
    ring

/-- Read from the last byte up, the value accumulates modulo the width. -/
theorem varintDecodeLoop_append {width : ℕ} (hwidth : 7 ≤ width) {buf bs rest : Bytes} {start : ℕ}
    (value : ℕ) (h : buf.drop start = bs ++ rest) (hvalue : value < 2 ^ width) :
    varintDecodeLoop width buf start bs.length value =
      .ok ((value * 128 ^ bs.length + Varint.decode bs) % 2 ^ width) := by
  induction bs using List.reverseRecOn generalizing value rest with
  | nil => simp [varintDecodeLoop, Varint.decode, Nat.mod_eq_of_lt hvalue]
  | append_singleton bs b ih =>
    have hlast : buf.drop (start + bs.length) = b :: rest := by
      rw [List.append_assoc] at h
      exact drop_add_of_drop_eq_append bs h
    have hpow : 2 ^ width = 2 ^ 7 * 2 ^ (width - 7) := by rw [← Nat.pow_add]; congr 1; omega
    have hstep : (value <<< 7) % 2 ^ width ||| (0x7F &&& b).toNat =
        (value * 128 + b.toNat % 128) % 2 ^ width := by
      have hshift : (value <<< 7) % 2 ^ width = (value % 2 ^ (width - 7)) <<< 7 := by
        rw [Nat.shiftLeft_eq, Nat.shiftLeft_eq, hpow, Nat.mul_comm value, Nat.mul_mod_mul_left,
          Nat.mul_comm]
      have hlow : (value * 128 + b.toNat % 128) % 2 ^ 7 = b.toNat % 128 := by omega
      have hhigh : (value * 128 + b.toNat % 128) / 2 ^ 7 = value := by omega
      rw [hshift, Varint.toNat_payload, ← Nat.shiftLeft_add_eq_or_of_lt (by omega), Nat.shiftLeft_eq,
        hpow, Nat.mod_mul, hlow, hhigh, Nat.mul_comm, Nat.add_comm]
    rw [List.length_append, List.length_singleton, varintDecodeLoop, readByte_of_drop_eq_cons hlast,
      Checked.ok_bind, hstep, ih _ (by simpa using h) (Nat.mod_lt _ (Nat.two_pow_pos width)),
      decode_append_singleton]
    congr 1
    rw [Nat.add_mod, Nat.mod_mul_mod, ← Nat.add_mod]
    congr 1
    ring

/-- Some bytes are read for what they hold, modulo the width they are read at. -/
theorem varintDecode_of_drop_eq {width : ℕ} (hwidth : 7 ≤ width) {buf bs rest : Bytes} {start : ℕ}
    (h : buf.drop start = bs ++ rest) :
    varintDecode width buf start (start + bs.length) = .ok (Varint.decode bs % 2 ^ width) := by
  rw [varintDecode, if_neg (by omega), Nat.add_sub_cancel_left,
    varintDecodeLoop_append hwidth 0 h (Nat.two_pow_pos width)]
  simp

/-- **A value is read back**, modulo the width it is read at. -/
theorem varintDecode_of_encodes {width : ℕ} (hwidth : 7 ≤ width) {buf bs rest : Bytes}
    {start value : ℕ} (h : buf.drop start = bs ++ rest) (hbs : Varint.Encodes bs value) :
    varintDecode width buf start (start + bs.length) = .ok (value % 2 ^ width) := by
  rw [varintDecode_of_drop_eq hwidth h, hbs.decode_eq]

/-! ## Decoders of fields -/

theorem atTag_append {buf rest : Bytes} {pos end_ : ℕ} {tag : UInt8}
    (h : buf.drop pos = tag :: rest) (hend : pos < end_) : atTag buf pos end_ tag = .ok true := by
  rw [atTag, if_neg (Nat.ne_of_lt hend), readByte_of_drop_eq_cons h, Checked.ok_bind, beq_self_eq_true]

theorem decodeInt_of_encodes {buf bs rest : Bytes} {pos end_ value : ℕ} {tag : UInt8}
    (field : IntField) (h : buf.drop pos = tag :: (bs ++ rest)) (hbs : Varint.Encodes bs value)
    (hend : pos + (1 + bs.length) ≤ end_) :
    decodeInt buf end_ tag pos field =
      .ok (pos + (1 + bs.length), { value := value % 2 ^ 32, hasValue := true }) := by
  have hvarint : buf.drop (pos + 1) = bs ++ rest := drop_add_of_drop_eq_append [tag] h
  simp only [decodeInt, atTag_append h (show pos < end_ by omega), Checked.ok_bind, if_true,
    varintSkip_of_encodes hvarint hbs (by omega : _ ≤ end_),
    varintDecode_of_encodes (show 7 ≤ 32 by omega) hvarint hbs]
  rw [Nat.add_assoc]

theorem decodeInt_append {buf rest : Bytes} {pos end_ value : ℕ} {tag : UInt8} (field : IntField)
    (h : buf.drop pos = tagged tag value ++ rest) (hend : pos + (tagged tag value).length ≤ end_) :
    decodeInt buf end_ tag pos field =
      .ok (pos + (tagged tag value).length, { value := value % 2 ^ 32, hasValue := true }) := by
  rw [tagged_length, Nat.add_comm _ 1] at hend ⊢
  exact decodeInt_of_encodes field h (Varint.encodes_encode value) hend

theorem decodeString_of_encodes {buf bs rest : Bytes} {pos end_ length : ℕ} {tag : UInt8}
    (field : StringField) (h : buf.drop pos = tag :: (bs ++ rest))
    (hbs : Varint.Encodes bs length) (hend : pos + (1 + bs.length) + length ≤ end_)
    (hsize : length < 2 ^ SIZE_WIDTH) :
    decodeString buf end_ tag pos field =
      .ok (pos + (1 + bs.length) + length,
        { value := some (pos + (1 + bs.length)), length := length }) := by
  have hvarint : buf.drop (pos + 1) = bs ++ rest := drop_add_of_drop_eq_append [tag] h
  simp only [decodeString, atTag_append h (show pos < end_ by omega), Checked.ok_bind, if_true,
    varintSkip_of_encodes hvarint hbs (by omega : _ ≤ end_),
    varintDecode_of_encodes (show 7 ≤ SIZE_WIDTH by decide) hvarint hbs, Nat.mod_eq_of_lt hsize]
  rw [if_neg (by omega), Nat.add_assoc pos 1]

theorem decodeString_append {buf rest : Bytes} {pos end_ length : ℕ} {tag : UInt8}
    (field : StringField) (h : buf.drop pos = tagged tag length ++ rest)
    (hend : pos + (tagged tag length).length + length ≤ end_) (hsize : length < 2 ^ SIZE_WIDTH) :
    decodeString buf end_ tag pos field =
      .ok (pos + (tagged tag length).length + length,
        { value := some (pos + (tagged tag length).length), length := length }) := by
  rw [tagged_length, Nat.add_comm _ 1] at hend ⊢
  exact decodeString_of_encodes field h (Varint.encodes_encode length) hend hsize

/-- A round that reads up to the end is the only one. -/
theorem decodeFields_of_end {Reader : Type} {buf : Bytes} {end_ fuel pos : ℕ}
    {fields : ℕ → Reader → Checked (ℕ × Reader)} {reader reader' : Reader}
    (hfields : fields pos reader = .ok (end_, reader')) (hpos : pos < end_) (hfuel : 0 < fuel) :
    decodeFields buf end_ fields fuel pos reader = .ok reader' := by
  obtain ⟨fuel, rfl⟩ := Nat.exists_eq_succ_of_ne_zero (Nat.ne_of_gt hfuel)
  rw [decodeFields, if_neg (Nat.ne_of_lt hpos), hfields, Checked.ok_bind]
  simp only [if_neg (Nat.ne_of_lt hpos), Checked.ok_bind]
  cases fuel <;> rw [decodeFields, if_pos rfl]

/-- The field was found, and is these bytes of the buffer. -/
def StringField.Reads (field : StringField) (buf bs : Bytes) : Prop :=
  ∃ pos rest, field = { value := some pos, length := bs.length } ∧ buf.drop pos = bs ++ rest

/-! ## Messages -/

/-- What comes before the ciphertext of a message. -/
def messageHeader (version : UInt8) (ratchetKey : Bytes) (counter ciphertextLength : ℕ) : Bytes :=
  version :: (tagged RATCHET_KEY_TAG ratchetKey.length ++ (ratchetKey ++
    (tagged COUNTER_TAG counter ++ tagged CIPHERTEXT_TAG ciphertextLength)))

/-- Where the ratchet key of a message is. -/
def ratchetKeyOffset (ratchetKeyLength : ℕ) : ℕ :=
  1 + (tagged RATCHET_KEY_TAG ratchetKeyLength).length

theorem encodeMessageLength_eq (version : UInt8) (ratchetKey : Bytes)
    (counter ciphertextLength macLength : ℕ) :
    encodeMessageLength counter ratchetKey.length ciphertextLength macLength =
      (messageHeader version ratchetKey counter ciphertextLength).length +
        (ciphertextLength + macLength) := by
  simp only [encodeMessageLength, VERSION_LENGTH, varstringLength, varintLength_eq, messageHeader,
    List.length_cons, List.length_append, tagged_length]
  omega

/-- `encode_message` writes the header around a ratchet key it leaves for
its caller. -/
theorem encodeMessage_append (version : UInt8) (counter ciphertextLength : ℕ)
    (ratchetKey pre room post : Bytes)
    (hlen : room.length = (messageHeader version ratchetKey counter ciphertextLength).length) :
    ∃ writer, encodeMessage version counter ratchetKey.length ciphertextLength
        (pre ++ (room ++ post)) pre.length = .ok writer ∧
      writer.ciphertext = pre.length + room.length ∧
      writeAt writer.buf writer.ratchetKey ratchetKey =
        .ok (pre ++ (messageHeader version ratchetKey counter ciphertextLength ++ post)) := by
  have htotal := hlen
  rw [messageHeader, List.length_cons] at hlen
  simp only [List.length_append] at hlen
  -- the room is used up from the front; `s₁` to `s₄` are left for the keys
  obtain ⟨room₁, hroom₁, hversion⟩ := writeAt_singleton version pre room post hlen
  obtain ⟨string, room₂, hstring, hroom₂, hkey⟩ := encodeString_skip
    (n := (tagged CIPHERTEXT_TAG ciphertextLength).length + (tagged COUNTER_TAG counter).length)
    RATCHET_KEY_TAG ratchetKey.length (pre ++ [version]) room₁ post (by omega)
  obtain ⟨room₃, hroom₃, hcounter⟩ := encodeInt_room COUNTER_TAG counter
    (pre ++ [version] ++ tagged RATCHET_KEY_TAG ratchetKey.length ++ string) room₂ post hroom₂
  obtain ⟨room₄, hroom₄, hciphertext⟩ := encodeString_room (n := 0) CIPHERTEXT_TAG ciphertextLength
    (pre ++ [version] ++ tagged RATCHET_KEY_TAG ratchetKey.length ++ string ++
      tagged COUNTER_TAG counter) room₃ post (by omega)
  rw [List.length_eq_zero_iff] at hroom₄
  subst hroom₄
  refine ⟨_, by
    rw [encodeMessage, hversion, Checked.ok_bind, length_append_singleton, hkey]
    simp only [Checked.ok_bind, hcounter, hciphertext]
    rfl, ?_, ?_⟩
  · simp only [List.length_append, htotal, messageHeader, List.length_cons, List.length_nil, hstring]
    omega
  · have hfill := writeAt_append (pre ++ [version] ++ tagged RATCHET_KEY_TAG ratchetKey.length)
      (tagged COUNTER_TAG counter ++ (tagged CIPHERTEXT_TAG ciphertextLength ++ post)) hstring.symm
    simpa only [messageHeader, List.append_assoc, List.cons_append, List.nil_append,
      List.singleton_append] using hfill

/-- The fields of an encoded message, read in one round. -/
theorem messageFields_append {buf ratchetKey rest : Bytes} {pos end_ counter ciphertextLength : ℕ}
    (reader : MessageReader)
    (h : buf.drop pos = tagged RATCHET_KEY_TAG ratchetKey.length ++ (ratchetKey ++
      (tagged COUNTER_TAG counter ++ (tagged CIPHERTEXT_TAG ciphertextLength ++ rest))))
    (hend : pos + (tagged RATCHET_KEY_TAG ratchetKey.length).length + ratchetKey.length +
      (tagged COUNTER_TAG counter).length + (tagged CIPHERTEXT_TAG ciphertextLength).length +
      ciphertextLength = end_)
    (hkey : ratchetKey.length < 2 ^ SIZE_WIDTH) (hsize : ciphertextLength < 2 ^ SIZE_WIDTH) :
    messageFields buf end_ pos reader = .ok (end_,
      { reader with
        ratchetKey := { value := some (pos + (tagged RATCHET_KEY_TAG ratchetKey.length).length)
                        length := ratchetKey.length }
        counter := { value := counter % 2 ^ 32, hasValue := true }
        ciphertext := { value := some (end_ - ciphertextLength), length := ciphertextLength } }) := by
  have hcounter := drop_add_of_drop_eq_append _ (drop_add_of_drop_eq_append _ h)
  have hciphertext := drop_add_of_drop_eq_append _ hcounter
  subst hend
  rw [messageFields, decodeString_append _ h (by omega) hkey]
  simp only [Checked.ok_bind]
  rw [decodeInt_append _ hcounter (by omega)]
  simp only [Checked.ok_bind]
  rw [decodeString_append _ hciphertext (by omega) hsize]
  simp only [Checked.ok_bind, Nat.add_sub_cancel]

/-- **A message is decoded to what was encoded.** The ciphertext starts
where the header ends. -/
theorem decodeMessage_append {buf ratchetKey body rest : Bytes} {version : UInt8}
    {input counter ciphertextLength macLength n : ℕ}
    (h : buf.drop input = messageHeader version ratchetKey counter ciphertextLength ++ (body ++ rest))
    (hbody : body.length = ciphertextLength + macLength)
    (hn : n = (messageHeader version ratchetKey counter ciphertextLength).length)
    (hkey : ratchetKey.length < 2 ^ SIZE_WIDTH) (hsize : ciphertextLength < 2 ^ SIZE_WIDTH) :
    decodeMessage buf input (n + body.length) macLength = .ok
      { version := version
        counter := { value := counter % 2 ^ 32, hasValue := true }
        input := input
        inputLength := n + body.length
        ratchetKey := { value := some (input + ratchetKeyOffset ratchetKey.length)
                        length := ratchetKey.length }
        ciphertext := { value := some (input + n), length := ciphertextLength } } := by
  simp only [messageHeader, List.length_cons, List.length_append] at hn
  simp only [messageHeader, List.cons_append, List.append_assoc] at h
  have hfields : buf.drop (input + 1) = tagged RATCHET_KEY_TAG ratchetKey.length ++ (ratchetKey ++
      (tagged COUNTER_TAG counter ++ (tagged CIPHERTEXT_TAG ciphertextLength ++ (body ++ rest)))) :=
    drop_add_of_drop_eq_append [version] h
  have hend : input + (n + body.length) - macLength = input + n + ciphertextLength := by omega
  rw [decodeMessage]
  simp only [hend, readByte_of_drop_eq_cons h, Checked.ok_bind, MessageReader.initial]
  have hpos := tagged_length RATCHET_KEY_TAG ratchetKey.length
  rw [if_neg (by omega), if_neg (by omega),
    decodeFields_of_end (messageFields_append _ hfields (by omega) hkey hsize) (by omega) (by omega),
    Nat.add_sub_cancel, ratchetKeyOffset, Nat.add_assoc]

/-! ## Pre-key messages -/

/-- What comes before the message embedded in a pre-key message. -/
def preKeyMessageHeader (version : UInt8) (prekey oneTimeKey baseKey identityKey : Bytes)
    (messageLength : ℕ) : Bytes :=
  version :: (tagged PREKEY_ID_TAG prekey.length ++ (prekey ++
    (tagged ONE_TIME_KEY_ID_TAG oneTimeKey.length ++ (oneTimeKey ++
    (tagged BASE_KEY_TAG baseKey.length ++ (baseKey ++
    (tagged IDENTITY_KEY_TAG identityKey.length ++ (identityKey ++
    tagged MESSAGE_TAG messageLength))))))))

theorem encodeOneTimeKeyMessageLength_eq (version : UInt8)
    (prekey oneTimeKey baseKey identityKey : Bytes) (messageLength : ℕ) :
    encodeOneTimeKeyMessageLength prekey.length identityKey.length baseKey.length
        oneTimeKey.length messageLength =
      (preKeyMessageHeader version prekey oneTimeKey baseKey identityKey messageLength).length +
        messageLength := by
  simp only [encodeOneTimeKeyMessageLength, VERSION_LENGTH, varstringLength, varintLength_eq,
    preKeyMessageHeader, List.length_cons, List.length_append, tagged_length]
  omega

/-- `encode_one_time_key_message` writes the header around four keys it
leaves for its caller to store. -/
theorem encodeOneTimeKeyMessage_append (version : UInt8)
    (prekey oneTimeKey baseKey identityKey : Bytes) (messageLength : ℕ) (pre room post : Bytes)
    (hlen : room.length =
      (preKeyMessageHeader version prekey oneTimeKey baseKey identityKey messageLength).length) :
    ∃ writer, encodeOneTimeKeyMessage version identityKey.length baseKey.length prekey.length
        oneTimeKey.length messageLength (pre ++ (room ++ post)) pre.length = .ok writer ∧
      writer.message = pre.length + room.length ∧
      (do
        let buf ← writeAt writer.buf writer.oneTimeKey oneTimeKey
        let buf ← writeAt buf writer.prekey prekey
        let buf ← writeAt buf writer.identityKey identityKey
        writeAt buf writer.baseKey baseKey) =
        .ok (pre ++ (preKeyMessageHeader version prekey oneTimeKey baseKey identityKey
          messageLength ++ post)) := by
  have htotal := hlen
  rw [preKeyMessageHeader, List.length_cons] at hlen
  simp only [List.length_append] at hlen
  obtain ⟨room₁, hroom₁, hversion⟩ := writeAt_singleton version pre room post hlen
  obtain ⟨s₁, room₂, hs₁, hroom₂, hprekey⟩ := encodeString_skip
    (n := (tagged ONE_TIME_KEY_ID_TAG oneTimeKey.length).length + oneTimeKey.length +
      (tagged BASE_KEY_TAG baseKey.length).length + baseKey.length +
      (tagged IDENTITY_KEY_TAG identityKey.length).length + identityKey.length +
      (tagged MESSAGE_TAG messageLength).length)
    PREKEY_ID_TAG prekey.length (pre ++ [version]) room₁ post (by omega)
  obtain ⟨s₂, room₃, hs₂, hroom₃, honeTimeKey⟩ := encodeString_skip
    (n := (tagged BASE_KEY_TAG baseKey.length).length + baseKey.length +
      (tagged IDENTITY_KEY_TAG identityKey.length).length + identityKey.length +
      (tagged MESSAGE_TAG messageLength).length)
    ONE_TIME_KEY_ID_TAG oneTimeKey.length
    (pre ++ [version] ++ tagged PREKEY_ID_TAG prekey.length ++ s₁) room₂ post (by omega)
  obtain ⟨s₃, room₄, hs₃, hroom₄, hbaseKey⟩ := encodeString_skip
    (n := (tagged IDENTITY_KEY_TAG identityKey.length).length + identityKey.length +
      (tagged MESSAGE_TAG messageLength).length)
    BASE_KEY_TAG baseKey.length
    (pre ++ [version] ++ tagged PREKEY_ID_TAG prekey.length ++ s₁ ++
      tagged ONE_TIME_KEY_ID_TAG oneTimeKey.length ++ s₂) room₃ post (by omega)
  obtain ⟨s₄, room₅, hs₄, hroom₅, hidentityKey⟩ := encodeString_skip
    (n := (tagged MESSAGE_TAG messageLength).length)
    IDENTITY_KEY_TAG identityKey.length
    (pre ++ [version] ++ tagged PREKEY_ID_TAG prekey.length ++ s₁ ++
      tagged ONE_TIME_KEY_ID_TAG oneTimeKey.length ++ s₂ ++
      tagged BASE_KEY_TAG baseKey.length ++ s₃) room₄ post (by omega)
  obtain ⟨room₆, hroom₆, hmessage⟩ := encodeString_room (n := 0) MESSAGE_TAG messageLength
    (pre ++ [version] ++ tagged PREKEY_ID_TAG prekey.length ++ s₁ ++
      tagged ONE_TIME_KEY_ID_TAG oneTimeKey.length ++ s₂ ++
      tagged BASE_KEY_TAG baseKey.length ++ s₃ ++
      tagged IDENTITY_KEY_TAG identityKey.length ++ s₄) room₅ post (by omega)
  -- nothing of the room is left
  rw [List.length_eq_zero_iff] at hroom₆
  subst hroom₆
  refine ⟨_, by
    rw [encodeOneTimeKeyMessage, hversion, Checked.ok_bind, length_append_singleton, hprekey]
    simp only [Checked.ok_bind, honeTimeKey, hbaseKey, hidentityKey, hmessage]
    rfl, ?_, ?_⟩
  · simp only [List.length_append, htotal, preKeyMessageHeader, List.length_cons, List.length_nil,
      hs₁, hs₂, hs₃, hs₄]
    omega
  · -- the keys are stored in the caller's order, each over what was there
    have hposId : (pre ++ [version] ++ tagged PREKEY_ID_TAG prekey.length ++ s₁ ++
          tagged ONE_TIME_KEY_ID_TAG oneTimeKey.length ++ s₂ ++ tagged BASE_KEY_TAG baseKey.length ++
          s₃ ++ tagged IDENTITY_KEY_TAG identityKey.length).length =
        (pre ++ [version] ++ tagged PREKEY_ID_TAG prekey.length ++ prekey ++
          tagged ONE_TIME_KEY_ID_TAG oneTimeKey.length ++ oneTimeKey ++
          tagged BASE_KEY_TAG baseKey.length ++ s₃ ++
          tagged IDENTITY_KEY_TAG identityKey.length).length := by
      simp only [List.length_append, hs₁, hs₂]
    have hposBase : (pre ++ [version] ++ tagged PREKEY_ID_TAG prekey.length ++ s₁ ++
          tagged ONE_TIME_KEY_ID_TAG oneTimeKey.length ++ s₂ ++
          tagged BASE_KEY_TAG baseKey.length).length =
        (pre ++ [version] ++ tagged PREKEY_ID_TAG prekey.length ++ prekey ++
          tagged ONE_TIME_KEY_ID_TAG oneTimeKey.length ++ oneTimeKey ++
          tagged BASE_KEY_TAG baseKey.length).length := by
      simp only [List.length_append, hs₁, hs₂]
    have hfillOne := writeAt_append (pre ++ [version] ++ tagged PREKEY_ID_TAG prekey.length ++ s₁ ++
        tagged ONE_TIME_KEY_ID_TAG oneTimeKey.length)
      (tagged BASE_KEY_TAG baseKey.length ++ s₃ ++ tagged IDENTITY_KEY_TAG identityKey.length ++
        s₄ ++ tagged MESSAGE_TAG messageLength ++ post) hs₂.symm
    have hfillPre := writeAt_append (pre ++ [version] ++ tagged PREKEY_ID_TAG prekey.length)
      (tagged ONE_TIME_KEY_ID_TAG oneTimeKey.length ++ oneTimeKey ++
        tagged BASE_KEY_TAG baseKey.length ++ s₃ ++ tagged IDENTITY_KEY_TAG identityKey.length ++
        s₄ ++ tagged MESSAGE_TAG messageLength ++ post) hs₁.symm
    have hfillId := writeAt_append (pre ++ [version] ++ tagged PREKEY_ID_TAG prekey.length ++
        prekey ++ tagged ONE_TIME_KEY_ID_TAG oneTimeKey.length ++ oneTimeKey ++
        tagged BASE_KEY_TAG baseKey.length ++ s₃ ++ tagged IDENTITY_KEY_TAG identityKey.length)
      (tagged MESSAGE_TAG messageLength ++ post) hs₄.symm
    have hfillBase := writeAt_append (pre ++ [version] ++ tagged PREKEY_ID_TAG prekey.length ++
        prekey ++ tagged ONE_TIME_KEY_ID_TAG oneTimeKey.length ++ oneTimeKey ++
        tagged BASE_KEY_TAG baseKey.length)
      (tagged IDENTITY_KEY_TAG identityKey.length ++ identityKey ++
        tagged MESSAGE_TAG messageLength ++ post) hs₃.symm
    rw [hposId, hposBase]
    simp only [List.append_assoc, List.cons_append, List.nil_append]
      at hfillOne hfillPre hfillId hfillBase ⊢
    simp only [hfillOne, Checked.ok_bind, hfillPre, hfillId, hfillBase, preKeyMessageHeader,
      List.append_assoc, List.cons_append]

/-- The fields of an encoded pre-key message, read in one round. -/
theorem preKeyMessageFields_append {buf prekey oneTimeKey baseKey identityKey rest : Bytes}
    {pos end_ messageLength : ℕ} (reader : PreKeyMessageReader)
    (h : buf.drop pos = tagged PREKEY_ID_TAG prekey.length ++ (prekey ++
      (tagged ONE_TIME_KEY_ID_TAG oneTimeKey.length ++ (oneTimeKey ++
      (tagged BASE_KEY_TAG baseKey.length ++ (baseKey ++
      (tagged IDENTITY_KEY_TAG identityKey.length ++ (identityKey ++
      (tagged MESSAGE_TAG messageLength ++ rest)))))))))
    (hend : pos + (tagged PREKEY_ID_TAG prekey.length).length + prekey.length +
      (tagged ONE_TIME_KEY_ID_TAG oneTimeKey.length).length + oneTimeKey.length +
      (tagged BASE_KEY_TAG baseKey.length).length + baseKey.length +
      (tagged IDENTITY_KEY_TAG identityKey.length).length + identityKey.length +
      (tagged MESSAGE_TAG messageLength).length + messageLength = end_)
    (hprekey : prekey.length < 2 ^ SIZE_WIDTH) (honeTimeKey : oneTimeKey.length < 2 ^ SIZE_WIDTH)
    (hbaseKey : baseKey.length < 2 ^ SIZE_WIDTH)
    (hidentityKey : identityKey.length < 2 ^ SIZE_WIDTH)
    (hmessage : messageLength < 2 ^ SIZE_WIDTH) :
    ∃ reader', preKeyMessageFields buf end_ pos reader = .ok (end_, reader') ∧
      reader'.version = reader.version ∧
      reader'.prekey.Reads buf prekey ∧ reader'.oneTimeKey.Reads buf oneTimeKey ∧
      reader'.baseKey.Reads buf baseKey ∧ reader'.identityKey.Reads buf identityKey ∧
      reader'.message = ⟨some (end_ - messageLength), messageLength⟩ := by
  have h₁ := drop_add_of_drop_eq_append _ h
  have h₂ := drop_add_of_drop_eq_append _ h₁
  have h₃ := drop_add_of_drop_eq_append _ h₂
  have h₄ := drop_add_of_drop_eq_append _ h₃
  have h₅ := drop_add_of_drop_eq_append _ h₄
  have h₆ := drop_add_of_drop_eq_append _ h₅
  have h₇ := drop_add_of_drop_eq_append _ h₆
  have h₈ := drop_add_of_drop_eq_append _ h₇
  subst hend
  refine ⟨_, by
    rw [preKeyMessageFields, decodeString_append _ h (by omega) hprekey]
    simp only [Checked.ok_bind]
    rw [decodeString_append _ h₂ (by omega) honeTimeKey]
    simp only [Checked.ok_bind]
    rw [decodeString_append _ h₄ (by omega) hbaseKey]
    simp only [Checked.ok_bind]
    rw [decodeString_append _ h₆ (by omega) hidentityKey]
    simp only [Checked.ok_bind]
    rw [decodeString_append _ h₈ (by omega) hmessage]
    simp only [Checked.ok_bind]
    rfl, ?_⟩
  exact ⟨rfl, ⟨_, _, rfl, h₁⟩, ⟨_, _, rfl, h₃⟩, ⟨_, _, rfl, h₅⟩, ⟨_, _, rfl, h₇⟩,
    by rw [Nat.add_sub_cancel]⟩

/-- **A pre-key message is decoded to what was encoded.** -/
theorem decodeOneTimeKeyMessage_append
    {buf prekey oneTimeKey baseKey identityKey message rest : Bytes} {version : UInt8}
    {input n : ℕ}
    (h : buf.drop input = preKeyMessageHeader version prekey oneTimeKey baseKey identityKey
      message.length ++ (message ++ rest))
    (hn : n = (preKeyMessageHeader version prekey oneTimeKey baseKey identityKey
      message.length).length)
    (hprekey : prekey.length < 2 ^ SIZE_WIDTH) (honeTimeKey : oneTimeKey.length < 2 ^ SIZE_WIDTH)
    (hbaseKey : baseKey.length < 2 ^ SIZE_WIDTH)
    (hidentityKey : identityKey.length < 2 ^ SIZE_WIDTH)
    (hmessage : message.length < 2 ^ SIZE_WIDTH) :
    ∃ reader, decodeOneTimeKeyMessage buf input (n + message.length) = .ok reader ∧
      reader.version = version ∧
      reader.prekey.Reads buf prekey ∧ reader.oneTimeKey.Reads buf oneTimeKey ∧
      reader.baseKey.Reads buf baseKey ∧ reader.identityKey.Reads buf identityKey ∧
      reader.message = ⟨some (input + n), message.length⟩ := by
  simp only [preKeyMessageHeader, List.length_cons, List.length_append] at hn
  simp only [preKeyMessageHeader, List.cons_append, List.append_assoc] at h
  have hfields : buf.drop (input + 1) = tagged PREKEY_ID_TAG prekey.length ++ (prekey ++
      (tagged ONE_TIME_KEY_ID_TAG oneTimeKey.length ++ (oneTimeKey ++
      (tagged BASE_KEY_TAG baseKey.length ++ (baseKey ++
      (tagged IDENTITY_KEY_TAG identityKey.length ++ (identityKey ++
      (tagged MESSAGE_TAG message.length ++ (message ++ rest))))))))) :=
    drop_add_of_drop_eq_append [version] h
  have hpos := tagged_length PREKEY_ID_TAG prekey.length
  have hend : input + 1 + (tagged PREKEY_ID_TAG prekey.length).length + prekey.length +
      (tagged ONE_TIME_KEY_ID_TAG oneTimeKey.length).length + oneTimeKey.length +
      (tagged BASE_KEY_TAG baseKey.length).length + baseKey.length +
      (tagged IDENTITY_KEY_TAG identityKey.length).length + identityKey.length +
      (tagged MESSAGE_TAG message.length).length + message.length =
      input + (n + message.length) := by omega
  obtain ⟨reader, hread, hversion, hpre, hone, hbase, hid, hmsg⟩ := preKeyMessageFields_append
    ⟨version, .absent, .absent, .absent, .absent, .absent⟩ hfields hend
    hprekey honeTimeKey hbaseKey hidentityKey hmessage
  refine ⟨reader, ?_, hversion, hpre, hone, hbase, hid, ?_⟩
  · simp only [decodeOneTimeKeyMessage, readByte_of_drop_eq_cons h, Checked.ok_bind,
      PreKeyMessageReader.initial]
    rw [if_neg (by omega), decodeFields_of_end hread (by omega) (by omega)]
  · rw [hmsg, ← Nat.add_assoc, Nat.add_sub_cancel]

/-! ## Group messages -/

/-- What comes before the ciphertext of a group message. -/
def groupMessageHeader (version : UInt8) (messageIndex ciphertextLength : ℕ) : Bytes :=
  version :: (tagged GROUP_MESSAGE_INDEX_TAG messageIndex ++
    tagged GROUP_CIPHERTEXT_TAG ciphertextLength)

theorem encodeGroupMessageLength_eq (version : UInt8)
    (messageIndex ciphertextLength macLength signatureLength : ℕ) :
    encodeGroupMessageLength messageIndex ciphertextLength macLength signatureLength =
      (groupMessageHeader version messageIndex ciphertextLength).length +
        (ciphertextLength + macLength + signatureLength) := by
  simp only [encodeGroupMessageLength, VERSION_LENGTH, varstringLength, varintLength_eq,
    groupMessageHeader, List.length_cons, List.length_append, tagged_length]
  omega

/-- `_olm_encode_group_message` writes the header and returns where it ends
and the ciphertext would. -/
theorem encodeGroupMessage_append (version : UInt8) (messageIndex ciphertextLength : ℕ)
    (pre room post : Bytes)
    (hlen : room.length = (groupMessageHeader version messageIndex ciphertextLength).length) :
    encodeGroupMessage version messageIndex ciphertextLength (pre ++ (room ++ post)) pre.length =
      .ok { buf := pre ++ (groupMessageHeader version messageIndex ciphertextLength ++ post)
            ciphertext := pre.length + room.length
            length := room.length + ciphertextLength } := by
  have htotal := hlen
  rw [groupMessageHeader, List.length_cons, List.length_append] at hlen
  obtain ⟨room₁, hroom₁, hversion⟩ := writeAt_singleton version pre room post hlen
  obtain ⟨room₂, hroom₂, hindex⟩ := encodeInt_room
    (n := (tagged GROUP_CIPHERTEXT_TAG ciphertextLength).length) GROUP_MESSAGE_INDEX_TAG
    messageIndex (pre ++ [version]) room₁ post (by omega)
  obtain ⟨room₃, hroom₃, hciphertext⟩ := encodeString_room (n := 0) GROUP_CIPHERTEXT_TAG
    ciphertextLength (pre ++ [version] ++ tagged GROUP_MESSAGE_INDEX_TAG messageIndex) room₂ post
    (by omega)
  rw [List.length_eq_zero_iff] at hroom₃
  subst hroom₃
  have hpos : (pre ++ [version] ++ tagged GROUP_MESSAGE_INDEX_TAG messageIndex ++
      tagged GROUP_CIPHERTEXT_TAG ciphertextLength).length = pre.length + room.length := by
    simp only [List.length_append, htotal, groupMessageHeader, List.length_cons, List.length_nil]
    omega
  rw [encodeGroupMessage, hversion, Checked.ok_bind, length_append_singleton, hindex]
  simp only [Checked.ok_bind, hciphertext, hpos]
  simp only [groupMessageHeader, List.append_assoc, List.nil_append, List.cons_append]
  rw [Nat.add_assoc, Nat.add_sub_cancel_left]

/-- **A group message is decoded to what was encoded.** -/
theorem decodeGroupMessage_append {body rest : Bytes} {version : UInt8}
    {messageIndex ciphertextLength macLength signatureLength n : ℕ}
    (hbody : body.length = ciphertextLength + macLength + signatureLength)
    (hn : n = (groupMessageHeader version messageIndex ciphertextLength).length)
    (hsize : ciphertextLength < 2 ^ SIZE_WIDTH) :
    decodeGroupMessage
        (groupMessageHeader version messageIndex ciphertextLength ++ (body ++ rest))
        (n + body.length) macLength signatureLength = .ok
      { version := version
        messageIndex := { value := messageIndex % 2 ^ 32, hasValue := true }
        ciphertext := { value := some n, length := ciphertextLength } } := by
  simp only [groupMessageHeader, List.length_cons, List.length_append] at hn
  have hread : ∀ buf : Bytes, buf.drop 0 = version :: (tagged GROUP_MESSAGE_INDEX_TAG messageIndex ++
      (tagged GROUP_CIPHERTEXT_TAG ciphertextLength ++ (body ++ rest))) →
      decodeGroupMessage buf (n + body.length) macLength signatureLength = .ok
      { version := version
        messageIndex := { value := messageIndex % 2 ^ 32, hasValue := true }
        ciphertext := { value := some n, length := ciphertextLength } } := by
    intro buf h
    have hindex : buf.drop 1 = tagged GROUP_MESSAGE_INDEX_TAG messageIndex ++
        (tagged GROUP_CIPHERTEXT_TAG ciphertextLength ++ (body ++ rest)) :=
      drop_add_of_drop_eq_append [version] h
    have hciphertext := drop_add_of_drop_eq_append _ hindex
    have hend : n + body.length - (macLength + signatureLength) = n + ciphertextLength := by omega
    have hfields : groupMessageFields buf (n + ciphertextLength) 1
        ⟨version, .absent, .absent⟩ = .ok (n + ciphertextLength,
          ⟨version, ⟨messageIndex % 2 ^ 32, true⟩, ⟨some n, ciphertextLength⟩⟩) := by
      have hstart : 1 + (tagged GROUP_MESSAGE_INDEX_TAG messageIndex).length +
          (tagged GROUP_CIPHERTEXT_TAG ciphertextLength).length = n := by omega
      rw [groupMessageFields, decodeInt_append _ hindex (by omega)]
      simp only [Checked.ok_bind]
      rw [decodeString_append _ hciphertext (by omega) hsize, hstart]
      rfl
    have hpos := tagged_length GROUP_CIPHERTEXT_TAG ciphertextLength
    simp only [decodeGroupMessage, hend, readByte_of_drop_eq_cons h, Checked.ok_bind,
      GroupMessageReader.initial]
    rw [if_neg (by omega), if_neg (by omega), decodeFields_of_end hfields (by omega) (by omega)]
  exact hread _ (by simp only [groupMessageHeader, List.drop_zero, List.cons_append,
    List.append_assoc])

end Olm
