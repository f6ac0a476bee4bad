import Olm.Common.Bytes

/-!
# The message formats

`src/message.cpp`. A pointer is an offset into the buffer that holds the
message, a null pointer is `none`, and every byte goes through `readByte`
or `writeAt`, so a decoder that ran past its message would return a
`Fault`. An encoder leaves the bytes its writer points at as they were:
its caller fills them in.

The loops of the source that walk a pointer up to another take the
distance as fuel, and report `Fault.diverges` where the pointer would
have run past.
-/

namespace Olm

/-! ## Variable-length integers -/

/-- `varint_length`. -/
def varintLength (value : ℕ) : ℕ :=
  if 128 ≤ value then varintLength (value >>> 7) + 1 else 1
termination_by value
decreasing_by rw [Nat.shiftRight_eq_div_pow]; omega

/-- `varint_encode`: the buffer, and the position after the last byte. -/
def varintEncode (buf : Bytes) (output value : ℕ) : Checked (Bytes × ℕ) :=
  if 128 ≤ value then do
    let buf ← writeAt buf output [UInt8.ofNat (0x7F &&& value ||| 0x80)]
    varintEncode buf (output + 1) (value >>> 7)
  else do
    let buf ← writeAt buf output [UInt8.ofNat value]
    .ok (buf, output + 1)
termination_by value
decreasing_by rw [Nat.shiftRight_eq_div_pow]; omega

/-- The loop of `varint_decode`, from the last of `count` bytes down. -/
def varintDecodeLoop (width : ℕ) (buf : Bytes) (varintStart : ℕ) : ℕ → ℕ → Checked ℕ
  | 0, value => .ok value
  | count + 1, value => do
    let b ← readByte buf (varintStart + count)
    varintDecodeLoop width buf varintStart count
      ((value <<< 7) % 2 ^ width ||| (0x7F &&& b).toNat)

/-- `varint_decode<T>`, where `T` has `width` bits. -/
def varintDecode (width : ℕ) (buf : Bytes) (varintStart varintEnd : ℕ) : Checked ℕ :=
  if varintEnd < varintStart then .error .diverges
  else varintDecodeLoop width buf varintStart (varintEnd - varintStart) 0

/-- The loop of `varint_skip`, with `count` bytes left. -/
def varintSkipLoop (buf : Bytes) : (count input : ℕ) → Checked ℕ
  | 0, input => .ok input
  | count + 1, input => do
    let tmp ← readByte buf input
    if tmp &&& 0x80 = 0 then .ok (input + 1) else varintSkipLoop buf count (input + 1)

/-- `varint_skip`. -/
def varintSkip (buf : Bytes) (input inputEnd : ℕ) : Checked ℕ :=
  if inputEnd < input then .error .diverges
  else varintSkipLoop buf (inputEnd - input) input

/-- `varstring_length`. -/
def varstringLength (stringLength : ℕ) : ℕ := varintLength stringLength + stringLength

/-- The bits of a `std::size_t`. -/
abbrev SIZE_WIDTH : ℕ := 64

/-! ## Tagged fields -/

/-- `encode` of an integer: its tag and its value. -/
def encodeInt (buf : Bytes) (pos : ℕ) (tag : UInt8) (value : ℕ) : Checked (Bytes × ℕ) := do
  let buf ← writeAt buf pos [tag]
  varintEncode buf (pos + 1) value

/-- Where `encode` of a string leaves the buffer, the string and the
position after it. -/
structure EncodedString where
  buf : Bytes
  value : ℕ
  pos : ℕ

/-- `encode` of a string: its tag, its length, and room for its bytes. -/
def encodeString (buf : Bytes) (pos : ℕ) (tag : UInt8) (valueLength : ℕ) :
    Checked EncodedString := do
  let buf ← writeAt buf pos [tag]
  let (buf, pos) ← varintEncode buf (pos + 1) valueLength
  .ok { buf := buf, value := pos, pos := pos + valueLength }

/-- An integer a reader may have found: `value` and `has_value`. -/
structure IntField where
  value : ℕ
  hasValue : Bool
  deriving DecidableEq, Repr

/-- A string a reader may have found: the pointer and the length. -/
structure StringField where
  value : Option ℕ
  length : ℕ
  deriving DecidableEq, Repr

/-- `0` and `false`. -/
def IntField.absent : IntField := { value := 0, hasValue := false }

/-- `nullptr` and `0`. -/
def StringField.absent : StringField := { value := none, length := 0 }

/-- `pos != end && *pos == tag`. -/
def atTag (buf : Bytes) (pos end_ : ℕ) (tag : UInt8) : Checked Bool :=
  if pos = end_ then .ok false else do
    let b ← readByte buf pos
    .ok (b == tag)

/-- `decode` of an integer. -/
def decodeInt (buf : Bytes) (end_ : ℕ) (tag : UInt8) (pos : ℕ) (field : IntField) :
    Checked (ℕ × IntField) := do
  if ← atTag buf pos end_ tag then
    let valueStart := pos + 1
    let pos ← varintSkip buf valueStart end_
    let value ← varintDecode 32 buf valueStart pos
    .ok (pos, { value := value, hasValue := true })
  else .ok (pos, field)

/-- `decode` of a string. -/
def decodeString (buf : Bytes) (end_ : ℕ) (tag : UInt8) (pos : ℕ) (field : StringField) :
    Checked (ℕ × StringField) := do
  if ← atTag buf pos end_ tag then
    let lenStart := pos + 1
    let pos ← varintSkip buf lenStart end_
    let len ← varintDecode SIZE_WIDTH buf lenStart pos
    if len > end_ - pos then .ok (end_, field)
    else .ok (pos + len, { value := some pos, length := len })
  else .ok (pos, field)

/-- `skip_unknown`. -/
def skipUnknown (buf : Bytes) (pos end_ : ℕ) : Checked ℕ :=
  if pos = end_ then .ok pos else do
    let tag ← readByte buf pos
    if tag &&& 0x7 = 0 then
      let pos ← varintSkip buf pos end_
      varintSkip buf pos end_
    else if tag &&& 0x7 = 2 then
      let pos ← varintSkip buf pos end_
      let lenStart := pos
      let pos ← varintSkip buf pos end_
      let len ← varintDecode SIZE_WIDTH buf lenStart pos
      if len > end_ - pos then .ok end_ else .ok (pos + len)
    else .ok end_

/-- The loop of the three decoders. `fields` is its run of `decode`
calls, one for each tag of the format; when none of them moved, the field
is unknown and skipped. -/
def decodeFields {Reader : Type} (buf : Bytes) (end_ : ℕ)
    (fields : ℕ → Reader → Checked (ℕ × Reader)) : (fuel pos : ℕ) → Reader → Checked Reader
  | 0, pos, reader => if pos = end_ then .ok reader else .error .diverges
  | fuel + 1, pos, reader =>
    if pos = end_ then .ok reader else do
      let unknown := pos
      let (pos, reader) ← fields pos reader
      let pos ← if unknown = pos then skipUnknown buf pos end_ else .ok pos
      decodeFields buf end_ fields fuel pos reader

/-! ## Messages -/

/-- `VERSION_LENGTH`. -/
def VERSION_LENGTH : ℕ := 1

/-- `RATCHET_KEY_TAG`. -/
def RATCHET_KEY_TAG : UInt8 := 0o12

/-- `COUNTER_TAG`. -/
def COUNTER_TAG : UInt8 := 0o20

/-- `CIPHERTEXT_TAG`. -/
def CIPHERTEXT_TAG : UInt8 := 0o42

/-- `encode_message_length`. -/
def encodeMessageLength (counter ratchetKeyLength ciphertextLength macLength : ℕ) : ℕ :=
  VERSION_LENGTH + (1 + varstringLength ratchetKeyLength) + (1 + varintLength counter) +
    (1 + varstringLength ciphertextLength) + macLength

/-- `MessageWriter`, and the buffer it points into. -/
structure MessageWriter where
  buf : Bytes
  ratchetKey : ℕ
  ciphertext : ℕ

/-- `encode_message`. -/
def encodeMessage (version : UInt8) (counter ratchetKeyLength ciphertextLength : ℕ)
    (buf : Bytes) (output : ℕ) : Checked MessageWriter := do
  let buf ← writeAt buf output [version]
  let ratchetKey ← encodeString buf (output + 1) RATCHET_KEY_TAG ratchetKeyLength
  let (buf, pos) ← encodeInt ratchetKey.buf ratchetKey.pos COUNTER_TAG counter
  let ciphertext ← encodeString buf pos CIPHERTEXT_TAG ciphertextLength
  .ok { buf := ciphertext.buf, ratchetKey := ratchetKey.value, ciphertext := ciphertext.value }

/-- `MessageReader`. -/
structure MessageReader where
  version : UInt8
  counter : IntField
  input : ℕ
  inputLength : ℕ
  ratchetKey : StringField
  ciphertext : StringField
  deriving DecidableEq, Repr

/-- The reader before anything has been decoded. -/
def MessageReader.initial (input inputLength : ℕ) : MessageReader where
  version := 0
  counter := .absent
  input := input
  inputLength := inputLength
  ratchetKey := .absent
  ciphertext := .absent

/-- The fields of a message. -/
def messageFields (buf : Bytes) (end_ pos : ℕ) (reader : MessageReader) :
    Checked (ℕ × MessageReader) := do
  let (pos, ratchetKey) ← decodeString buf end_ RATCHET_KEY_TAG pos reader.ratchetKey
  let (pos, counter) ← decodeInt buf end_ COUNTER_TAG pos reader.counter
  let (pos, ciphertext) ← decodeString buf end_ CIPHERTEXT_TAG pos reader.ciphertext
  .ok (pos, { reader with ratchetKey := ratchetKey, counter := counter, ciphertext := ciphertext })

/-- `decode_message`, of the `inputLength` bytes of `buf` from `input` on. -/
def decodeMessage (buf : Bytes) (input inputLength macLength : ℕ) : Checked MessageReader :=
  let reader := MessageReader.initial input inputLength
  if inputLength < macLength then .ok reader
  else
    let end_ := input + inputLength - macLength
    if input = end_ then .ok reader
    else do
      let version ← readByte buf input
      decodeFields buf end_ (messageFields buf end_) (end_ - input) (input + 1)
        { reader with version := version }

/-! ## Pre-key messages -/

/-- `ONE_TIME_KEY_ID_TAG`. -/
def ONE_TIME_KEY_ID_TAG : UInt8 := 0o12

/-- `PREKEY_ID_TAG`. -/
def PREKEY_ID_TAG : UInt8 := 0o52

/-- `BASE_KEY_TAG`. -/
def BASE_KEY_TAG : UInt8 := 0o22

/-- `IDENTITY_KEY_TAG`. -/
def IDENTITY_KEY_TAG : UInt8 := 0o32

/-- `MESSAGE_TAG`. -/
def MESSAGE_TAG : UInt8 := 0o42

/-- `encode_one_time_key_message_length`. -/
def encodeOneTimeKeyMessageLength (prekeyLength identityKeyLength baseKeyLength oneTimeKeyLength
    messageLength : ℕ) : ℕ :=
  VERSION_LENGTH + (1 + varstringLength prekeyLength) + (1 + varstringLength oneTimeKeyLength) +
    (1 + varstringLength identityKeyLength) + (1 + varstringLength baseKeyLength) +
    (1 + varstringLength messageLength)

/-- `PreKeyMessageWriter`, and the buffer it points into. -/
structure PreKeyMessageWriter where
  buf : Bytes
  identityKey : ℕ
  baseKey : ℕ
  prekey : ℕ
  oneTimeKey : ℕ
  message : ℕ

/-- `encode_one_time_key_message`. -/
def encodeOneTimeKeyMessage (version : UInt8) (identityKeyLength baseKeyLength prekeyLength
    oneTimeKeyLength messageLength : ℕ) (buf : Bytes) (output : ℕ) :
    Checked PreKeyMessageWriter := do
  let buf ← writeAt buf output [version]
  let prekey ← encodeString buf (output + 1) PREKEY_ID_TAG prekeyLength
  let oneTimeKey ← encodeString prekey.buf prekey.pos ONE_TIME_KEY_ID_TAG oneTimeKeyLength
  let baseKey ← encodeString oneTimeKey.buf oneTimeKey.pos BASE_KEY_TAG baseKeyLength
  let identityKey ← encodeString baseKey.buf baseKey.pos IDENTITY_KEY_TAG identityKeyLength
  let message ← encodeString identityKey.buf identityKey.pos MESSAGE_TAG messageLength
  .ok { buf := message.buf, identityKey := identityKey.value, baseKey := baseKey.value
        prekey := prekey.value, oneTimeKey := oneTimeKey.value, message := message.value }

/-- `PreKeyMessageReader`. -/
structure PreKeyMessageReader where
  version : UInt8
  identityKey : StringField
  baseKey : StringField
  prekey : StringField
  oneTimeKey : StringField
  message : StringField
  deriving DecidableEq, Repr

/-- The reader before anything has been decoded. -/
def PreKeyMessageReader.initial : PreKeyMessageReader where
  version := 0
  identityKey := .absent
  baseKey := .absent
  prekey := .absent
  oneTimeKey := .absent
  message := .absent

/-- The fields of a pre-key message. -/
def preKeyMessageFields (buf : Bytes) (end_ pos : ℕ) (reader : PreKeyMessageReader) :
    Checked (ℕ × PreKeyMessageReader) := do
  let (pos, prekey) ← decodeString buf end_ PREKEY_ID_TAG pos reader.prekey
  let (pos, oneTimeKey) ← decodeString buf end_ ONE_TIME_KEY_ID_TAG pos reader.oneTimeKey
  let (pos, baseKey) ← decodeString buf end_ BASE_KEY_TAG pos reader.baseKey
  let (pos, identityKey) ← decodeString buf end_ IDENTITY_KEY_TAG pos reader.identityKey
  let (pos, message) ← decodeString buf end_ MESSAGE_TAG pos reader.message
  .ok (pos, { reader with prekey := prekey, oneTimeKey := oneTimeKey, baseKey := baseKey
                          identityKey := identityKey, message := message })

/-- `decode_one_time_key_message`, of the `inputLength` bytes of `buf` from
`input` on. -/
def decodeOneTimeKeyMessage (buf : Bytes) (input inputLength : ℕ) : Checked PreKeyMessageReader :=
  let reader := PreKeyMessageReader.initial
  let end_ := input + inputLength
  if input = end_ then .ok reader
  else do
    let version ← readByte buf input
    decodeFields buf end_ (preKeyMessageFields buf end_) (end_ - input) (input + 1)
      { reader with version := version }

/-! ## Group messages -/

/-- `GROUP_MESSAGE_INDEX_TAG`. -/
def GROUP_MESSAGE_INDEX_TAG : UInt8 := 0o10

/-- `GROUP_CIPHERTEXT_TAG`. -/
def GROUP_CIPHERTEXT_TAG : UInt8 := 0o22

/-- `_olm_encode_group_message_length`. -/
def encodeGroupMessageLength (messageIndex ciphertextLength macLength signatureLength : ℕ) : ℕ :=
  VERSION_LENGTH + (1 + varintLength messageIndex) + (1 + varstringLength ciphertextLength) +
    macLength + signatureLength

/-- What `_olm_encode_group_message` leaves: the buffer, the pointer to the
ciphertext and the number of bytes up to its end. -/
structure GroupMessageWriter where
  buf : Bytes
  ciphertext : ℕ
  length : ℕ

/-- `_olm_encode_group_message`. -/
def encodeGroupMessage (version : UInt8) (messageIndex ciphertextLength : ℕ) (buf : Bytes)
    (output : ℕ) : Checked GroupMessageWriter := do
  let buf ← writeAt buf output [version]
  let (buf, pos) ← encodeInt buf (output + 1) GROUP_MESSAGE_INDEX_TAG messageIndex
  let ciphertext ← encodeString buf pos GROUP_CIPHERTEXT_TAG ciphertextLength
  .ok { buf := ciphertext.buf, ciphertext := ciphertext.value, length := ciphertext.pos - output }

/-- `_OlmDecodeGroupMessageResults`. -/
structure GroupMessageReader where
  version : UInt8
  messageIndex : IntField
  ciphertext : StringField
  deriving DecidableEq, Repr

/-- The reader before anything has been decoded. -/
def GroupMessageReader.initial : GroupMessageReader where
  version := 0
  messageIndex := .absent
  ciphertext := .absent

/-- The fields of a group message. -/
def groupMessageFields (buf : Bytes) (end_ pos : ℕ) (reader : GroupMessageReader) :
    Checked (ℕ × GroupMessageReader) := do
  let (pos, messageIndex) ← decodeInt buf end_ GROUP_MESSAGE_INDEX_TAG pos reader.messageIndex
  let (pos, ciphertext) ← decodeString buf end_ GROUP_CIPHERTEXT_TAG pos reader.ciphertext
  .ok (pos, { reader with messageIndex := messageIndex, ciphertext := ciphertext })

/-- `_olm_decode_group_message`, of the first `inputLength` bytes of `buf`. -/
def decodeGroupMessage (buf : Bytes) (inputLength macLength signatureLength : ℕ) :
    Checked GroupMessageReader :=
  let reader := GroupMessageReader.initial
  let trailerLength := macLength + signatureLength
  if inputLength < trailerLength then .ok reader
  else
    let end_ := inputLength - trailerLength
    if end_ = 0 then .ok reader
    else do
      let version ← readByte buf 0
      decodeFields buf end_ (groupMessageFields buf end_) end_ 1
        { reader with version := version }

end Olm
