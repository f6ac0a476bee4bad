import Olm.Message.RoundTrip

/-!
# The three formats round trip

A format is three pieces of code: a length, an encoder that its caller
fills in, and a decoder. `Fills` says that encoder and caller together
write a string of exactly the length, whatever the room held and whatever
lies around it; the decoder of the format gives the contents back, and the
trailer starts where the last field ends (`formats_roundTrip`).
-/

namespace Olm

/-- `fill` writes this string, and nothing else, into any room of this
length. -/
structure Fills (fill : Bytes → ℕ → Checked Bytes) (length : ℕ) (bytes : Bytes) : Prop where
  length_eq : bytes.length = length
  fills : ∀ pre room post : Bytes, room.length = length →
    fill (pre ++ (room ++ post)) pre.length = .ok (pre ++ (bytes ++ post))

/-- The string was found, and the byte after its last is at `pos`. -/
def StringField.EndsAt (field : StringField) (pos : ℕ) : Prop :=
  ∃ start, field.value = some start ∧ start + field.length = pos

/-! ## Messages -/

/-- `encode_message`, filled in as `Ratchet::encrypt` does, and the MAC behind
the ciphertext. -/
def fillMessage (version : UInt8) (counter : UInt32) (ratchetKey ciphertext mac : Bytes)
    (buf : Bytes) (output : ℕ) : Checked Bytes := do
  let writer ← encodeMessage version counter.toNat ratchetKey.length ciphertext.length buf output
  let buf ← writeAt writer.buf writer.ratchetKey ratchetKey
  let buf ← writeAt buf writer.ciphertext ciphertext
  writeAt buf (writer.ciphertext + ciphertext.length) mac

/-- A message: its header, its ciphertext and its MAC. -/
def messageBytes (version : UInt8) (counter : UInt32) (ratchetKey ciphertext mac : Bytes) : Bytes :=
  messageHeader version ratchetKey counter.toNat ciphertext.length ++ (ciphertext ++ mac)

theorem fillMessage_fills (version : UInt8) (counter : UInt32)
    (ratchetKey ciphertext mac : Bytes) :
    Fills (fillMessage version counter ratchetKey ciphertext mac)
      (encodeMessageLength counter.toNat ratchetKey.length ciphertext.length mac.length)
      (messageBytes version counter ratchetKey ciphertext mac) := by
  have hlength := encodeMessageLength_eq version ratchetKey counter.toNat ciphertext.length mac.length
  refine ⟨by rw [hlength, messageBytes, List.length_append, List.length_append], ?_⟩
  intro pre room post hroom
  rw [hlength] at hroom
  -- the room of the header, of the ciphertext and of the MAC
  obtain ⟨room₁, rest, rfl, hroom₁, hrest⟩ := exists_cut hroom
  obtain ⟨room₂, room₃, rfl, hroom₂, hroom₃⟩ := exists_cut hrest
  obtain ⟨writer, hwriter, hciphertext, hkey⟩ := encodeMessage_append version counter.toNat
    ciphertext.length ratchetKey pre room₁ (room₂ ++ room₃ ++ post) hroom₁
  obtain ⟨header, hheader⟩ :
      ∃ header, messageHeader version ratchetKey counter.toNat ciphertext.length = header := ⟨_, rfl⟩
  rw [hheader] at hroom₁ hkey
  have hfill := writeAt_append (pre ++ header) (room₃ ++ post) hroom₂.symm
  have hmac := writeAt_append (pre ++ header ++ ciphertext) post hroom₃.symm
  simp only [List.append_assoc, List.length_append] at hwriter hkey hfill hmac ⊢
  rw [fillMessage, hwriter, Checked.ok_bind, hkey, Checked.ok_bind, hciphertext, hroom₁, hfill,
    Checked.ok_bind, Nat.add_assoc, hmac, messageBytes, hheader]
  simp only [List.append_assoc]

/-- What `decode_message` returns for these contents. -/
structure MessageReader.Returns (reader : MessageReader) (buf : Bytes) (version : UInt8)
    (counter : UInt32) (ratchetKey ciphertext : Bytes) (trailer : ℕ) : Prop where
  version_eq : reader.version = version
  counter_eq : reader.counter = { value := counter.toNat, hasValue := true }
  ratchetKey_reads : reader.ratchetKey.Reads buf ratchetKey
  ciphertext_reads : reader.ciphertext.Reads buf ciphertext
  trailer_after : reader.ciphertext.EndsAt trailer

theorem decodeMessage_messageBytes (version : UInt8) (counter : UInt32)
    (ratchetKey ciphertext mac pre post : Bytes)
    (hsize : (messageBytes version counter ratchetKey ciphertext mac).length < 2 ^ SIZE_WIDTH) :
    ∃ reader, decodeMessage (pre ++ (messageBytes version counter ratchetKey ciphertext mac ++ post))
        pre.length (messageBytes version counter ratchetKey ciphertext mac).length mac.length =
        .ok reader ∧
      reader.Returns (pre ++ (messageBytes version counter ratchetKey ciphertext mac ++ post)) version
        counter ratchetKey ciphertext
        (pre.length + ((messageBytes version counter ratchetKey ciphertext mac).length -
          mac.length)) := by
  have hheader : ratchetKey.length ≤
      (messageHeader version ratchetKey counter.toNat ciphertext.length).length := by
    simp only [messageHeader, List.length_cons, List.length_append]
    omega
  have hlength : (messageBytes version counter ratchetKey ciphertext mac).length =
      (messageHeader version ratchetKey counter.toNat ciphertext.length).length +
        (ciphertext ++ mac).length := List.length_append
  have hbody : (ciphertext ++ mac).length = ciphertext.length + mac.length := List.length_append
  have hdrop : (pre ++ (messageBytes version counter ratchetKey ciphertext mac ++ post)).drop
      pre.length = messageHeader version ratchetKey counter.toNat ciphertext.length ++
        (ciphertext ++ mac ++ post) := by
    rw [List.drop_left, messageBytes, List.append_assoc]
  have hread := decodeMessage_append hdrop hbody rfl (by omega) (by omega)
  rw [← hlength] at hread
  have hkey : (pre ++ (messageBytes version counter ratchetKey ciphertext mac ++ post)).drop
      (pre.length + ratchetKeyOffset ratchetKey.length) = ratchetKey ++
        (tagged COUNTER_TAG counter.toNat ++ tagged CIPHERTEXT_TAG ciphertext.length ++
          (ciphertext ++ mac ++ post)) := by
    have hcut : messageHeader version ratchetKey counter.toNat ciphertext.length =
        (version :: tagged RATCHET_KEY_TAG ratchetKey.length) ++ (ratchetKey ++
          (tagged COUNTER_TAG counter.toNat ++ tagged CIPHERTEXT_TAG ciphertext.length)) := rfl
    rw [ratchetKeyOffset, ← List.drop_drop, hdrop, hcut, List.append_assoc,
      List.drop_left' (by rw [List.length_cons, Nat.add_comm]), List.append_assoc]
  have htext := drop_add_of_drop_eq_append _ hdrop
  rw [List.append_assoc] at htext
  refine ⟨_, hread, rfl, ?_, ⟨_, _, rfl, hkey⟩, ⟨_, _, rfl, htext⟩, ⟨_, rfl, ?_⟩⟩
  · rw [Nat.mod_eq_of_lt counter.toNat_lt]
  · simp only
    omega

/-! ## Pre-key messages -/

/-- `encode_one_time_key_message`, filled in as `Session::encrypt` does. -/
def fillOneTimeKeyMessage (version : UInt8)
    (identityKey baseKey prekey oneTimeKey message : Bytes) (buf : Bytes) (output : ℕ) :
    Checked Bytes := do
  let writer ← encodeOneTimeKeyMessage version identityKey.length baseKey.length prekey.length
    oneTimeKey.length message.length buf output
  let buf ← writeAt writer.buf writer.oneTimeKey oneTimeKey
  let buf ← writeAt buf writer.prekey prekey
  let buf ← writeAt buf writer.identityKey identityKey
  let buf ← writeAt buf writer.baseKey baseKey
  writeAt buf writer.message message

/-- A pre-key message: its header and the message embedded in it. -/
def preKeyMessageBytes (version : UInt8)
    (identityKey baseKey prekey oneTimeKey message : Bytes) : Bytes :=
  preKeyMessageHeader version prekey oneTimeKey baseKey identityKey message.length ++ message

theorem fillOneTimeKeyMessage_fills (version : UInt8)
    (identityKey baseKey prekey oneTimeKey message : Bytes) :
    Fills (fillOneTimeKeyMessage version identityKey baseKey prekey oneTimeKey message)
      (encodeOneTimeKeyMessageLength prekey.length identityKey.length baseKey.length
        oneTimeKey.length message.length)
      (preKeyMessageBytes version identityKey baseKey prekey oneTimeKey message) := by
  have hlength := encodeOneTimeKeyMessageLength_eq version prekey oneTimeKey baseKey identityKey
    message.length
  refine ⟨by rw [hlength, preKeyMessageBytes, List.length_append], ?_⟩
  intro pre room post hroom
  rw [hlength] at hroom
  obtain ⟨room₁, room₂, rfl, hroom₁, hroom₂⟩ := exists_cut hroom
  obtain ⟨writer, hwriter, hmessage, hkeys⟩ := encodeOneTimeKeyMessage_append version prekey
    oneTimeKey baseKey identityKey message.length pre room₁ (room₂ ++ post) hroom₁
  obtain ⟨header, hheader⟩ : ∃ header, preKeyMessageHeader version prekey oneTimeKey baseKey
      identityKey message.length = header := ⟨_, rfl⟩
  rw [hheader] at hroom₁ hkeys
  have hfill := writeAt_append (pre ++ header) post hroom₂.symm
  -- the stores of the four keys, with the one of the message behind them
  have hstores := congrArg (· >>= fun buf => writeAt buf writer.message message) hkeys
  simp only [bind_assoc, Checked.ok_bind] at hstores
  simp only [List.append_assoc, List.length_append] at hwriter hstores hfill ⊢
  rw [fillOneTimeKeyMessage, hwriter, Checked.ok_bind, hstores, hmessage, hroom₁, hfill,
    preKeyMessageBytes, hheader]
  simp only [List.append_assoc]

/-- What `decode_one_time_key_message` returns for these contents. -/
structure PreKeyMessageReader.Returns (reader : PreKeyMessageReader) (buf : Bytes) (version : UInt8)
    (identityKey baseKey prekey oneTimeKey message : Bytes) (end_ : ℕ) : Prop where
  version_eq : reader.version = version
  identityKey_reads : reader.identityKey.Reads buf identityKey
  baseKey_reads : reader.baseKey.Reads buf baseKey
  prekey_reads : reader.prekey.Reads buf prekey
  oneTimeKey_reads : reader.oneTimeKey.Reads buf oneTimeKey
  message_reads : reader.message.Reads buf message
  message_last : reader.message.EndsAt end_

theorem length_le_preKeyMessageHeader (version : UInt8)
    (prekey oneTimeKey baseKey identityKey : Bytes) (messageLength : ℕ) :
    prekey.length + oneTimeKey.length + baseKey.length + identityKey.length ≤
      (preKeyMessageHeader version prekey oneTimeKey baseKey identityKey messageLength).length := by
  simp only [preKeyMessageHeader, List.length_cons, List.length_append]
  omega

theorem decodeOneTimeKeyMessage_preKeyMessageBytes (version : UInt8)
    (identityKey baseKey prekey oneTimeKey message pre post : Bytes)
    (hsize : (preKeyMessageBytes version identityKey baseKey prekey oneTimeKey message).length <
      2 ^ SIZE_WIDTH) :
    ∃ reader, decodeOneTimeKeyMessage
        (pre ++ (preKeyMessageBytes version identityKey baseKey prekey oneTimeKey message ++ post))
        pre.length
        (preKeyMessageBytes version identityKey baseKey prekey oneTimeKey message).length =
        .ok reader ∧
      reader.Returns
        (pre ++ (preKeyMessageBytes version identityKey baseKey prekey oneTimeKey message ++ post))
        version identityKey baseKey prekey oneTimeKey message
        (pre.length +
          (preKeyMessageBytes version identityKey baseKey prekey oneTimeKey message).length) := by
  have hkeys := length_le_preKeyMessageHeader version prekey oneTimeKey baseKey identityKey
    message.length
  have hlength : (preKeyMessageBytes version identityKey baseKey prekey oneTimeKey message).length =
      (preKeyMessageHeader version prekey oneTimeKey baseKey identityKey message.length).length +
        message.length := List.length_append
  have hdrop : (pre ++ (preKeyMessageBytes version identityKey baseKey prekey oneTimeKey message ++
      post)).drop pre.length = preKeyMessageHeader version prekey oneTimeKey baseKey identityKey
        message.length ++ (message ++ post) := by
    rw [List.drop_left, preKeyMessageBytes, List.append_assoc]
  obtain ⟨reader, hread, hversion, hprekey, honeTimeKey, hbaseKey, hidentityKey, hmessage⟩ :=
    decodeOneTimeKeyMessage_append hdrop rfl (by omega) (by omega) (by omega) (by omega) (by omega)
  rw [← hlength] at hread
  have htext := drop_add_of_drop_eq_append _ hdrop
  refine ⟨reader, hread, hversion, hidentityKey, hbaseKey, hprekey, honeTimeKey,
    ⟨_, _, hmessage, htext⟩, ?_⟩
  rw [hmessage]
  exact ⟨_, rfl, by simp only; omega⟩

/-! ## Group messages -/

/-- `_olm_encode_group_message`, filled in as `_encrypt` does: the ciphertext, and
the MAC and the signature from the length it returned on. -/
def fillGroupMessage (version : UInt8) (messageIndex : UInt32) (ciphertext mac signature : Bytes)
    (buf : Bytes) (output : ℕ) : Checked Bytes := do
  let writer ← encodeGroupMessage version messageIndex.toNat ciphertext.length buf output
  let buf ← writeAt writer.buf writer.ciphertext ciphertext
  let buf ← writeAt buf (output + writer.length) mac
  writeAt buf (output + writer.length + mac.length) signature

/-- A group message: its header, its ciphertext, its MAC and its signature. -/
def groupMessageBytes (version : UInt8) (messageIndex : UInt32)
    (ciphertext mac signature : Bytes) : Bytes :=
  groupMessageHeader version messageIndex.toNat ciphertext.length ++ (ciphertext ++ mac ++ signature)

theorem fillGroupMessage_fills (version : UInt8) (messageIndex : UInt32)
    (ciphertext mac signature : Bytes) :
    Fills (fillGroupMessage version messageIndex ciphertext mac signature)
      (encodeGroupMessageLength messageIndex.toNat ciphertext.length mac.length signature.length)
      (groupMessageBytes version messageIndex ciphertext mac signature) := by
  have hlength := encodeGroupMessageLength_eq version messageIndex.toNat ciphertext.length mac.length
    signature.length
  refine ⟨by simp only [hlength, groupMessageBytes, List.length_append], ?_⟩
  intro pre room post hroom
  rw [hlength] at hroom
  -- the room of the header, of the ciphertext, of the MAC and of the signature
  obtain ⟨room₁, rest, rfl, hroom₁, hrest⟩ := exists_cut hroom
  obtain ⟨rest', room₄, rfl, hrest', hroom₄⟩ := exists_cut hrest
  obtain ⟨room₂, room₃, rfl, hroom₂, hroom₃⟩ := exists_cut hrest'
  have hwriter := encodeGroupMessage_append version messageIndex.toNat ciphertext.length pre room₁
    (room₂ ++ room₃ ++ room₄ ++ post) hroom₁
  obtain ⟨header, hheader⟩ : ∃ header,
      groupMessageHeader version messageIndex.toNat ciphertext.length = header := ⟨_, rfl⟩
  rw [hheader] at hroom₁ hwriter
  have hfill := writeAt_append (pre ++ header) (room₃ ++ (room₄ ++ post)) hroom₂.symm
  have hmac := writeAt_append (pre ++ header ++ ciphertext) (room₄ ++ post) hroom₃.symm
  have hsignature := writeAt_append (pre ++ header ++ ciphertext ++ mac) post hroom₄.symm
  simp only [List.append_assoc, List.length_append] at hwriter hfill hmac hsignature ⊢
  rw [fillGroupMessage, hwriter]
  simp only [Checked.ok_bind, hroom₁, hfill, hmac, hsignature, groupMessageBytes, hheader,
    Nat.add_assoc, List.append_assoc]

/-- What `_olm_decode_group_message` returns for these contents. -/
structure GroupMessageReader.Returns (reader : GroupMessageReader) (buf : Bytes) (version : UInt8)
    (messageIndex : UInt32) (ciphertext : Bytes) (trailer : ℕ) : Prop where
  version_eq : reader.version = version
  messageIndex_eq : reader.messageIndex = { value := messageIndex.toNat, hasValue := true }
  ciphertext_reads : reader.ciphertext.Reads buf ciphertext
  trailer_after : reader.ciphertext.EndsAt trailer

theorem decodeGroupMessage_groupMessageBytes (version : UInt8) (messageIndex : UInt32)
    (ciphertext mac signature post : Bytes)
    (hsize : (groupMessageBytes version messageIndex ciphertext mac signature).length <
      2 ^ SIZE_WIDTH) :
    ∃ reader, decodeGroupMessage
        (groupMessageBytes version messageIndex ciphertext mac signature ++ post)
        (groupMessageBytes version messageIndex ciphertext mac signature).length mac.length
        signature.length = .ok reader ∧
      reader.Returns (groupMessageBytes version messageIndex ciphertext mac signature ++ post) version
        messageIndex ciphertext
        ((groupMessageBytes version messageIndex ciphertext mac signature).length -
          (mac.length + signature.length)) := by
  have hlength : (groupMessageBytes version messageIndex ciphertext mac signature).length =
      (groupMessageHeader version messageIndex.toNat ciphertext.length).length +
        (ciphertext ++ mac ++ signature).length := List.length_append
  have hbody : (ciphertext ++ mac ++ signature).length =
      ciphertext.length + mac.length + signature.length := by
    rw [List.length_append, List.length_append]
  have hread := @decodeGroupMessage_append _ post version messageIndex.toNat _ _ _ _ hbody rfl
    (by omega)
  rw [← hlength, ← List.append_assoc, ← groupMessageBytes] at hread
  have htext : (groupMessageBytes version messageIndex ciphertext mac signature ++ post).drop
      (groupMessageHeader version messageIndex.toNat ciphertext.length).length =
        ciphertext ++ (mac ++ signature ++ post) := by
    rw [groupMessageBytes, List.append_assoc, List.drop_left]
    simp only [List.append_assoc]
  refine ⟨_, hread, rfl, ?_, ⟨_, _, rfl, htext⟩, ⟨_, rfl, ?_⟩⟩
  · rw [Nat.mod_eq_of_lt messageIndex.toNat_lt]
  · simp only
    omega

/-! ## All three -/

/-- **The three formats round trip**, for every version byte, every counter or
index, and contents of any lengths that can be addressed. The encoder and
what its caller fills in write exactly as many bytes as the length says,
the trailer last, and the decoder returns the version, the number and the
same strings. -/
theorem formats_roundTrip (version : UInt8) :
    (∀ (counter : UInt32) (ratchetKey ciphertext mac : Bytes),
      encodeMessageLength counter.toNat ratchetKey.length ciphertext.length mac.length <
        2 ^ SIZE_WIDTH →
      ∃ fields, Fills (fillMessage version counter ratchetKey ciphertext mac)
          (encodeMessageLength counter.toNat ratchetKey.length ciphertext.length mac.length)
          (fields ++ mac) ∧
        ∀ pre post, ∃ reader, decodeMessage (pre ++ (fields ++ mac ++ post)) pre.length
            (fields ++ mac).length mac.length = .ok reader ∧
          reader.Returns (pre ++ (fields ++ mac ++ post)) version counter ratchetKey ciphertext
            (pre.length + fields.length)) ∧
    (∀ identityKey baseKey prekey oneTimeKey message : Bytes,
      encodeOneTimeKeyMessageLength prekey.length identityKey.length baseKey.length
        oneTimeKey.length message.length < 2 ^ SIZE_WIDTH →
      ∃ fields, Fills
          (fillOneTimeKeyMessage version identityKey baseKey prekey oneTimeKey message)
          (encodeOneTimeKeyMessageLength prekey.length identityKey.length baseKey.length
            oneTimeKey.length message.length) fields ∧
        ∀ pre post, ∃ reader, decodeOneTimeKeyMessage (pre ++ (fields ++ post)) pre.length
            fields.length = .ok reader ∧
          reader.Returns (pre ++ (fields ++ post)) version identityKey baseKey prekey oneTimeKey
            message (pre.length + fields.length)) ∧
    ∀ (messageIndex : UInt32) (ciphertext mac signature : Bytes),
      encodeGroupMessageLength messageIndex.toNat ciphertext.length mac.length signature.length <
        2 ^ SIZE_WIDTH →
      ∃ fields, Fills (fillGroupMessage version messageIndex ciphertext mac signature)
          (encodeGroupMessageLength messageIndex.toNat ciphertext.length mac.length
            signature.length)
          (fields ++ (mac ++ signature)) ∧
        ∀ post, ∃ reader, decodeGroupMessage (fields ++ (mac ++ signature) ++ post)
            (fields ++ (mac ++ signature)).length mac.length signature.length = .ok reader ∧
          reader.Returns (fields ++ (mac ++ signature) ++ post) version messageIndex ciphertext
            fields.length := by
  refine ⟨?_, ?_, ?_⟩
  · intro counter ratchetKey ciphertext mac hsize
    have hfills := fillMessage_fills version counter ratchetKey ciphertext mac
    rw [← hfills.length_eq] at hsize
    have hdecode := fun pre post => decodeMessage_messageBytes version counter ratchetKey ciphertext
      mac pre post hsize
    -- the trailer is cut off the end
    have hcut : messageBytes version counter ratchetKey ciphertext mac =
        messageHeader version ratchetKey counter.toNat ciphertext.length ++ ciphertext ++ mac :=
      (List.append_assoc _ _ _).symm
    rw [hcut] at hfills hdecode
    have hfields : (messageHeader version ratchetKey counter.toNat ciphertext.length ++ ciphertext ++
        mac).length - mac.length =
        (messageHeader version ratchetKey counter.toNat ciphertext.length ++ ciphertext).length := by
      rw [List.length_append, Nat.add_sub_cancel]
    refine ⟨_, hfills, fun pre post => ?_⟩
    obtain ⟨reader, hread, hreturns⟩ := hdecode pre post
    rw [hfields] at hreturns
    exact ⟨reader, hread, hreturns⟩
  · intro identityKey baseKey prekey oneTimeKey message hsize
    have hfills := fillOneTimeKeyMessage_fills version identityKey baseKey prekey oneTimeKey message
    rw [← hfills.length_eq] at hsize
    exact ⟨_, hfills, fun pre post => decodeOneTimeKeyMessage_preKeyMessageBytes version identityKey
      baseKey prekey oneTimeKey message pre post hsize⟩
  · intro messageIndex ciphertext mac signature hsize
    have hfills := fillGroupMessage_fills version messageIndex ciphertext mac signature
    rw [← hfills.length_eq] at hsize
    have hdecode := fun post => decodeGroupMessage_groupMessageBytes version messageIndex ciphertext
      mac signature post hsize
    -- here the trailer is the code and the signature
    have hcut : groupMessageBytes version messageIndex ciphertext mac signature =
        groupMessageHeader version messageIndex.toNat ciphertext.length ++ ciphertext ++
          (mac ++ signature) := by
      simp only [groupMessageBytes, List.append_assoc]
    rw [hcut] at hfills hdecode
    have hfields : (groupMessageHeader version messageIndex.toNat ciphertext.length ++ ciphertext ++
        (mac ++ signature)).length - (mac.length + signature.length) =
        (groupMessageHeader version messageIndex.toNat ciphertext.length ++ ciphertext).length := by
      rw [← List.length_append, List.length_append, Nat.add_sub_cancel]
    refine ⟨_, hfills, fun post => ?_⟩
    obtain ⟨reader, hread, hreturns⟩ := hdecode post
    rw [hfields] at hreturns
    exact ⟨reader, hread, hreturns⟩

/-- Numbers and lengths of one and of two bytes. -/
theorem formats_roundTrip_small :
    (∃ fields, Fills (fillMessage 3 300 (List.replicate 130 7) [1] [2])
      (encodeMessageLength 300 130 1 1) (fields ++ [2])) ∧
    (∃ fields, Fills (fillOneTimeKeyMessage 3 [1] [2] [3] [4] (List.replicate 130 5))
      (encodeOneTimeKeyMessageLength 1 1 1 1 130) fields) ∧
    ∃ fields, Fills (fillGroupMessage 3 300 (List.replicate 130 7) [1] [2])
      (encodeGroupMessageLength 300 130 1 1) (fields ++ ([1] ++ [2])) := by
  obtain ⟨hmessage, hpreKey, hgroup⟩ := formats_roundTrip 3
  obtain ⟨f₁, h₁, -⟩ := hmessage 300 (List.replicate 130 7) [1] [2]
    (by simp [encodeMessageLength, varstringLength, varintLength, VERSION_LENGTH, SIZE_WIDTH])
  obtain ⟨f₂, h₂, -⟩ := hpreKey [1] [2] [3] [4] (List.replicate 130 5)
    (by simp [encodeOneTimeKeyMessageLength, varstringLength, varintLength, VERSION_LENGTH, SIZE_WIDTH])
  obtain ⟨f₃, h₃, -⟩ := hgroup 300 (List.replicate 130 7) [1] [2]
    (by simp [encodeGroupMessageLength, varstringLength, varintLength, VERSION_LENGTH, SIZE_WIDTH])
  exact ⟨⟨f₁, h₁⟩, ⟨f₂, h₂⟩, ⟨f₃, h₃⟩⟩

end Olm
