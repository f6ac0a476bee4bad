import Olm.Cipher.Lawful
import Olm.Group.SessionKey
import Olm.Message.RoundTrip

/-!
# The messages of a group session

What `olm_group_encrypt` writes (`Sealed`), and that `olm_group_decrypt`
returns its plain text wherever `_get_megolm` finds the ratchet it was
encrypted under.
-/

namespace Olm

/-! ## What a message is -/

/-- The ratchet leaves room for a cipher text this long. -/
def GroupPrimitives.ciphertextLength (prims : GroupPrimitives) (plaintext : Bytes) : ℕ :=
  prims.megolmCipher.encryptCiphertextLength plaintext.length

/-- The header of the message for a plain text under a ratchet. -/
def groupHeader (prims : GroupPrimitives) (m : Megolm) (plaintext : Bytes) : Bytes :=
  groupMessageHeader OLM_PROTOCOL_VERSION m.counter.toNat (prims.ciphertextLength plaintext)

/-- **A message that was sealed** for a plain text, under a ratchet and a
signing key: its body opens to the plain text, and the signature behind it
verifies. -/
def GroupSealed (prims : GroupPrimitives) (signingKey : Ed25519PublicKey) (m : Megolm)
    (plaintext message : Bytes) : Prop :=
  ∃ (body : Bytes) (signature : Ed25519Signature),
    message = Base64.encode (groupHeader prims m plaintext ++ (body ++ signature.val)) ∧
    body.length = prims.ciphertextLength plaintext + prims.megolmCipher.macLength ∧
    prims.ciphertextLength plaintext < 2 ^ SIZE_WIDTH ∧
    prims.megolmCipher.Opens m.getData (groupHeader prims m plaintext) body plaintext ∧
    prims.ed25519.verify signingKey (groupHeader prims m plaintext ++ body) signature = true

variable {prims : GroupPrimitives}

/-! ## Encrypting -/

namespace OutboundGroupSession

theorem rawMessageLength_eq (session : OutboundGroupSession) (plaintext : Bytes) :
    session.rawMessageLength prims plaintext.length =
      (groupHeader prims session.ratchet plaintext).length +
        (prims.ciphertextLength plaintext + prims.megolmCipher.macLength +
          ED25519_SIGNATURE_LENGTH) :=
  encodeGroupMessageLength_eq OLM_PROTOCOL_VERSION ..

/-- `_encrypt` writes the header, the body and the signature over the room
for them, and advances the ratchet. -/
theorem encrypt_append (haes : prims.aes.Inverts) (session : OutboundGroupSession)
    (plaintext pre post : Bytes) {room : Bytes}
    (hroom : room.length = session.rawMessageLength prims plaintext.length) :
    ∃ (body : Bytes),
      body.length = prims.ciphertextLength plaintext + prims.megolmCipher.macLength ∧
      prims.megolmCipher.Opens session.ratchet.getData (groupHeader prims session.ratchet plaintext)
        body plaintext ∧
      session.encrypt prims plaintext (pre ++ (room ++ post)) pre.length =
        .ok ({ session with ratchet := session.ratchet.advance prims.hashes.hmacSha256 },
          some (pre ++ (groupHeader prims session.ratchet plaintext ++ (body ++
            (prims.ed25519.sign session.signingKey
              (groupHeader prims session.ratchet plaintext ++ body)).val) ++ post))) := by
  rw [rawMessageLength_eq] at hroom
  -- the room for the message, cut into those of its three parts
  obtain ⟨headerRoom, rest, rfl, hheader, hrest⟩ := exists_cut hroom
  obtain ⟨bodyRoom, oldSignature, rfl, hbodyRoom, holdSignature⟩ := exists_cut hrest
  obtain ⟨body, hbody, hencrypt, hopens⟩ := aesSha256_lawful prims.hashes haes
    (asciiBytes "MEGOLM_KEYS") session.ratchet.getData plaintext pre
    (groupHeader prims session.ratchet plaintext) bodyRoom (oldSignature ++ post) hbodyRoom
  refine ⟨body, hbody.trans hbodyRoom, hopens, ?_⟩
  obtain ⟨header, hheaderEq⟩ : ∃ header, groupHeader prims session.ratchet plaintext = header :=
    ⟨_, rfl⟩
  rw [hheaderEq] at hheader hencrypt hopens ⊢
  have hwriter : encodeGroupMessage OLM_PROTOCOL_VERSION session.ratchet.counter.toNat
      (prims.megolmCipher.encryptCiphertextLength plaintext.length)
      (pre ++ (headerRoom ++ (bodyRoom ++ (oldSignature ++ post)))) pre.length =
      .ok { buf := pre ++ (header ++ (bodyRoom ++ (oldSignature ++ post)))
            ciphertext := pre.length + headerRoom.length
            length := headerRoom.length + prims.ciphertextLength plaintext } := by
    rw [← hheaderEq] at hheader ⊢
    exact encodeGroupMessage_append _ _ _ pre headerRoom _ hheader
  have hcipher : prims.megolmCipher.encrypt session.ratchet.getData plaintext
      (pre ++ (header ++ (bodyRoom ++ (oldSignature ++ post)))) (pre.length + headerRoom.length)
      (prims.megolmCipher.encryptCiphertextLength plaintext.length) pre.length
      (headerRoom.length + prims.ciphertextLength plaintext + prims.megolmCipher.macLength) =
      .ok (some (pre ++ (header ++ (body ++ (oldSignature ++ post))))) := by
    rw [hheader, Nat.add_assoc, ← hbodyRoom]
    exact hencrypt
  have hlen : headerRoom.length + prims.ciphertextLength plaintext + prims.megolmCipher.macLength =
      (header ++ body).length := by
    rw [List.length_append, hheader, hbody, hbodyRoom, Nat.add_assoc]
  -- what is signed is all that was written so far
  have hinput : readBytes (pre ++ (header ++ (body ++ (oldSignature ++ post)))) pre.length
      (header ++ body).length = .ok (header ++ body) := by
    have h := readBytes_append pre (header ++ body) (oldSignature ++ post)
    rwa [List.append_assoc header] at h
  have hsign : writeAt (pre ++ (header ++ (body ++ (oldSignature ++ post))))
      (pre.length + (header ++ body).length)
      (prims.ed25519.sign session.signingKey (header ++ body)).val =
      .ok (pre ++ (header ++ (body ++
        ((prims.ed25519.sign session.signingKey (header ++ body)).val ++ post)))) := by
    have hsignature : (prims.ed25519.sign session.signingKey (header ++ body)).val.length =
        oldSignature.length := by rw [FixedBytes.length_val, holdSignature]
    have h := writeAt_append (pre ++ (header ++ body)) post hsignature
    rw [← List.length_append]
    simpa only [List.append_assoc] using h
  unfold encrypt
  dsimp only
  simp only [List.append_assoc]
  rw [hwriter, Checked.ok_bind, hcipher, Checked.ok_bind]
  dsimp only
  rw [hlen, hinput, Checked.ok_bind, hsign, Checked.ok_bind]

/-- **`olm_group_encrypt` seals the plain text** under the ratchet, and
advances it, where there is room for the message. -/
theorem groupEncrypt_of_le (haes : prims.aes.Inverts) (haccepts : prims.ed25519.Accepts)
    {session : OutboundGroupSession}
    (hsigning : ∃ random, session.signingKey = prims.ed25519.generateKey random)
    {plaintext message : Bytes}
    (hroom : session.groupEncryptMessageLength prims plaintext.length ≤ message.length)
    (hsize : message.length < 2 ^ SIZE_WIDTH) :
    ∃ bytes rest, session.groupEncrypt prims plaintext message =
      .ok ({ session with ratchet := session.ratchet.advance prims.hashes.hmacSha256 },
        some (bytes ++ rest, bytes.length)) ∧
      GroupSealed prims session.signingKey.publicKey session.ratchet plaintext bytes := by
  obtain ⟨rawLength, hrawLength⟩ : ∃ n, session.rawMessageLength prims plaintext.length = n :=
    ⟨_, rfl⟩
  have hroomLength : encodeBase64Length rawLength ≤ message.length := by rwa [← hrawLength]
  have hle : rawLength ≤ encodeBase64Length rawLength := by
    rw [encodeBase64Length]
    omega
  -- the raw message goes to the end of the room for its base64, which is then encoded in place
  obtain ⟨front, post, rfl, hfront, -⟩ :=
    exists_cut (n := message.length - encodeBase64Length rawLength)
      (by omega : message.length = encodeBase64Length rawLength + _)
  obtain ⟨gap, room, rfl, hgap, hroomRaw⟩ := exists_cut (n := rawLength)
    (by omega : front.length = (encodeBase64Length rawLength - rawLength) + _)
  obtain ⟨body, hbody, hopens, hencrypt⟩ := encrypt_append haes session plaintext gap post
    (hroomRaw.trans hrawLength.symm)
  obtain ⟨raw, hraw⟩ : ∃ raw, groupHeader prims session.ratchet plaintext ++ (body ++
    (prims.ed25519.sign session.signingKey (groupHeader prims session.ratchet plaintext ++
      body)).val) = raw := ⟨_, rfl⟩
  have hlen : raw.length = rawLength := by
    rw [← hraw, ← hrawLength, rawMessageLength_eq, List.length_append, List.length_append, hbody,
      FixedBytes.length_val]
  have hencode := encodeBase64_within post (by
    rw [hlen, hgap]
    omega : gap.length + raw.length = encodeBase64Length raw.length)
  refine ⟨Base64.encode raw, post, ?_, body, prims.ed25519.sign session.signingKey
    (groupHeader prims session.ratchet plaintext ++ body), by rw [hraw], hbody, ?_, hopens, ?_⟩
  · rw [hraw] at hencrypt
    unfold groupEncrypt
    dsimp only
    rw [hrawLength, if_neg (by omega), ← hgap, List.append_assoc, hencrypt, Checked.ok_bind]
    dsimp only
    rw [← hlen, hencode, Checked.ok_bind, Base64.encode_length]
  · have hfit := @rawMessageLength_eq prims session plaintext
    simp only [List.length_append] at hsize
    omega
  · obtain ⟨random, hrandom⟩ := hsigning
    rw [hrandom]
    exact haccepts random _

/-- The exits of `olm_group_encrypt`. -/
theorem groupEncrypt_outcome (haes : prims.aes.Inverts) (haccepts : prims.ed25519.Accepts)
    {session session' : OutboundGroupSession}
    (hsigning : ∃ random, session.signingKey = prims.ed25519.generateKey random)
    {plaintext message : Bytes} (hsize : message.length < 2 ^ SIZE_WIDTH)
    {result : Option (Bytes × ℕ)}
    (h : session.groupEncrypt prims plaintext message = .ok (session', result)) :
    (result = none ∧ session' = { session with lastError := .OUTPUT_BUFFER_TOO_SMALL }) ∨
    ∃ bytes rest, result = some (bytes ++ rest, bytes.length) ∧
      session' = { session with ratchet := session.ratchet.advance prims.hashes.hmacSha256 } ∧
      GroupSealed prims session.signingKey.publicKey session.ratchet plaintext bytes := by
  by_cases hroom : session.groupEncryptMessageLength prims plaintext.length ≤ message.length
  · obtain ⟨bytes, rest, hencrypt, hsealed⟩ :=
      groupEncrypt_of_le haes haccepts hsigning hroom hsize
    rw [h] at hencrypt
    cases hencrypt
    exact .inr ⟨bytes, rest, rfl, rfl, hsealed⟩
  · unfold groupEncrypt at h
    unfold groupEncryptMessageLength at hroom
    dsimp only at h
    rw [if_pos (by omega)] at h
    cases h
    exact .inl ⟨rfl, rfl⟩

end OutboundGroupSession

/-! ## Decrypting -/

namespace InboundGroupSession

/-- A message that was taken apart: its bytes, its index and its cipher text. -/
structure TakenApart where
  buf : Bytes
  length : ℕ
  messageIndex : UInt32
  ciphertext : ℕ
  ciphertextLength : ℕ

/-- The half of `olm_group_decrypt` that does not read the session, or the
error it ends with. -/
def takeApart (prims : GroupPrimitives) (message : Bytes) : Checked (Except OlmErrorCode TakenApart) := do
  match ← decodeBase64 (.within 0) message.length message 0 with
  | (_, none) => .ok (.error .INVALID_BASE64)
  | (buf, some rawLength) => do
    let decoded ← decodeGroupMessage buf rawLength prims.megolmCipher.macLength
      ED25519_SIGNATURE_LENGTH
    if decoded.version ≠ OLM_PROTOCOL_VERSION then .ok (.error .BAD_MESSAGE_VERSION)
    else
      match decoded.messageIndex.hasValue, decoded.ciphertext.value with
      | true, some ciphertext =>
        .ok (.ok ⟨buf, rawLength, UInt32.ofNat decoded.messageIndex.value, ciphertext,
          decoded.ciphertext.length⟩)
      | _, _ => .ok (.error .BAD_MESSAGE_FORMAT)

theorem groupDecrypt_eq (session : InboundGroupSession) (message : Bytes)
    (maxPlaintextLength : ℕ) :
    session.groupDecrypt prims message maxPlaintextLength =
      takeApart prims message >>= fun parts =>
      match parts with
      | .error code => .ok ⟨{ session with lastError := code }, none, none⟩
      | .ok parts =>
        session.decryptDecoded prims parts.buf parts.length parts.messageIndex parts.ciphertext
          parts.ciphertextLength maxPlaintextLength >>= fun result =>
        .ok ⟨result.1, some parts.messageIndex, result.2⟩ := by
  unfold groupDecrypt takeApart
  rcases decodeBase64 (.within 0) message.length message 0 with _ | ⟨buf, _ | rawLength⟩
  · rfl
  · rfl
  · simp only [Checked.ok_bind]
    unfold decrypt
    rcases decodeGroupMessage buf rawLength prims.megolmCipher.macLength ED25519_SIGNATURE_LENGTH
      with _ | ⟨version, ⟨index, hasValue⟩, ⟨value, length⟩⟩
    · rfl
    · simp only [Checked.ok_bind]
      split
      · rfl
      · rcases hasValue with _ | _
        · rfl
        · rcases value with _ | ciphertext
          · rfl
          · rfl

variable {session session' : InboundGroupSession} {m : Megolm} {plaintext message : Bytes}
  {maxPlaintextLength : ℕ}

/-- The parts of a message that was sealed: the index is that of the ratchet,
the signature verifies, and the cipher text opens under the ratchet. -/
structure TakenApart.Sealed (prims : GroupPrimitives) (signingKey : Ed25519PublicKey) (m : Megolm)
    (plaintext : Bytes) (parts : TakenApart) : Prop where
  messageIndex : parts.messageIndex = m.counter
  ciphertextLength : parts.ciphertextLength = prims.ciphertextLength plaintext
  verifies : ∃ signature authenticated,
    loadArray ED25519_SIGNATURE_LENGTH parts.buf (parts.length - ED25519_SIGNATURE_LENGTH) =
      .ok signature ∧
    readBytes parts.buf 0 (parts.length - ED25519_SIGNATURE_LENGTH) = .ok authenticated ∧
    prims.ed25519.verify signingKey authenticated signature = true
  opens : ∀ maxPlaintextLength,
    prims.megolmCipher.decryptMaxPlaintextLength parts.ciphertextLength ≤ maxPlaintextLength →
    prims.megolmCipher.decrypt m.getData parts.buf 0 (parts.length - ED25519_SIGNATURE_LENGTH)
      parts.ciphertext parts.ciphertextLength maxPlaintextLength = .ok (some plaintext)

theorem takeApart_of_sealed {signingKey : Ed25519PublicKey}
    (hsealed : GroupSealed prims signingKey m plaintext message) :
    ∃ parts, takeApart prims message = .ok (.ok parts) ∧
      parts.Sealed prims signingKey m plaintext := by
  obtain ⟨body, signature, hmessage, hbody, hsize, hopens, hverify⟩ := hsealed
  obtain ⟨header, hheader⟩ : ∃ header, groupHeader prims m plaintext = header := ⟨_, rfl⟩
  obtain ⟨rest, hdecode⟩ := decodeBase64_within (header ++ (body ++ signature.val))
  rw [hheader] at hmessage hopens hverify
  rw [← hmessage] at hdecode
  have hlen : (header ++ (body ++ signature.val)).length =
      header.length + (body ++ signature.val).length := List.length_append
  have hinput : (header ++ (body ++ signature.val)).length - ED25519_SIGNATURE_LENGTH =
      (header ++ body).length := by
    simp only [List.length_append, FixedBytes.length_val]
    omega
  have hfields : decodeGroupMessage (header ++ (body ++ signature.val) ++ rest)
      (header ++ (body ++ signature.val)).length prims.megolmCipher.macLength
      ED25519_SIGNATURE_LENGTH = .ok
      { version := OLM_PROTOCOL_VERSION
        messageIndex := { value := m.counter.toNat % 2 ^ 32, hasValue := true }
        ciphertext := { value := some header.length
                        length := prims.ciphertextLength plaintext } } := by
    rw [hlen, List.append_assoc, ← hheader]
    exact decodeGroupMessage_append
      (by rw [List.length_append, hbody, FixedBytes.length_val]) rfl hsize
  have hindex : UInt32.ofNat (m.counter.toNat % 2 ^ 32) = m.counter := by
    rw [Nat.mod_eq_of_lt m.counter.toNat_lt, UInt32.ofNat_toNat]
  have hsignature : loadArray ED25519_SIGNATURE_LENGTH (header ++ (body ++ signature.val) ++ rest)
      (header ++ body).length = .ok signature := by
    have hdrop : (header ++ (body ++ signature.val) ++ rest).drop (header ++ body).length =
        signature.val ++ rest := by
      simp only [← List.append_assoc]
      rw [List.append_assoc (header ++ body), List.drop_left]
    exact loadArray_of_drop_eq_append hdrop
  -- the part in front of the signature is what the sender signed
  have hauth : readBytes (header ++ (body ++ signature.val) ++ rest) 0 (header ++ body).length =
      .ok (header ++ body) :=
    readBytes_of_drop_eq_append (signature.val ++ rest)
      (by simp only [List.append_assoc, List.drop_zero]) (Nat.zero_le _)
  refine ⟨⟨header ++ (body ++ signature.val) ++ rest, (header ++ (body ++ signature.val)).length,
    m.counter, header.length, prims.ciphertextLength plaintext⟩, ?_, rfl, rfl, ?_, ?_⟩
  · unfold takeApart
    rw [hdecode, Checked.ok_bind]
    dsimp only
    rw [hfields, Checked.ok_bind, if_neg (not_not.mpr rfl)]
    dsimp only
    rw [hindex]
  · dsimp only
    rw [hinput]
    exact ⟨signature, header ++ body, hsignature, hauth, hverify⟩
  · intro maxPlaintextLength hmax
    have hopen := hopens (header ++ (body ++ signature.val) ++ rest) [] (signature.val ++ rest)
      maxPlaintextLength (by simp only [List.append_assoc, List.nil_append]) hmax
    rw [List.length_nil, Nat.zero_add, ← List.length_append] at hopen
    dsimp only
    rw [hinput]
    exact hopen

/-- What `_decrypt` makes of them, where there is room for the plain text: it
is left to the ratchet. -/
theorem decryptDecoded_of_sealed {parts : TakenApart}
    (hparts : parts.Sealed prims session.signingKey m plaintext)
    (hmax : prims.megolmCipher.decryptMaxPlaintextLength parts.ciphertextLength ≤
      maxPlaintextLength) :
    session.decryptDecoded prims parts.buf parts.length parts.messageIndex parts.ciphertext
        parts.ciphertextLength maxPlaintextLength =
      match session.getMegolm prims m.counter with
      | (session, none) => .ok (session, none)
      | (session, some megolm) =>
        prims.megolmCipher.decrypt megolm.getData parts.buf 0
          (parts.length - ED25519_SIGNATURE_LENGTH) parts.ciphertext parts.ciphertextLength
          maxPlaintextLength >>= fun result =>
        match result with
        | none => session.fail .BAD_MESSAGE_MAC
        | some plaintext => .ok ({ session with signingKeyVerified := true }, some plaintext) := by
  obtain ⟨signature, authenticated, hsignature, hauth, hverify⟩ := hparts.verifies
  unfold decryptDecoded
  dsimp only
  rw [hsignature, Checked.ok_bind, hauth, Checked.ok_bind, hverify, if_neg (by decide),
    if_neg (by omega)]
  exact hparts.messageIndex ▸ rfl

/-- **`olm_group_decrypt` returns the plain text**, and the index, of a message
whose ratchet `_get_megolm` finds. -/
theorem groupDecrypt_of_getMegolm
    (hsealed : GroupSealed prims session.signingKey m plaintext message)
    (hm : session.getMegolm prims m.counter = (session', some m))
    (hmax : prims.megolmCipher.decryptMaxPlaintextLength (prims.ciphertextLength plaintext) ≤
      maxPlaintextLength) :
    session.groupDecrypt prims message maxPlaintextLength =
      .ok ⟨{ session' with signingKeyVerified := true }, some m.counter, some plaintext⟩ := by
  obtain ⟨parts, htake, hparts⟩ := takeApart_of_sealed hsealed
  rw [← hparts.ciphertextLength] at hmax
  rw [groupDecrypt_eq, htake, Checked.ok_bind]
  dsimp only
  rw [decryptDecoded_of_sealed hparts hmax, hm]
  dsimp only
  rw [hparts.opens _ hmax, hparts.messageIndex]
  rfl

/-- And refuses one whose ratchet it does not have. -/
theorem groupDecrypt_of_getMegolm_none
    (hsealed : GroupSealed prims session.signingKey m plaintext message)
    (hm : session.getMegolm prims m.counter = (session', none))
    (hmax : prims.megolmCipher.decryptMaxPlaintextLength (prims.ciphertextLength plaintext) ≤
      maxPlaintextLength) :
    session.groupDecrypt prims message maxPlaintextLength =
      .ok ⟨session', some m.counter, none⟩ := by
  obtain ⟨parts, htake, hparts⟩ := takeApart_of_sealed hsealed
  rw [← hparts.ciphertextLength] at hmax
  rw [groupDecrypt_eq, htake, Checked.ok_bind]
  dsimp only
  rw [decryptDecoded_of_sealed hparts hmax, hm, hparts.messageIndex]
  rfl

end InboundGroupSession

end Olm
