import Olm.Ratchet.Sealed
import Olm.Session.Model

/-!
# The messages of a session

A message of a session is one of its ratchet, behind a header that names the
keys of the set-up until something was received. `encrypt` and `decrypt` are
those of the ratchet, on the part of the buffer behind the header.
-/

namespace Olm.Session

variable {K : Type} (prims : Primitives K)

/-- What a session puts before a message of its ratchet. -/
def header (session : Session K) (messageBodyLength : ℕ) : Bytes :=
  if session.receivedMessage then []
  else preKeyMessageHeader PROTOCOL_VERSION session.bobPrekey.val session.bobOneTimeKey.val
    session.aliceBaseKey.val session.aliceIdentityKey.val messageBodyLength

/-- A receiver finds the body of the message behind the header. -/
def Frames (messageType : MessageType) (header body : Bytes) : Prop :=
  messageBody messageType (header ++ body) = .ok (some (header.length, body.length))

variable {prims} {session session' : Session K}

theorem encryptMessageLength_eq (session : Session K) (plaintextLength : ℕ) :
    session.encryptMessageLength prims plaintextLength =
      (session.header (session.ratchet.encryptOutputLength prims.ratchetConfig
        plaintextLength)).length +
      session.ratchet.encryptOutputLength prims.ratchetConfig plaintextLength := by
  unfold encryptMessageLength header
  split
  · simp
  · have h := encodeOneTimeKeyMessageLength_eq PROTOCOL_VERSION session.bobPrekey.val
      session.bobOneTimeKey.val session.aliceBaseKey.val session.aliceIdentityKey.val
      (session.ratchet.encryptOutputLength prims.ratchetConfig plaintextLength)
    simp only [FixedBytes.length_val] at h
    exact h

/-- The header is written over the room there is for it. -/
theorem encryptHeader_append {room rest : Bytes} {messageBodyLength : ℕ}
    (h : room.length = (session.header messageBodyLength).length) :
    session.encryptHeader (room ++ rest) messageBodyLength =
      .ok (session.header messageBodyLength ++ rest, (session.header messageBodyLength).length) := by
  unfold encryptHeader
  unfold header at h ⊢
  split
  · rename_i hreceived
    rw [if_pos hreceived, List.length_nil, List.length_eq_zero_iff] at h
    rw [h, List.nil_append]
    rfl
  · rename_i hreceived
    rw [if_neg hreceived] at h
    obtain ⟨writer, hwriter, hmessage, hstore⟩ := encodeOneTimeKeyMessage_append PROTOCOL_VERSION
      session.bobPrekey.val session.bobOneTimeKey.val session.aliceBaseKey.val
      session.aliceIdentityKey.val messageBodyLength [] room rest h
    simp only [FixedBytes.length_val, List.nil_append, List.length_nil] at hwriter hmessage hstore
    rw [hwriter, Checked.ok_bind]
    simp only [Checked.bind_eq_ok] at hstore
    obtain ⟨buf₁, h₁, buf₂, h₂, buf₃, h₃, h₄⟩ := hstore
    simp only [h₁, h₂, h₃, h₄, Checked.ok_bind, hmessage, h, Nat.zero_add]

/-- **A pre-key message is read as it was made**: the four keys of the
set-up, and the body behind the header. -/
theorem exists_reader_of_header {body : Bytes} (hreceived : session.receivedMessage = false)
    (hbody : body.length < 2 ^ SIZE_WIDTH) :
    ∃ reader, decodeOneTimeKeyMessage (session.header body.length ++ body) 0
        (session.header body.length ++ body).length = .ok reader ∧
      reader.prekey.Reads (session.header body.length ++ body) session.bobPrekey.val ∧
      reader.oneTimeKey.Reads (session.header body.length ++ body) session.bobOneTimeKey.val ∧
      reader.baseKey.Reads (session.header body.length ++ body) session.aliceBaseKey.val ∧
      reader.identityKey.Reads (session.header body.length ++ body)
        session.aliceIdentityKey.val ∧
      reader.message = ⟨some (session.header body.length).length, body.length⟩ := by
  have hlen : ∀ key : Curve25519PublicKey, key.val.length < 2 ^ SIZE_WIDTH := by
    intro key
    rw [FixedBytes.length_val]
    decide
  have hheader : session.header body.length = preKeyMessageHeader PROTOCOL_VERSION
      session.bobPrekey.val session.bobOneTimeKey.val session.aliceBaseKey.val
      session.aliceIdentityKey.val body.length := by
    rw [header, hreceived, if_neg Bool.false_ne_true]
  have hdrop : (session.header body.length ++ body).drop 0 = preKeyMessageHeader PROTOCOL_VERSION
      session.bobPrekey.val session.bobOneTimeKey.val session.aliceBaseKey.val
      session.aliceIdentityKey.val body.length ++ (body ++ []) := by
    rw [List.drop_zero, List.append_nil, hheader]
  obtain ⟨reader, hreader, -, hprekey, hone, hbase, hidentity, hmessage⟩ :=
    decodeOneTimeKeyMessage_append hdrop rfl (hlen session.bobPrekey) (hlen session.bobOneTimeKey)
      (hlen session.aliceBaseKey) (hlen session.aliceIdentityKey) hbody
  refine ⟨reader, ?_, hprekey, hone, hbase, hidentity, ?_⟩
  · rw [List.length_append, ← hreader, hheader]
  · rw [hmessage, hheader, Nat.zero_add]

theorem frames_header {body : Bytes} (hbody : body.length < 2 ^ SIZE_WIDTH) :
    Frames session.encryptMessageType (session.header body.length) body := by
  unfold Frames encryptMessageType
  cases hreceived : session.receivedMessage with
  | true =>
    rw [if_pos rfl, header, hreceived, if_pos rfl, messageBody, List.nil_append]
    rfl
  | false =>
    obtain ⟨reader, hreader, -, -, -, -, hmessage⟩ := exists_reader_of_header hreceived hbody
    rw [if_neg Bool.false_ne_true, messageBody, hreader, Checked.ok_bind, hmessage, Option.map_some]

/-- **`decrypt` of a framed message** is that of the ratchet on its body. -/
theorem decrypt_of_frames {messageType : MessageType} {header body : Bytes}
    (h : Frames messageType header body) (session : Session K) (maxPlaintextLength : ℕ)
    (isSequential : Bool) :
    session.decrypt prims messageType (header ++ body) maxPlaintextLength isSequential = (do
      let (ratchet, result) ← session.ratchet.decrypt prims.ratchetConfig (header ++ (body ++ []))
        header.length body.length maxPlaintextLength isSequential
      match result with
      | none => session.failRatchet ratchet
      | some plaintext =>
        .ok ({ session with ratchet := ratchet, receivedMessage := true }, some plaintext)) := by
  rw [decrypt, h, List.append_nil]
  rfl

section Outcomes

variable {messageType : MessageType} {message : Bytes} {maxPlaintextLength : ℕ} {isSequential : Bool}

/-- The exits of `decrypt`. -/
theorem decrypt_outcome {result : Option Bytes}
    (h : session.decrypt prims messageType message maxPlaintextLength isSequential =
      .ok (session', result)) :
    (messageBody messageType message = .ok none ∧ result = none ∧
      session' = { session with lastError := .BAD_MESSAGE_FORMAT }) ∨
    ∃ (body bodyLength : ℕ) (ratchet : Ratchet K),
      messageBody messageType message = .ok (some (body, bodyLength)) ∧
      session.ratchet.decrypt prims.ratchetConfig message body bodyLength maxPlaintextLength
        isSequential = .ok (ratchet, result) ∧
      (result = none → session' = { session with
        lastError := ratchet.lastError, ratchet := { ratchet with lastError := .SUCCESS } }) ∧
      (result.isSome → session' = { session with ratchet := ratchet, receivedMessage := true }) := by
  unfold decrypt at h
  obtain ⟨body, hbody, h⟩ := Checked.bind_eq_ok.mp h
  cases body with
  | none =>
    exact .inl ⟨hbody, (eq_of_fail h).symm⟩
  | some body =>
    obtain ⟨⟨ratchet, decrypted⟩, hratchet, h⟩ := Checked.bind_eq_ok.mp h
    refine .inr ⟨body.1, body.2, ratchet, hbody, ?_⟩
    cases decrypted with
    | none =>
      obtain ⟨rfl, rfl⟩ := eq_of_failRatchet h
      refine ⟨hratchet, fun _ => rfl, ?_⟩
      intro hsome
      cases hsome
    | some plaintext =>
      simp only [Except.ok.injEq, Prod.mk.injEq] at h
      obtain ⟨rfl, rfl⟩ := h
      refine ⟨hratchet, ?_, fun _ => rfl⟩
      intro hnone
      cases hnone

/-- The exits of `decryptMaxPlaintextLength`: the ratchet is the same, or has
the error that the session takes over. -/
theorem decryptMaxPlaintextLength_outcome {result : Option ℕ}
    (h : session.decryptMaxPlaintextLength prims messageType message = .ok (session', result)) :
    (result = none ∧ session' = { session with lastError := .BAD_MESSAGE_FORMAT }) ∨
    (result = none ∧ session' = { session with
      lastError := .BAD_MESSAGE_FORMAT, ratchet := { session.ratchet with lastError := .SUCCESS } }) ∨
    (result.isSome ∧ session' = session) := by
  unfold decryptMaxPlaintextLength at h
  obtain ⟨body, -, h⟩ := Checked.bind_eq_ok.mp h
  cases body with
  | none =>
    exact .inl (eq_of_fail h).symm
  | some body =>
    obtain ⟨⟨ratchet, length⟩, hratchet, h⟩ := Checked.bind_eq_ok.mp h
    unfold Ratchet.decryptMaxPlaintextLength at hratchet
    obtain ⟨reader, -, hratchet⟩ := Checked.bind_eq_ok.mp hratchet
    split at hratchet
    · obtain ⟨rfl, rfl⟩ := Ratchet.eq_of_fail hratchet
      exact .inr (.inl (eq_of_failRatchet h).symm)
    · simp only [Except.ok.injEq, Prod.mk.injEq] at hratchet
      obtain ⟨rfl, rfl⟩ := hratchet
      simp only [Except.ok.injEq, Prod.mk.injEq] at h
      obtain ⟨rfl, rfl⟩ := h
      exact .inr (.inr ⟨rfl, rfl⟩)

/-- `decrypt` leaves no error in the ratchet. -/
theorem noError_of_decrypt {result : Option Bytes} (h : session.ratchet.lastError = .SUCCESS)
    (hrun : session.decrypt prims messageType message maxPlaintextLength isSequential =
      .ok (session', result)) : session'.ratchet.lastError = .SUCCESS := by
  rcases decrypt_outcome hrun with ⟨-, -, rfl⟩ | ⟨body, bodyLength, ratchet, -, hratchet, hnone,
    hsome⟩
  · exact h
  · cases result with
    | none => rw [hnone rfl]
    | some plaintext =>
      rw [hsome rfl]
      exact (Ratchet.lastError_of_decrypt_some hratchet).trans h

/-- Asking how long a plain text can be changes nothing but `last_error`,
where the ratchet has no error left. -/
theorem ratchet_of_decryptMaxPlaintextLength {result : Option ℕ}
    (hclear : session.ratchet.lastError = .SUCCESS)
    (h : session.decryptMaxPlaintextLength prims messageType message = .ok (session', result)) :
    session'.ratchet = session.ratchet := by
  rcases decryptMaxPlaintextLength_outcome h with ⟨-, rfl⟩ | ⟨-, rfl⟩ | ⟨-, rfl⟩
  · rfl
  · simp only [← hclear]
  · rfl

end Outcomes

/-! ## Encrypting -/

variable {plaintext random message buf' : Bytes} {length : ℕ}

/-- What `encrypt` gives the ratchet: a buffer that starts with the header,
and the room behind it. -/
structure GivesRatchet (prims : Primitives K) (session : Session K) (plaintext message buf : Bytes)
    (output maxOutputLength : ℕ) : Prop where
  room : output + maxOutputLength ≤ buf.length
  length : buf.length = message.length
  output_eq : output = (session.header maxOutputLength).length
  max_eq : maxOutputLength = session.ratchet.encryptOutputLength prims.ratchetConfig plaintext.length
  header : buf.take output = session.header maxOutputLength

/-- Where the message fits into the buffer, `encrypt` is that of the ratchet on
the part behind the header. -/
theorem encrypt_of_length (random : Bytes)
    (hlength : session.encryptMessageLength prims plaintext.length ≤ message.length) :
    ∃ (buf : Bytes) (output maxOutputLength : ℕ),
      GivesRatchet prims session plaintext message buf output maxOutputLength ∧
      session.encrypt prims plaintext random message = (do
        let (ratchet, result) ← session.ratchet.encrypt prims.ratchetConfig plaintext random buf
          output maxOutputLength
        match result with
        | none => session.failRatchet ratchet
        | some result => .ok ({ session with ratchet := ratchet }, some result)) := by
  have hmessage := hlength
  rw [encryptMessageLength_eq] at hmessage
  unfold encrypt
  rw [if_neg (Nat.not_lt.mpr hlength)]
  dsimp only
  generalize hmax : session.ratchet.encryptOutputLength prims.ratchetConfig plaintext.length =
    maxOutputLength at hmessage ⊢
  -- the buffer, cut where the header ends
  have hcut := List.take_append_drop (session.header maxOutputLength).length message
  have hroom : (message.take (session.header maxOutputLength).length).length =
      (session.header maxOutputLength).length := by
    rw [List.length_take]
    omega
  rw [← hcut, encryptHeader_append hroom, Checked.ok_bind, hcut]
  refine ⟨session.header maxOutputLength ++ message.drop (session.header maxOutputLength).length, _,
    maxOutputLength, ⟨?_, ?_, rfl, hmax.symm, List.take_left⟩, rfl⟩
  · rw [List.length_append, List.length_drop]
    omega
  · rw [List.length_append, List.length_drop]
    omega

/-- The exits of `encrypt`. -/
theorem encrypt_outcome {result : Option (Bytes × ℕ)}
    (h : session.encrypt prims plaintext random message = .ok (session', result)) :
    (result = none ∧ session' = { session with lastError := .OUTPUT_BUFFER_TOO_SMALL }) ∨
    ∃ (buf : Bytes) (output maxOutputLength : ℕ) (ratchet : Ratchet K),
      GivesRatchet prims session plaintext message buf output maxOutputLength ∧
      session.ratchet.encrypt prims.ratchetConfig plaintext random buf output maxOutputLength =
        .ok (ratchet, result) ∧
      (result = none → session' = { session with
        lastError := ratchet.lastError, ratchet := { ratchet with lastError := .SUCCESS } }) ∧
      (result.isSome → session' = { session with ratchet := ratchet }) := by
  by_cases hlength : message.length < session.encryptMessageLength prims plaintext.length
  · unfold encrypt at h
    rw [if_pos hlength] at h
    exact .inl (eq_of_fail h).symm
  · obtain ⟨buf, output, maxOutputLength, hgives, hencrypt⟩ :=
      encrypt_of_length random (Nat.le_of_not_lt hlength)
    rw [hencrypt] at h
    obtain ⟨⟨ratchet, result'⟩, hratchet, h⟩ := Checked.bind_eq_ok.mp h
    refine .inr ⟨buf, output, maxOutputLength, ratchet, hgives, ?_⟩
    cases result' with
    | none =>
      obtain ⟨rfl, rfl⟩ := eq_of_failRatchet h
      refine ⟨hratchet, fun _ => rfl, ?_⟩
      intro hsome
      cases hsome
    | some written =>
      simp only [Except.ok.injEq, Prod.mk.injEq] at h
      obtain ⟨rfl, rfl⟩ := h
      refine ⟨hratchet, ?_, fun _ => rfl⟩
      intro hnone
      cases hnone

/-- **Encrypting succeeds**, where the message fits into the buffer and the
ratchet has a sender chain or can make one. -/
theorem encrypt_of_room {started : Ratchet K} {senderChain : SenderChain K}
    (hlawful : prims.cipher.Lawful) (hsize : message.length < 2 ^ SIZE_WIDTH)
    (hlength : session.encryptMessageLength prims plaintext.length ≤ message.length)
    (hrandom : session.encryptRandomLength ≤ random.length)
    (hstart : session.ratchet.startSenderChain prims.ratchetConfig random =
      .ok (started, senderChain)) :
    ∃ session' buf' length,
      session.encrypt prims plaintext random message = .ok (session', some (buf', length)) := by
  obtain ⟨buf, output, maxOutputLength, hgives, hencrypt⟩ := encrypt_of_length random hlength
  obtain ⟨bytes, -, -, hratchet⟩ := Ratchet.encrypt_of_leaves hlawful.leaves hgives.room
    (hgives.length ▸ hsize) hrandom (Nat.le_of_eq hgives.max_eq.symm) hstart
  rw [hencrypt, hratchet, Checked.ok_bind]
  exact ⟨_, _, _, rfl⟩

/-- The buffer that a message needs can be had. -/
theorem encryptMessageLength_lt {senderChain : SenderChain K} {rest : List (SenderChain K)}
    (hchains : session.ratchet.senderChain.toList = senderChain :: rest)
    (hindex : senderChain.chainKey.index < 2 ^ 32) {plaintextLength : ℕ}
    (hsmall : prims.cipher.encryptCiphertextLength plaintextLength + prims.cipher.macLength <
      2 ^ 32) :
    session.encryptMessageLength prims plaintextLength < 2 ^ SIZE_WIDTH := by
  have h32 : CURVE25519_KEY_LENGTH = 32 := rfl
  have hversion : VERSION_LENGTH = 1 := rfl
  have hwidth : 2 ^ SIZE_WIDTH = 2 ^ 64 := rfl
  have hkey := varintLength_le CURVE25519_KEY_LENGTH
  have hcounter := varintLength_le senderChain.chainKey.index
  have hciphertext := varintLength_le (prims.cipher.encryptCiphertextLength plaintextLength)
  have hbody := varintLength_le
    (session.ratchet.encryptOutputLength prims.ratchetConfig plaintextLength)
  have hratchet : session.ratchet.encryptOutputLength prims.ratchetConfig plaintextLength <
      2 ^ 35 := by
    simp only [Ratchet.encryptOutputLength, hchains, encodeMessageLength, varstringLength,
      Primitives.ratchetConfig]
    omega
  unfold encryptMessageLength
  split
  · dsimp only
    omega
  · simp only [encodeOneTimeKeyMessageLength, varstringLength]
    omega

/-- **A message that was encrypted** is the header and the ratchet's message,
and a receiver finds it behind the header. -/
theorem encrypt_eq_some {P : (key : K) → (header body plaintext : Bytes) → Prop}
    (hleaves : prims.cipher.Leaves P) (hsize : message.length < 2 ^ SIZE_WIDTH)
    (h : session.encrypt prims plaintext random message = .ok (session', some (buf', length))) :
    ∃ (buf : Bytes) (output : ℕ) (ratchet : Ratchet K) (bytes : Bytes),
      GivesRatchet prims session plaintext message buf output bytes.length ∧
      session.ratchet.encrypt prims.ratchetConfig plaintext random buf output bytes.length =
        .ok (ratchet, some (buf', length)) ∧
      session' = { session with ratchet := ratchet } ∧ length = bytes.length ∧
      (buf'.drop output).take length = bytes ∧
      buf'.take (session.encryptMessageLength prims plaintext.length) =
        session.header bytes.length ++ bytes ∧
      Frames session.encryptMessageType (session.header bytes.length) bytes := by
  rcases encrypt_outcome h with ⟨hnone, -⟩ | ⟨buf, output, maxOutputLength, ratchet, hgives, hratchet,
    -, hsession⟩
  · cases hnone
  obtain ⟨started, senderChain, bytes, -, -, hlength, hbuf', hcut, -⟩ :=
    Ratchet.encrypt_eq_some_of_leaves hleaves hgives.room (hgives.length ▸ hsize) hratchet
  have hmax : maxOutputLength = bytes.length := by
    rw [hgives.max_eq, ← Ratchet.length_of_encrypt hratchet, hlength]
  subst hmax
  refine ⟨buf, output, ratchet, bytes, hgives, hratchet, hsession rfl, hlength, hcut, ?_, ?_⟩
  · rw [encryptMessageLength_eq, ← hgives.max_eq, hbuf', hgives.header, ← List.append_assoc]
    exact List.take_left' (List.length_append ..)
  · refine frames_header ?_
    have hroom := hgives.room
    have hbuf := hgives.length
    omega

/-- The sender chain that made the message, what the cipher left in it, and
the chain moved on. -/
theorem exists_sealedBy_of_encrypt {P : (key : K) → (header body plaintext : Bytes) → Prop}
    (hleaves : prims.cipher.Leaves P) (hsize : message.length < 2 ^ SIZE_WIDTH)
    (h : session.encrypt prims plaintext random message = .ok (session', some (buf', length))) :
    ∃ (started : Ratchet K) (senderChain : SenderChain K) (bytes : Bytes),
      session.ratchet.startSenderChain prims.ratchetConfig random = .ok (started, senderChain) ∧
      session' = { session with ratchet := { started with
        senderChain := started.senderChain.set 0
          { senderChain with
            chainKey := advanceChainKey prims.ratchetConfig senderChain.chainKey } } } ∧
      bytes.length < 2 ^ SIZE_WIDTH ∧
      SealedBy prims.ratchetConfig P
        (createMessageKeys prims.ratchetConfig senderChain.chainKey).key
        senderChain.ratchetKey.publicKey senderChain.chainKey.index plaintext bytes ∧
      buf'.take (session.encryptMessageLength prims plaintext.length) =
        session.header bytes.length ++ bytes ∧
      Frames session.encryptMessageType (session.header bytes.length) bytes := by
  obtain ⟨buf, output, ratchet, bytes, hgives, hratchet, hsession, -, hcut, htake, hframes⟩ :=
    encrypt_eq_some hleaves hsize h
  obtain ⟨started, senderChain, bytes', hstart, hmoved, -, -, hcut', hsealed⟩ :=
    Ratchet.encrypt_eq_some_of_leaves hleaves hgives.room (hgives.length ▸ hsize) hratchet
  obtain rfl : bytes' = bytes := hcut'.symm.trans hcut
  have hbytes : bytes'.length < 2 ^ SIZE_WIDTH := by
    have hroom := hgives.room
    have hlength := hgives.length
    omega
  rw [hmoved] at hsession
  exact ⟨started, senderChain, bytes', hstart, hsession, hbytes, hsealed, htake, hframes⟩

/-- **An error of `encrypt`** is one of two, and changes nothing but
`last_error`, where the ratchet has no error left. -/
theorem eq_of_encrypt_none (hnoError : session.ratchet.lastError = .SUCCESS)
    (h : session.encrypt prims plaintext random message = .ok (session', none)) :
    (session'.lastError = .NOT_ENOUGH_RANDOM ∨ session'.lastError = .OUTPUT_BUFFER_TOO_SMALL) ∧
      session' = { session with lastError := session'.lastError } := by
  rcases encrypt_outcome h with ⟨-, rfl⟩ | ⟨buf, output, maxOutputLength, ratchet, -, hratchet,
    hnone, -⟩
  · exact ⟨.inr rfl, rfl⟩
  · obtain ⟨code, hcode, rfl⟩ := Ratchet.eq_of_encrypt_none hratchet
    rw [hnone rfl]
    refine ⟨hcode, ?_⟩
    rw [← hnoError]

end Olm.Session
