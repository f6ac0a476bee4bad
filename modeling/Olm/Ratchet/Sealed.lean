import Olm.Ratchet.Spec

/-!
# Messages between honest ratchets

What `encrypt` writes is a sealed message: a header, and a body that opens
to the plain text under the message key. `decrypt` accepts a sealed message
wherever the ratchet has that key: on a new chain, on a chain it has not
moved past the message, or among the skipped keys.
-/

namespace Olm

variable {K : Type} {config : RatchetConfig K}

/-! ## Sealed messages -/

/-- **The bytes of a message**: its header, and a body that opens under
`key`. -/
def Sealed (config : RatchetConfig K) (key : K) (ratchetKey : Curve25519PublicKey) (counter : ℕ)
    (plaintext bytes : Bytes) : Prop :=
  let ciphertextLength := config.ratchetCipher.encryptCiphertextLength plaintext.length
  let header := messageHeader PROTOCOL_VERSION ratchetKey.val counter ciphertextLength
  ciphertextLength < 2 ^ SIZE_WIDTH ∧
  ∃ body, bytes = header ++ body ∧
    body.length = ciphertextLength + config.ratchetCipher.macLength ∧
    config.ratchetCipher.Opens key header body plaintext

/-- The bytes of a message, with a body that the cipher leaves under `key`. -/
def SealedBy (config : RatchetConfig K) (P : (key : K) → (header body plaintext : Bytes) → Prop)
    (key : K) (ratchetKey : Curve25519PublicKey) (counter : ℕ) (plaintext bytes : Bytes) : Prop :=
  let ciphertextLength := config.ratchetCipher.encryptCiphertextLength plaintext.length
  let header := messageHeader PROTOCOL_VERSION ratchetKey.val counter ciphertextLength
  ciphertextLength < 2 ^ SIZE_WIDTH ∧
  ∃ body, bytes = header ++ body ∧
    body.length = ciphertextLength + config.ratchetCipher.macLength ∧
    P key header body plaintext

theorem Sealed.sealedBy {key : K} {ratchetKey : Curve25519PublicKey} {counter : ℕ}
    {plaintext bytes : Bytes} (h : Sealed config key ratchetKey counter plaintext bytes) :
    SealedBy config config.ratchetCipher.Opens key ratchetKey counter plaintext bytes := h

/-- The room a receiver needs for the plain text. -/
def plaintextRoom (config : RatchetConfig K) (plaintext : Bytes) : ℕ :=
  config.ratchetCipher.decryptMaxPlaintextLength
    (config.ratchetCipher.encryptCiphertextLength plaintext.length)

/-- The message does not open under the key, wherever it is and whatever
room there is. -/
def Rejects (config : RatchetConfig K) (key : K) (bytes : Bytes) : Prop :=
  ∀ (pre post : Bytes) (reader : MessageReader) (index maxPlaintextLength : ℕ),
    decodeMessage (pre ++ (bytes ++ post)) pre.length bytes.length
      config.ratchetCipher.macLength = .ok reader →
    Ratchet.verifyMacAndDecrypt config { index := index, key := key } (pre ++ (bytes ++ post)) reader
      maxPlaintextLength = .ok none

/-- What `decrypt` reads in a message of an honest sender. -/
structure ReadAs (config : RatchetConfig K) (buf : Bytes) (input inputLength : ℕ)
    (reader : MessageReader) (ratchetKey : Curve25519PublicKey) (counter : ℕ) : Prop where
  decoded : decodeMessage buf input inputLength config.ratchetCipher.macLength = .ok reader
  counter_eq : reader.counter.value = counter
  loaded : (nonNull reader.ratchetKey.value >>= loadArray CURVE25519_KEY_LENGTH buf) =
    .ok ratchetKey

/-- A message in a buffer, from its header on. -/
theorem drop_message (pre header body post : Bytes) :
    (pre ++ ((header ++ body) ++ post)).drop pre.length = header ++ (body ++ post) := by
  rw [List.drop_left, List.append_assoc]

/-- **A sealed message is read as it was made.** Where there is room for the
plain text, its key opens it, and `decrypt` is `decryptReader` on its counter
and ratchet key. -/
theorem Sealed.readAs {key : K} {ratchetKey : Curve25519PublicKey} {counter : ℕ}
    {plaintext bytes : Bytes} (h : Sealed config key ratchetKey counter plaintext bytes)
    (hcounter : counter < 2 ^ 32) (pre post : Bytes) :
    ∃ reader,
      ReadAs config (pre ++ (bytes ++ post)) pre.length bytes.length reader ratchetKey counter ∧
      ∀ maxPlaintextLength, plaintextRoom config plaintext ≤ maxPlaintextLength →
        (∀ index, Ratchet.verifyMacAndDecrypt config { index := index, key := key }
          (pre ++ (bytes ++ post)) reader maxPlaintextLength = .ok (some plaintext)) ∧
        ∀ (ratchet : Ratchet K) (isSequential : Bool),
          ratchet.decrypt config (pre ++ (bytes ++ post)) pre.length bytes.length
            maxPlaintextLength isSequential =
          ratchet.decryptReader config (pre ++ (bytes ++ post)) reader ratchetKey
            maxPlaintextLength isSequential := by
  obtain ⟨hsize, body, rfl, hbody, hopens⟩ := h
  have hdrop := drop_message pre (messageHeader PROTOCOL_VERSION ratchetKey.val counter
    (config.ratchetCipher.encryptCiphertextLength plaintext.length)) body post
  refine ⟨Ratchet.readerOf pre.length (messageHeader PROTOCOL_VERSION ratchetKey.val counter
      (config.ratchetCipher.encryptCiphertextLength plaintext.length)).length body.length counter
      (config.ratchetCipher.encryptCiphertextLength plaintext.length),
    ⟨?_, rfl, Ratchet.load_readerOf hdrop⟩, fun maxPlaintextLength hmax => ⟨?_, ?_⟩⟩
  · rw [List.length_append]
    exact Ratchet.decodeMessage_eq_readerOf config hdrop rfl hbody hsize hcounter
  · intro index
    simp only [Ratchet.verifyMacAndDecrypt, Ratchet.readerOf, nonNull, Checked.ok_bind]
    exact hopens _ pre post maxPlaintextLength (by rw [List.append_assoc]) hmax
  · intro ratchet isSequential
    rw [List.length_append]
    exact Ratchet.decrypt_eq_decryptReader config ratchet isSequential hdrop rfl hbody hsize
      hcounter hmax

/-- What the cipher leaves behind a header is a sealed message. -/
theorem sealed_of_encrypt (hlawful : config.ratchetCipher.Lawful) {key : K}
    {ratchetKey : Curve25519PublicKey} {counter ciphertextLength : ℕ}
    {plaintext header room body : Bytes}
    (hciphertext : config.ratchetCipher.encryptCiphertextLength plaintext.length = ciphertextLength)
    (hheader : messageHeader PROTOCOL_VERSION ratchetKey.val counter ciphertextLength = header)
    (hsize : ciphertextLength < 2 ^ SIZE_WIDTH)
    (hroom : room.length = ciphertextLength + config.ratchetCipher.macLength)
    (hrun : config.ratchetCipher.encrypt key plaintext (header ++ room) header.length
      ciphertextLength 0 (header.length + room.length) = .ok (some (header ++ body))) :
    Sealed config key ratchetKey counter plaintext (header ++ body) := by
  subst hciphertext hheader
  obtain ⟨body', hbody', hencrypt, hopens⟩ := hlawful key plaintext [] _ room [] hroom
  simp only [List.append_nil, List.nil_append, List.length_nil, Nat.zero_add] at hencrypt
  rw [hrun] at hencrypt
  obtain rfl : body = body' :=
    List.append_cancel_left (Option.some.inj (Except.ok.inj hencrypt))
  exact ⟨hsize, body, rfl, hbody'.trans hroom, hopens⟩

/-- Without the room for the plain text nothing is decrypted. -/
theorem Sealed.decrypt_of_small {key : K} {ratchetKey : Curve25519PublicKey} {counter : ℕ}
    {plaintext bytes pre post : Bytes} (h : Sealed config key ratchetKey counter plaintext bytes)
    (hcounter : counter < 2 ^ 32) (ratchet : Ratchet K) {maxPlaintextLength : ℕ}
    (isSequential : Bool) (hsmall : maxPlaintextLength < plaintextRoom config plaintext) :
    ratchet.decrypt config (pre ++ (bytes ++ post)) pre.length bytes.length maxPlaintextLength
      isSequential = ratchet.fail .OUTPUT_BUFFER_TOO_SMALL := by
  obtain ⟨hsize, body, rfl, hbody, -⟩ := h
  have hdrop := drop_message pre (messageHeader PROTOCOL_VERSION ratchetKey.val counter
    (config.ratchetCipher.encryptCiphertextLength plaintext.length)) body post
  rw [List.length_append]
  exact Ratchet.decrypt_of_small config ratchet isSequential hdrop rfl hbody hsize hcounter hsmall

/-- **The exits of `decrypt` on a sealed message.** -/
theorem Sealed.decrypt_outcome {key : K} {ratchetKey : Curve25519PublicKey} {counter : ℕ}
    {plaintext bytes pre post : Bytes} (h : Sealed config key ratchetKey counter plaintext bytes)
    (hcounter : counter < 2 ^ 32) {ratchet ratchet' : Ratchet K} {maxPlaintextLength : ℕ}
    {isSequential : Bool} {result : Option Bytes}
    (hrun : ratchet.decrypt config (pre ++ (bytes ++ post)) pre.length bytes.length
      maxPlaintextLength isSequential = .ok (ratchet', result)) :
    (result = none ∧ ratchet' = { ratchet with lastError := .OUTPUT_BUFFER_TOO_SMALL }) ∨
    ∃ reader,
      ReadAs config (pre ++ (bytes ++ post)) pre.length bytes.length reader ratchetKey counter ∧
      Ratchet.Outcome config ratchet (pre ++ (bytes ++ post)) reader ratchetKey maxPlaintextLength
        isSequential ratchet' result := by
  by_cases hroom : plaintextRoom config plaintext ≤ maxPlaintextLength
  · obtain ⟨reader, hread, hopens⟩ := h.readAs hcounter pre post
    rw [(hopens maxPlaintextLength hroom).2] at hrun
    exact .inr ⟨reader, hread, Ratchet.decryptReader_outcome hread.loaded hrun⟩
  · rw [h.decrypt_of_small hcounter _ _ (Nat.lt_of_not_le hroom)] at hrun
    exact .inl (Ratchet.eq_of_fail hrun).symm

/-! ## Encrypting -/

namespace Ratchet

variable {ratchet ratchet' : Ratchet K} {plaintext random buf buf' : Bytes}
  {output maxOutputLength length : ℕ}

/-- The sender chain that `encrypt` uses is the one that is there, or a new
one that starts at 0. -/
theorem startSenderChain_exits {senderChain : SenderChain K}
    (h : ratchet.startSenderChain config random = .ok (ratchet', senderChain)) :
    (∃ rest, ratchet.senderChain.toList = senderChain :: rest ∧ ratchet' = ratchet) ∨
    (ratchet.senderChain.toList = [] ∧ senderChain.chainKey.index = 0 ∧
      ∃ rootKey, ratchet' = { ratchet with
        rootKey := rootKey, senderChain := ratchet.senderChain.push senderChain }) := by
  unfold startSenderChain at h
  split at h
  · rename_i chain rest hchains
    simp only [Except.ok.injEq, Prod.mk.injEq] at h
    obtain ⟨rfl, rfl⟩ := h
    exact .inl ⟨rest, hchains, rfl⟩
  · rename_i hchains
    obtain ⟨key, -, h⟩ := Checked.bind_eq_ok.mp h
    split at h
    · simp at h
    · simp only [Except.ok.injEq, Prod.mk.injEq] at h
      obtain ⟨rfl, rfl⟩ := h
      exact .inr ⟨hchains, rfl, _, rfl⟩

/-- The length that `encrypt` asks for is that of a message of the chain it
then uses. -/
theorem encryptOutputLength_eq {senderChain : SenderChain K}
    (h : ratchet.startSenderChain config random = .ok (ratchet', senderChain))
    (plaintextLength : ℕ) :
    ratchet.encryptOutputLength config plaintextLength =
      encodeMessageLength senderChain.chainKey.index CURVE25519_KEY_LENGTH
        (config.ratchetCipher.encryptCiphertextLength plaintextLength)
        config.ratchetCipher.macLength := by
  unfold encryptOutputLength
  rcases startSenderChain_exits h with ⟨rest, hchains, -⟩ | ⟨hchains, hindex, -⟩
  · simp only [hchains]
  · simp only [hchains, hindex]

/-- Starting a sender chain leaves what a message is received with. -/
theorem frame_of_startSenderChain {senderChain : SenderChain K}
    (h : ratchet.startSenderChain config random = .ok (ratchet', senderChain)) :
    ratchet'.receiverChains = ratchet.receiverChains ∧
      ratchet'.skippedMessageKeys = ratchet.skippedMessageKeys ∧
      ratchet'.lastError = ratchet.lastError := by
  rcases startSenderChain_exits h with ⟨-, -, rfl⟩ | ⟨-, -, rootKey, rfl⟩
  · exact ⟨rfl, rfl, rfl⟩
  · exact ⟨rfl, rfl, rfl⟩

/-- **The exits of `encrypt`**: one of two errors, which leaves the ratchet as
it was, or the sender chain moved on. -/
theorem encrypt_exits {result : Option (Bytes × ℕ)}
    (h : ratchet.encrypt config plaintext random buf output maxOutputLength =
      .ok (ratchet', result)) :
    (result = none ∧ ∃ code, (code = .NOT_ENOUGH_RANDOM ∨ code = .OUTPUT_BUFFER_TOO_SMALL) ∧
      ratchet' = { ratchet with lastError := code }) ∨
    ∃ (started : Ratchet K) (senderChain : SenderChain K) (buf' : Bytes),
      ratchet.startSenderChain config random = .ok (started, senderChain) ∧
      ratchet' = { started with
        senderChain := started.senderChain.set 0
          { senderChain with chainKey := advanceChainKey config senderChain.chainKey } } ∧
      result = some (buf', ratchet.encryptOutputLength config plaintext.length) ∧
      ratchet.encryptRandomLength ≤ random.length ∧
      ratchet.encryptOutputLength config plaintext.length ≤ maxOutputLength := by
  unfold encrypt at h
  dsimp only at h
  split at h
  · obtain ⟨hratchet, hresult⟩ := eq_of_fail h
    exact .inl ⟨hresult, _, .inl rfl, hratchet⟩
  · rename_i hrandom
    split at h
    · obtain ⟨hratchet, hresult⟩ := eq_of_fail h
      exact .inl ⟨hresult, _, .inr rfl, hratchet⟩
    · rename_i hlength
      obtain ⟨⟨started, senderChain⟩, hstart, h⟩ := Checked.bind_eq_ok.mp h
      simp only [Checked.bind_eq_ok] at h
      obtain ⟨_, -, _, -, _, -, h⟩ := h
      simp only [Except.ok.injEq, Prod.mk.injEq] at h
      exact .inr ⟨started, senderChain, _, hstart, h.1.symm, h.2.symm, Nat.le_of_not_lt hrandom,
        Nat.le_of_not_lt hlength⟩

/-- Encrypting leaves what a message is received with. -/
theorem frame_of_encrypt {result : Option (Bytes × ℕ)}
    (h : ratchet.encrypt config plaintext random buf output maxOutputLength =
      .ok (ratchet', result)) :
    ratchet'.receiverChains = ratchet.receiverChains ∧
      ratchet'.skippedMessageKeys = ratchet.skippedMessageKeys ∧
      (result.isSome → ratchet'.lastError = ratchet.lastError) := by
  rcases encrypt_exits h with ⟨rfl, code, -, rfl⟩ |
    ⟨started, senderChain, _, hstart, rfl, rfl, -⟩
  · exact ⟨rfl, rfl, fun hsome => nomatch hsome⟩
  · obtain ⟨hreceivers, hskipped, herror⟩ := frame_of_startSenderChain hstart
    exact ⟨hreceivers, hskipped, fun _ => herror⟩

/-- An error of `encrypt` changes nothing but `last_error`. -/
theorem eq_of_encrypt_none
    (h : ratchet.encrypt config plaintext random buf output maxOutputLength =
      .ok (ratchet', none)) :
    ∃ code, (code = .NOT_ENOUGH_RANDOM ∨ code = .OUTPUT_BUFFER_TOO_SMALL) ∧
      ratchet' = { ratchet with lastError := code } := by
  rcases encrypt_exits h with ⟨-, hsame⟩ | ⟨_, _, _, -, -, hsome, -⟩
  · exact hsame
  · cases hsome

theorem length_of_encrypt
    (h : ratchet.encrypt config plaintext random buf output maxOutputLength =
      .ok (ratchet', some (buf', length))) :
    length = ratchet.encryptOutputLength config plaintext.length := by
  rcases encrypt_exits h with ⟨hnone, -⟩ | ⟨_, _, _, -, -, hsome, -⟩
  · cases hnone
  · exact (Prod.mk.inj (Option.some.inj hsome)).2

/-- **Encrypting succeeds**, where the buffer has the room its caller says: the
message of the sender chain, with what the cipher leaves, in place, and the
chain moved on. -/
theorem encrypt_of_leaves {P : (key : K) → (header body plaintext : Bytes) → Prop}
    {started : Ratchet K} {senderChain : SenderChain K}
    (hleaves : config.ratchetCipher.Leaves P) (hroom : output + maxOutputLength ≤ buf.length)
    (hbuf : buf.length < 2 ^ SIZE_WIDTH) (hrandom : ratchet.encryptRandomLength ≤ random.length)
    (hlength : ratchet.encryptOutputLength config plaintext.length ≤ maxOutputLength)
    (hstart : ratchet.startSenderChain config random = .ok (started, senderChain)) :
    ∃ bytes : Bytes,
      bytes.length = ratchet.encryptOutputLength config plaintext.length ∧
      SealedBy config P (createMessageKeys config senderChain.chainKey).key
        senderChain.ratchetKey.publicKey senderChain.chainKey.index plaintext bytes ∧
      ratchet.encrypt config plaintext random buf output maxOutputLength =
        .ok ({ started with
            senderChain := started.senderChain.set 0
              { senderChain with chainKey := advanceChainKey config senderChain.chainKey } },
          some (buf.take output ++ (bytes ++ buf.drop (output + bytes.length)), bytes.length)) := by
  have htotal := encryptOutputLength_eq hstart plaintext.length
  have hlen := encodeMessageLength_eq PROTOCOL_VERSION senderChain.ratchetKey.publicKey.val
    senderChain.chainKey.index (config.ratchetCipher.encryptCiphertextLength plaintext.length)
    config.ratchetCipher.macLength
  rw [FixedBytes.length_val, ← htotal] at hlen
  unfold encrypt
  rw [if_neg (Nat.not_lt.mpr hrandom), if_neg (Nat.not_lt.mpr hlength), hstart, Checked.ok_bind]
  dsimp only
  generalize hct : config.ratchetCipher.encryptCiphertextLength plaintext.length = ct at hlen htotal ⊢
  generalize hheader : messageHeader PROTOCOL_VERSION senderChain.ratchetKey.publicKey.val
    senderChain.chainKey.index ct = header at hlen
  -- the buffer, cut at the message, at the end of its header and at its own end
  obtain ⟨pre, room, body, post, hcut, hpre, hheaderRoom, hbodyRoom⟩ :
      ∃ pre room body post : Bytes, buf = pre ++ (room ++ (body ++ post)) ∧
        pre.length = output ∧ room.length = header.length ∧
        body.length = ct + config.ratchetCipher.macLength := by
    refine ⟨buf.take output, (buf.drop output).take header.length,
      (buf.drop (output + header.length)).take (ct + config.ratchetCipher.macLength),
      buf.drop (output + header.length + (ct + config.ratchetCipher.macLength)), ?_, ?_, ?_, ?_⟩
    · rw [← List.drop_drop (i := ct + config.ratchetCipher.macLength), List.take_append_drop,
        ← List.drop_drop, List.take_append_drop, List.take_append_drop]
    · rw [List.length_take]; omega
    · rw [List.length_take, List.length_drop]; omega
    · rw [List.length_take, List.length_drop]; omega
  subst hcut hpre
  obtain ⟨writer, hwriter, hciphertext, hkey⟩ := encodeMessage_append PROTOCOL_VERSION
    senderChain.chainKey.index ct senderChain.ratchetKey.publicKey.val pre room (body ++ post)
    (by rw [hheader]; exact hheaderRoom)
  rw [FixedBytes.length_val] at hwriter
  rw [hheader] at hkey
  obtain ⟨body', hbody', hencrypt, hopens⟩ := hleaves
    (createMessageKeys config senderChain.chainKey).key plaintext pre header body post
    (by rw [hct]; exact hbodyRoom)
  rw [hct] at hencrypt
  have hsum : header.length + body.length =
      ratchet.encryptOutputLength config plaintext.length := by omega
  have hbytes : (header ++ body').length = ratchet.encryptOutputLength config plaintext.length := by
    rw [List.length_append, hbody', hsum]
  rw [hsum] at hencrypt
  refine ⟨header ++ body', hbytes, ⟨?_, body', ?_, ?_, ?_⟩, ?_⟩
  · simp only [List.length_append] at hbuf
    rw [hct]
    omega
  · rw [hct, hheader]
  · rw [hct, hbody', hbodyRoom]
  · rw [hct, hheader]
    exact hopens
  · have hdrop : (pre ++ (room ++ (body ++ post))).drop
        (pre.length + (header ++ body').length) = post := by
      rw [← List.drop_drop, List.drop_left, ← List.append_assoc room]
      exact List.drop_left' (by rw [List.length_append, List.length_append]; omega)
    simp only [createMessageKeys] at hencrypt
    simp only [createMessageKeys, hwriter, Checked.ok_bind, hkey, hciphertext, hheaderRoom,
      hencrypt, Option.getD_some]
    rw [List.take_left, hdrop, hbytes, List.append_assoc]

/-- **What `encrypt` leaves**, where the buffer has the room its caller says:
the message of the sender chain, in place, and the chain moved on. -/
theorem encrypt_eq_some_of_leaves {P : (key : K) → (header body plaintext : Bytes) → Prop}
    (hleaves : config.ratchetCipher.Leaves P)
    (hroom : output + maxOutputLength ≤ buf.length) (hbuf : buf.length < 2 ^ SIZE_WIDTH)
    (h : ratchet.encrypt config plaintext random buf output maxOutputLength =
      .ok (ratchet', some (buf', length))) :
    ∃ (started : Ratchet K) (senderChain : SenderChain K) (bytes : Bytes),
      ratchet.startSenderChain config random = .ok (started, senderChain) ∧
      ratchet' = { started with
        senderChain := started.senderChain.set 0
          { senderChain with chainKey := advanceChainKey config senderChain.chainKey } } ∧
      length = bytes.length ∧
      buf' = buf.take output ++ (bytes ++ buf.drop (output + bytes.length)) ∧
      (buf'.drop output).take length = bytes ∧
      SealedBy config P (createMessageKeys config senderChain.chainKey).key
        senderChain.ratchetKey.publicKey senderChain.chainKey.index plaintext bytes := by
  rcases encrypt_exits h with ⟨hnone, -⟩ | ⟨started, senderChain, _, hstart, -, -, hrandom, hlength⟩
  · cases hnone
  obtain ⟨bytes, hbytes, hsealed, hrun⟩ := encrypt_of_leaves hleaves hroom hbuf hrandom hlength hstart
  rw [hrun] at h
  simp only [Except.ok.injEq, Prod.mk.injEq, Option.some.injEq] at h
  obtain ⟨rfl, rfl, rfl⟩ := h
  refine ⟨started, senderChain, bytes, hstart, rfl, rfl, rfl, ?_, hsealed⟩
  have hpre : (buf.take output).length = output := by
    rw [List.length_take]
    omega
  rw [List.drop_left' hpre, List.take_left]

/-- **What `encrypt` leaves**, where the buffer has the room its caller says:
the message of the sender chain, sealed, in place, and the chain moved on. -/
theorem encrypt_eq_some (hlawful : config.ratchetCipher.Lawful)
    (hroom : output + maxOutputLength ≤ buf.length) (hbuf : buf.length < 2 ^ SIZE_WIDTH)
    (h : ratchet.encrypt config plaintext random buf output maxOutputLength =
      .ok (ratchet', some (buf', length))) :
    ∃ (started : Ratchet K) (senderChain : SenderChain K) (bytes : Bytes),
      ratchet.startSenderChain config random = .ok (started, senderChain) ∧
      ratchet' = { started with
        senderChain := started.senderChain.set 0
          { senderChain with chainKey := advanceChainKey config senderChain.chainKey } } ∧
      length = bytes.length ∧
      buf' = buf.take output ++ (bytes ++ buf.drop (output + bytes.length)) ∧
      (buf'.drop output).take length = bytes ∧
      Sealed config (createMessageKeys config senderChain.chainKey).key
        senderChain.ratchetKey.publicKey senderChain.chainKey.index plaintext bytes :=
  encrypt_eq_some_of_leaves hlawful.leaves hroom hbuf h

end Ratchet

end Olm
