import Olm.Base64.RoundTrip
import Olm.Pk.Model
import Olm.Symbolic

/-!
# The code of a public key message does not cover its cipher text

`olm_pk_encrypt` passes `raw_mac` for `output`, so the cipher authenticates the
`MAC_LENGTH - MAC_LENGTH` bytes before the code: none. The code is the same
for every cipher text under a secret, and `olm_pk_decrypt`, which passes
`raw_mac` for `input`, accepts it with any other
(`decrypt_of_other_ciphertext`).
-/

namespace Olm

open Base64

variable (curve : Curve25519) (hashes : Hashes) (aes : Aes256)

/-- What the cipher derives from a secret. -/
def pkKeys (secret : Curve25519SharedSecret) : DerivedKeys :=
  AesSha256.deriveKeys hashes [] secret.val

/-- These characters are accepted, and decode to these bytes. -/
def DecodesTo (chars raw : Bytes) : Prop :=
  decodeBase64 (.object chars) chars.length (List.replicate raw.length 0) 0 =
    .ok (raw, some raw.length)

theorem decodesTo_encode (raw : Bytes) : DecodesTo (encode raw) raw :=
  decodeBase64_object raw List.length_replicate

theorem DecodesTo.eq {chars raw : Bytes} (h : DecodesTo chars raw) :
    decodeBase64Length chars.length = some raw.length ∧ decode chars = raw := by
  have hin : (Base64Input.object chars).Holds (List.replicate raw.length 0) 0 chars :=
    ⟨[], (List.append_nil chars).symm⟩
  have hread := decodeBase64_eq hin trivial (Nat.zero_le _)
  rw [h] at hread
  cases hlen : decodeBase64Length chars.length with
  | none =>
    rw [hlen] at hread
    simp only [Except.ok.injEq, Prod.mk.injEq, reduceCtorEq, and_false] at hread
  | some k =>
    rw [hlen] at hread
    obtain ⟨buf, hwrite, hbuf⟩ := Checked.bind_eq_ok.mp hread.symm
    simp only [Except.ok.injEq, Prod.mk.injEq, Option.some.injEq] at hbuf
    obtain ⟨rfl, rfl⟩ := hbuf
    -- as many bytes were written as the array has
    have hlength : (decode chars).length = (List.replicate buf.length (0 : UInt8)).length := by
      rw [length_decode hlen, List.length_replicate]
    have hwhole := writeAt_zero_append hlength []
    rw [List.append_nil, List.append_nil, hwrite] at hwhole
    simp only [Except.ok.injEq] at hwhole
    exact ⟨rfl, hwhole.symm⟩

namespace AesSha256

/-- Over an array that is all code, what is authenticated is empty. -/
theorem encryptApart_mac (key plaintext gap : Bytes) {old : Bytes}
    (hold : old.length = aesEncryptCbcLength plaintext.length) :
    encryptApart hashes aes [] key plaintext (gap ++ old) gap.length
        (aesEncryptCbcLength plaintext.length) (List.replicate MAC_LENGTH 0) 0 MAC_LENGTH =
      .ok (some (gap ++ aesEncryptCbc aes (deriveKeys hashes [] key).aesKey
          (deriveKeys hashes [] key).aesIv plaintext,
        mac hashes (deriveKeys hashes [] key) [], MAC_LENGTH)) := by
  obtain ⟨keys, hkeys⟩ : ∃ keys, deriveKeys hashes [] key = keys := ⟨_, rfl⟩
  obtain ⟨raw, hraw⟩ : ∃ raw, aesEncryptCbc aes keys.aesKey keys.aesIv plaintext = raw := ⟨_, rfl⟩
  have hrawLength : raw.length = old.length := by
    rw [← hraw, aesEncryptCbc_length_eq, hold]
  have hwrite := writeAt_append gap [] hrawLength
  have hmac := writeAt_zero_append
    (by rw [mac_length, List.length_replicate] :
      (mac hashes keys []).length = (List.replicate MAC_LENGTH (0 : UInt8)).length) []
  rw [List.append_nil, List.append_nil] at hwrite hmac
  have hread : readBytes (List.replicate MAC_LENGTH 0) 0 (MAC_LENGTH - MAC_LENGTH) = .ok [] := rfl
  have hpos : 0 + MAC_LENGTH - MAC_LENGTH = 0 := rfl
  unfold encryptApart
  rw [if_neg (by omega)]
  simp only [hkeys, hraw, hwrite, hread, hpos, hmac, Checked.ok_bind]

end AesSha256

namespace OlmPkEncryption

/-- The three strings, each cut to the length that is reported for it. -/
def cut (prims : PkPrimitives) (message : PkMessage) (plaintextLength : ℕ) : PkMessage where
  ciphertext := message.ciphertext.take (ciphertextLength prims plaintextLength)
  mac := message.mac.take (macLength prims)
  ephemeralKey := message.ephemeralKey.take pkKeyLength

/-- What `olm_pk_encrypt` does with buffers that it does not refuse: the cipher
text and the ephemeral key are written, and then the code. -/
theorem encrypt_upToMac (encryption : OlmPkEncryption) (plaintext : Bytes) {room : PkMessage}
    {random : Bytes}
    (hciphertext : ciphertextLength (.ofHashes curve hashes aes) plaintext.length ≤
      room.ciphertext.length)
    (hmac : MAC_LENGTH ≤ room.mac.length) (hephemeral : pkKeyLength ≤ room.ephemeralKey.length)
    (hrandom : encryptRandomLength ≤ random.length) :
    ∃ pair keys ciphertext, curve.Generated pair ∧
      keys = pkKeys hashes (curve.sharedSecret pair encryption.recipientKey) ∧
      ciphertext.length = room.ciphertext.length ∧
      ciphertext.take (ciphertextLength (.ofHashes curve hashes aes) plaintext.length) =
        encode (aesEncryptCbc aes keys.aesKey keys.aesIv plaintext) ∧
      encryption.encrypt (.ofHashes curve hashes aes) plaintext room random =
        encodeBase64 (.object (AesSha256.mac hashes keys [])) MAC_LENGTH room.mac 0 >>= fun code =>
          .ok (encryption,
            { ciphertext := ciphertext
              mac := code.1
              ephemeralKey := encode pair.publicKey.val ++ room.ephemeralKey.drop pkKeyLength },
            some MAC_LENGTH) := by
  obtain ⟨seed, hseed, -⟩ := loadArray_of_le
    (by rw [Nat.zero_add]; exact hrandom : 0 + CURVE25519_KEY_LENGTH ≤ random.length)
  obtain ⟨pair, hpair⟩ : ∃ pair, curve.generateKey seed = pair := ⟨_, rfl⟩
  obtain ⟨keys, hkeys⟩ : ∃ keys, pkKeys hashes (curve.sharedSecret pair encryption.recipientKey) =
      keys := ⟨_, rfl⟩
  obtain ⟨raw, hraw⟩ : ∃ raw, aesEncryptCbc aes keys.aesKey keys.aesIv plaintext = raw := ⟨_, rfl⟩
  have hrawLength : raw.length = aesEncryptCbcLength plaintext.length := by
    rw [← hraw, aesEncryptCbc_length_eq]
  have hlength : encodeBase64Length (aesEncryptCbcLength plaintext.length) ≤
      room.ciphertext.length := hciphertext
  have hfit : aesEncryptCbcLength plaintext.length ≤
      encodeBase64Length (aesEncryptCbcLength plaintext.length) := by
    unfold encodeBase64Length
    omega
  -- the cipher text is built at the end of its buffer
  obtain ⟨gap, old, hroom, hgap, hold⟩ := exists_cut
    (by omega : room.ciphertext.length = room.ciphertext.length -
      aesEncryptCbcLength plaintext.length + aesEncryptCbcLength plaintext.length)
  have hcipher := AesSha256.encryptApart_mac hashes aes
    (curve.sharedSecret pair encryption.recipientKey).val plaintext gap hold
  rw [← hroom, hgap] at hcipher
  have hkey : encodeBase64 (.object pair.publicKey.val) CURVE25519_KEY_LENGTH room.ephemeralKey 0 =
      .ok (encode pair.publicKey.val ++ room.ephemeralKey.drop pkKeyLength, pkKeyLength) :=
    encodeBase64_object_into pair.publicKey.property hephemeral
  have htext := encodeBase64_within_of_le []
    (by rw [hgap, hrawLength]; omega : encodeBase64Length raw.length ≤ gap.length + raw.length)
  rw [List.append_nil, hrawLength, hgap] at htext
  have hkeysCipher : AesSha256.deriveKeys hashes []
      (curve.sharedSecret pair encryption.recipientKey).val = keys := hkeys
  have hencryptLength : (PkPrimitives.ofHashes curve hashes aes).cipher.encryptCiphertextLength
      plaintext.length = aesEncryptCbcLength plaintext.length := rfl
  have hencrypt : (PkPrimitives.ofHashes curve hashes aes).cipher.encrypt =
      AesSha256.encryptApart hashes aes [] := rfl
  have hcurve : (PkPrimitives.ofHashes curve hashes aes).curve = curve := rfl
  have hmacLength : (PkPrimitives.ofHashes curve hashes aes).cipher.macLength = MAC_LENGTH := rfl
  rw [hkeysCipher, hraw] at hcipher
  have hencodeRaw : (encode raw).length =
      encodeBase64Length (aesEncryptCbcLength plaintext.length) := by
    rw [encode_length, hrawLength]
  refine ⟨pair, keys,
    encode raw ++ (gap ++ raw).drop (encodeBase64Length (aesEncryptCbcLength plaintext.length)),
    hpair ▸ curve.generated_generateKey seed, hkeys.symm, ?_, ?_, ?_⟩
  · simp only [List.length_append, List.length_drop, hencodeRaw]
    omega
  · rw [hraw]
    exact List.take_left' hencodeRaw
  · unfold encrypt
    rw [if_neg (by omega), if_neg (by omega), hseed, Checked.ok_bind]
    simp only [hcurve, hpair, hkey, Checked.ok_bind, hencryptLength, hencrypt, hcipher, htext]

/-- **What `olm_pk_encrypt` writes**, to the front of buffers with enough
room: the code is the one of no bytes. -/
theorem encrypt_into (encryption : OlmPkEncryption) (plaintext : Bytes) {room : PkMessage}
    {random : Bytes}
    (hciphertext : ciphertextLength (.ofHashes curve hashes aes) plaintext.length ≤
      room.ciphertext.length)
    (hmac : macLength (.ofHashes curve hashes aes) ≤ room.mac.length)
    (hephemeral : pkKeyLength ≤ room.ephemeralKey.length)
    (hrandom : encryptRandomLength ≤ random.length) :
    ∃ pair keys message, curve.Generated pair ∧
      keys = pkKeys hashes (curve.sharedSecret pair encryption.recipientKey) ∧
      encryption.encrypt (.ofHashes curve hashes aes) plaintext room random =
        .ok (encryption, message, some MAC_LENGTH) ∧
      message.ciphertext.length = room.ciphertext.length ∧ message.mac.length = room.mac.length ∧
      message.ephemeralKey.length = room.ephemeralKey.length ∧
      cut (.ofHashes curve hashes aes) message plaintext.length =
        { ciphertext := encode (aesEncryptCbc aes keys.aesKey keys.aesIv plaintext)
          mac := encode (AesSha256.mac hashes keys [])
          ephemeralKey := encode pair.publicKey.val } := by
  have hmacLength : macLength (.ofHashes curve hashes aes) = encodeBase64Length MAC_LENGTH := rfl
  have hraw : MAC_LENGTH ≤ encodeBase64Length MAC_LENGTH := by decide
  obtain ⟨pair, keys, ciphertext, hpair, hkeys, hlength, htext, hrun⟩ :=
    encryption.encrypt_upToMac curve hashes aes plaintext hciphertext (by omega) hephemeral hrandom
  have hcode : encodeBase64 (.object (AesSha256.mac hashes keys [])) MAC_LENGTH room.mac 0 =
      .ok (encode (AesSha256.mac hashes keys []) ++
        room.mac.drop (macLength (.ofHashes curve hashes aes)), encodeBase64Length MAC_LENGTH) :=
    encodeBase64_object_into (AesSha256.mac_length hashes keys []) hmac
  rw [hcode, Checked.ok_bind] at hrun
  have hencodeMac : (encode (AesSha256.mac hashes keys [])).length =
      macLength (.ofHashes curve hashes aes) := by
    rw [encode_length, AesSha256.mac_length]
    rfl
  have hencodeKey : (encode pair.publicKey.val).length = pkKeyLength := by
    rw [encode_length, FixedBytes.length_val]
    rfl
  refine ⟨pair, keys, _, hpair, hkeys, hrun, hlength, ?_, ?_, ?_⟩
  · simp only [List.length_append, List.length_drop, hencodeMac]
    omega
  · simp only [List.length_append, List.length_drop, hencodeKey]
    omega
  · rw [cut, htext, List.take_left' hencodeMac, List.take_left' hencodeKey]

/-- In buffers of just that length it fills them. -/
theorem encrypt_eq (encryption : OlmPkEncryption) (plaintext : Bytes) {room : PkMessage}
    {random : Bytes}
    (hciphertext : room.ciphertext.length =
      ciphertextLength (.ofHashes curve hashes aes) plaintext.length)
    (hmac : room.mac.length = macLength (.ofHashes curve hashes aes))
    (hephemeral : room.ephemeralKey.length = pkKeyLength)
    (hrandom : encryptRandomLength ≤ random.length) :
    ∃ pair keys, curve.Generated pair ∧
      keys = pkKeys hashes (curve.sharedSecret pair encryption.recipientKey) ∧
      encryption.encrypt (.ofHashes curve hashes aes) plaintext room random =
        .ok (encryption,
          { ciphertext := encode (aesEncryptCbc aes keys.aesKey keys.aesIv plaintext)
            mac := encode (AesSha256.mac hashes keys [])
            ephemeralKey := encode pair.publicKey.val }, some MAC_LENGTH) := by
  obtain ⟨pair, keys, message, hpair, hkeys, hencrypt, hlength, hmacLength, hkeyLength, hcut⟩ :=
    encryption.encrypt_into curve hashes aes plaintext hciphertext.ge hmac.ge hephemeral.ge hrandom
  refine ⟨pair, keys, hpair, hkeys, ?_⟩
  rw [cut, List.take_of_length_le (hlength.trans hciphertext).le,
    List.take_of_length_le (hmacLength.trans hmac).le,
    List.take_of_length_le (hkeyLength.trans hephemeral).le] at hcut
  rw [hencrypt, ← hcut]

end OlmPkEncryption

namespace OlmPkDecryption

/-- **What `olm_pk_decrypt` does**: the code is compared with the one of no
bytes, and the cipher text decrypted. -/
theorem decrypt_eq (decryption : OlmPkDecryption) (ephemeral : Curve25519PublicKey)
    {rawMac ciphertext raw : Bytes} {maxPlaintextLength : ℕ} (hmac : rawMac.length = MAC_LENGTH)
    (hraw : DecodesTo ciphertext raw) (hmax : raw.length ≤ maxPlaintextLength) :
    ∃ rest keys, keys = pkKeys hashes (curve.sharedSecret decryption.keyPair ephemeral) ∧
      decryption.decrypt (.ofHashes curve hashes aes) (encode ephemeral.val) (encode rawMac)
          ciphertext maxPlaintextLength =
        (if rawMac ≠ AesSha256.mac hashes keys [] then decryption.fail .BAD_MESSAGE_MAC
        else aesDecryptCbc aes keys.aesKey keys.aesIv (raw ++ rest) 0 raw.length
          maxPlaintextLength >>= fun
            | none => decryption.fail .BAD_MESSAGE_MAC
            | some plaintext => .ok (decryption, some plaintext)) := by
  obtain ⟨hlength, hdecode⟩ := hraw.eq
  obtain ⟨rest, hwithin⟩ := decodeBase64_within_of_length hlength
  rw [hdecode] at hwithin
  refine ⟨rest, _, rfl, ?_⟩
  have hephemeral := decodeBase64_object ephemeral.val
    (by rw [List.length_replicate, FixedBytes.length_val] :
      (List.replicate CURVE25519_KEY_LENGTH (0 : UInt8)).length = ephemeral.val.length)
  have hcode := decodeBase64_object rawMac
    (by rw [List.length_replicate, hmac] :
      (List.replicate MAC_LENGTH (0 : UInt8)).length = rawMac.length)
  rw [encode_length] at hephemeral hcode
  rw [FixedBytes.length_val] at hephemeral
  rw [hmac] at hcode
  have hmaxLength : OlmPkDecryption.maxPlaintextLength (.ofHashes curve hashes aes)
      ciphertext.length = raw.length := by
    show (decodeBase64Length ciphertext.length).getD SIZE_MAX = raw.length
    rw [hlength, Option.getD_some]
  -- the code is passed for input and input length, so nothing is authenticated
  have hread : readBytes rawMac 0 (MAC_LENGTH - MAC_LENGTH) = .ok [] := by
    rw [readBytes, if_pos (by omega)]
    rfl
  have hreadMac : readBytes rawMac (0 + MAC_LENGTH - MAC_LENGTH) MAC_LENGTH = .ok rawMac := by
    rw [readBytes, if_pos (by omega), ← hmac]
    simp
  unfold decrypt
  rw [if_neg (by omega), hlength]
  simp only
  rw [if_neg (by
    rw [encode_length, encode_length, FixedBytes.length_val, hmac]
    simp)]
  simp only [hephemeral, Checked.ok_bind, loadArray_val, hcode, hwithin]
  show (AesSha256.decryptApart hashes aes [] _ rawMac 0 MAC_LENGTH (raw ++ rest) 0 raw.length
    maxPlaintextLength >>= _) = _
  unfold AesSha256.decryptApart
  rw [if_neg (by omega)]
  simp only [hread, hreadMac, Checked.ok_bind]
  by_cases hsame : rawMac ≠ AesSha256.mac hashes
      (pkKeys hashes (curve.sharedSecret decryption.keyPair ephemeral)) []
  · rw [if_pos hsame]
    exact congrArg (· >>= _) (if_pos hsame)
  · rw [if_neg hsame]
    exact congrArg (· >>= _) (if_neg hsame)

end OlmPkDecryption

/-! ## Another cipher text -/

/-- Every other cipher text is refused under the ephemeral key and the code
of the message. -/
def PkMessage.Authenticates (prims : PkPrimitives) (message : PkMessage)
    (decryption : OlmPkDecryption) : Prop :=
  ∀ (raw ciphertext raw' : Bytes) (maxPlaintextLength : ℕ), DecodesTo message.ciphertext raw →
    DecodesTo ciphertext raw' → raw' ≠ raw →
    OlmPkDecryption.maxPlaintextLength prims ciphertext.length ≤ maxPlaintextLength →
    decryption.decrypt prims message.ephemeralKey message.mac ciphertext maxPlaintextLength =
      decryption.fail .BAD_MESSAGE_MAC

/-- Any cipher text of these many whole blocks is decrypted, under the code of
a message to this recipient. -/
def PkMessage.AcceptsAny (prims : PkPrimitives) (message : PkMessage)
    (decryption : OlmPkDecryption) : Prop :=
  ∀ (ciphertext raw : Bytes) (maxPlaintextLength : ℕ), DecodesTo ciphertext raw →
    WholeBlocks raw.length → 256 ≤ raw.length → raw.length ≤ maxPlaintextLength →
    ∃ plaintext, decryption.decrypt prims message.ephemeralKey message.mac ciphertext
      maxPlaintextLength = .ok (decryption, some plaintext)

/-- A message that accepts any cipher text authenticates none: there are two
of different lengths. -/
theorem PkMessage.AcceptsAny.not_authenticates {message : PkMessage} {raw : Bytes}
    {decryption : OlmPkDecryption}
    (h : message.AcceptsAny (.ofHashes curve hashes aes) decryption)
    (hraw : DecodesTo message.ciphertext raw) :
    ¬ message.Authenticates (.ofHashes curve hashes aes) decryption := by
  intro hauthenticates
  obtain ⟨other, hother, hblocks, hlarge⟩ : ∃ other : Bytes, other ≠ raw ∧
      WholeBlocks other.length ∧ 256 ≤ other.length := by
    by_cases hlen : raw.length = 256
    · refine ⟨List.replicate 272 0, ?_, by rw [List.length_replicate]; decide,
        by rw [List.length_replicate]; decide⟩
      rintro rfl
      rw [List.length_replicate] at hlen
      omega
    · refine ⟨List.replicate 256 0, ?_, by rw [List.length_replicate]; decide,
        by rw [List.length_replicate]⟩
      rintro rfl
      exact hlen List.length_replicate
  have hchars := decodesTo_encode other
  have hmax : OlmPkDecryption.maxPlaintextLength (.ofHashes curve hashes aes)
      (encode other).length ≤ other.length := by
    show (decodeBase64Length (encode other).length).getD SIZE_MAX ≤ other.length
    rw [hchars.eq.1, Option.getD_some]
  obtain ⟨plaintext, hdecrypt⟩ := h (encode other) other other.length hchars hblocks hlarge le_rfl
  have hrefused := hauthenticates raw (encode other) other other.length hraw hchars hother hmax
  rw [hdecrypt] at hrefused
  simp only [OlmPkDecryption.fail, Except.ok.injEq, Prod.mk.injEq, reduceCtorEq, and_false]
    at hrefused

/-- The code of no bytes is the one the recipient computes too. -/
theorem acceptsAny_of_generated (hcomm : curve.Commutes) {decryption : OlmPkDecryption}
    (hkeyPair : curve.Generated decryption.keyPair) {pair : Curve25519KeyPair}
    (hpair : curve.Generated pair) {keys : DerivedKeys}
    (hkeys : keys = pkKeys hashes (curve.sharedSecret pair decryption.keyPair.publicKey))
    (ciphertext : Bytes) :
    PkMessage.AcceptsAny (.ofHashes curve hashes aes)
      { ciphertext := ciphertext, mac := encode (AesSha256.mac hashes keys [])
        ephemeralKey := encode pair.publicKey.val } decryption := by
  intro chars raw maxPlaintextLength hchars hblocks hlarge hmax
  obtain ⟨rest, keys', hkeys', hdecrypt⟩ := OlmPkDecryption.decrypt_eq curve hashes aes decryption
    pair.publicKey (AesSha256.mac_length hashes keys []) hchars hmax
  have hsame : keys' = keys := by
    rw [hkeys', hkeys, hcomm.sharedSecret_comm hkeyPair hpair]
  subst hsame
  obtain ⟨result, hcbc, hsome⟩ := aesDecryptCbc_inside aes keys'.aesKey keys'.aesIv
    (by rw [List.length_append]; omega : 0 + raw.length ≤ (raw ++ rest).length) hmax hblocks
  obtain ⟨plaintext, rfl⟩ := Option.isSome_iff_exists.mp (hsome hlarge)
  refine ⟨plaintext, ?_⟩
  rw [hdecrypt, if_neg (not_not.mpr rfl), hcbc, Checked.ok_bind]

/-- **The code of a public key message does not protect its cipher text.**
For every recipient, plain text and randomness `olm_pk_encrypt` succeeds, and
`olm_pk_decrypt` then decrypts every other cipher text of whole blocks, 256
bytes of them or more, under the same ephemeral key and code. So no message
authenticates its cipher text. -/
theorem decrypt_of_other_ciphertext (hcomm : curve.Commutes) {encryption : OlmPkEncryption}
    {decryption : OlmPkDecryption} (hkeyPair : curve.Generated decryption.keyPair)
    (hrecipient : encryption.recipientKey = decryption.keyPair.publicKey) (plaintext : Bytes)
    {room : PkMessage} {random : Bytes}
    (hciphertext : room.ciphertext.length =
      OlmPkEncryption.ciphertextLength (.ofHashes curve hashes aes) plaintext.length)
    (hmac : room.mac.length = OlmPkEncryption.macLength (.ofHashes curve hashes aes))
    (hephemeral : room.ephemeralKey.length = pkKeyLength)
    (hrandom : OlmPkEncryption.encryptRandomLength ≤ random.length) :
    ∃ message, encryption.encrypt (.ofHashes curve hashes aes) plaintext room random =
        .ok (encryption, message, some MAC_LENGTH) ∧
      message.AcceptsAny (.ofHashes curve hashes aes) decryption ∧
      ¬ message.Authenticates (.ofHashes curve hashes aes) decryption := by
  obtain ⟨pair, keys, hpair, hkeys, hencrypt⟩ := encryption.encrypt_eq curve hashes aes plaintext
    hciphertext hmac hephemeral hrandom
  rw [hrecipient] at hkeys
  have haccepts := acceptsAny_of_generated curve hashes aes hcomm hkeyPair hpair hkeys
    (encode (aesEncryptCbc aes keys.aesKey keys.aesIv plaintext))
  exact ⟨_, hencrypt, haccepts, haccepts.not_authenticates curve hashes aes (decodesTo_encode _)⟩

/-! ## A message of no bytes -/

/-- A recipient whose private key is zero. -/
def OlmPkDecryption.zero : OlmPkDecryption where
  lastError := .SUCCESS
  keyPair := Curve25519.xor.generateKey (FixedBytes.zero _)

/-- A sender to it. -/
def OlmPkEncryption.toZero : OlmPkEncryption where
  lastError := .SUCCESS
  recipientKey := OlmPkDecryption.zero.keyPair.publicKey

/-- Room for a message of no bytes. -/
def PkMessage.room : PkMessage where
  ciphertext := List.replicate 22 0
  mac := List.replicate 11 0
  ephemeralKey := List.replicate 43 0

theorem decrypt_of_other_ciphertext_symbolic :
    ∃ message, OlmPkEncryption.toZero.encrypt (.ofHashes .xor .truncating .identity) [] .room
        (List.replicate 32 0) = .ok (.toZero, message, some MAC_LENGTH) ∧
      message.AcceptsAny (.ofHashes .xor .truncating .identity) .zero ∧
      ¬ message.Authenticates (.ofHashes .xor .truncating .identity) .zero :=
  decrypt_of_other_ciphertext _ _ _ Curve25519.xor_commutes
    (Curve25519.xor.generated_generateKey _) rfl [] rfl rfl rfl le_rfl

/-- The message of no bytes, and another cipher text that is accepted under
its code, though HMAC tells the two cipher texts apart. -/
theorem not_authenticates_symbolic :
    ∃ message raw ciphertext raw', OlmPkEncryption.toZero.encrypt
        (.ofHashes .xor .truncating .identity) [] .room (List.replicate 32 0) =
        .ok (.toZero, message, some MAC_LENGTH) ∧
      DecodesTo message.ciphertext raw ∧ DecodesTo ciphertext raw' ∧ raw' ≠ raw ∧
      (∀ keys, AesSha256.mac .truncating keys raw' ≠ AesSha256.mac .truncating keys raw) ∧
      ∃ plaintext, OlmPkDecryption.zero.decrypt (.ofHashes .xor .truncating .identity)
        message.ephemeralKey message.mac ciphertext raw'.length =
        .ok (.zero, some plaintext) := by
  have hroom : PkMessage.room.ciphertext.length =
      OlmPkEncryption.ciphertextLength (.ofHashes .xor .truncating .identity) ([] : Bytes).length := rfl
  have hrandom : OlmPkEncryption.encryptRandomLength ≤ (List.replicate 32 (0 : UInt8)).length := by
    rw [List.length_replicate]
    exact le_rfl
  obtain ⟨pair, keys, hpair, hkeys, hencrypt⟩ := OlmPkEncryption.toZero.encrypt_eq .xor .truncating
    .identity [] hroom rfl rfl hrandom
  have hraw : aesEncryptCbc .identity keys.aesKey keys.aesIv [] = List.replicate 16 16 := by
    rw [aesEncryptCbc_of_lt _ (by decide), hkeys]
    rfl
  rw [hraw] at hencrypt
  have haccepts := acceptsAny_of_generated .xor .truncating .identity Curve25519.xor_commutes
    (Curve25519.xor.generated_generateKey (FixedBytes.zero _) :
      Curve25519.xor.Generated OlmPkDecryption.zero.keyPair) hpair hkeys
    (encode (List.replicate 16 16))
  have hlength : (List.replicate 256 (1 : UInt8)).length = 256 := List.length_replicate
  have hother : List.replicate 256 (1 : UInt8) ≠ List.replicate 16 16 := by
    intro h
    have hsame := congrArg List.length h
    rw [hlength, List.length_replicate] at hsame
    omega
  refine ⟨_, List.replicate 16 16, encode (List.replicate 256 1), List.replicate 256 1, hencrypt,
    decodesTo_encode _, decodesTo_encode _, hother, ?_, ?_⟩
  · intro keys h
    have hfirst := congrArg List.head? h
    revert hfirst
    show ¬ some (1 : UInt8) = some 16
    decide
  · exact haccepts _ _ _ (decodesTo_encode _) (by rw [hlength]; decide) (le_of_eq hlength.symm) le_rfl

end Olm
