import Olm.Pk.Mac
import Olm.Pk.Pickle

/-!
# Public key encryption is undone

`olm_pk_decrypt` returns the plain text that `olm_pk_encrypt` was given:
the three strings are at the front of buffers of any size, the secret is
the same on both sides, and AES decryption undoes encryption. A decryption
object keeps nothing but its key pair, so it does the same after it was
pickled and unpickled.
-/

namespace Olm

open Base64

variable (curve : Curve25519) (hashes : Hashes) (aes : Aes256)

namespace OlmPkDecryption

/-- The key pair of a private key, and the public key at the front of the
buffer. -/
theorem keyFromPrivate_of_le (prims : PkPrimitives) (decryption : OlmPkDecryption)
    {pubkey privkey : Bytes} (hpubkey : pkKeyLength ≤ pubkey.length)
    (hprivkey : privateKeyLength ≤ privkey.length) :
    ∃ pair, prims.curve.Generated pair ∧ decryption.keyFromPrivate prims pubkey privkey =
      .ok ({ decryption with keyPair := pair },
        some (encode pair.publicKey.val ++ pubkey.drop pkKeyLength)) := by
  have hle : 0 + CURVE25519_KEY_LENGTH ≤ privkey.length := by
    unfold privateKeyLength at hprivkey
    omega
  obtain ⟨seed, hseed, -⟩ := loadArray_of_le hle
  refine ⟨prims.curve.generateKey seed, prims.curve.generated_generateKey seed, ?_⟩
  rw [keyFromPrivate, if_neg (by omega), if_neg (by omega), hseed, Checked.ok_bind]
  dsimp only
  rw [encodeBase64_object_into (FixedBytes.length_val _) hpubkey, Checked.ok_bind]
  rfl

end OlmPkDecryption

/-- The key at the front of a text is the recipient's. -/
theorem OlmPkEncryption.setRecipientKey_encode (encryption : OlmPkEncryption)
    (key : Curve25519PublicKey) (rest : Bytes) :
    encryption.setRecipientKey (encode key.val ++ rest) =
      .ok ({ encryption with recipientKey := key }, some ()) := by
  have hlength : (encode key.val).length = pkKeyLength := by
    rw [encode_length, FixedBytes.length_val]
    rfl
  have hin : (Base64Input.object (encode key.val ++ rest)).Holds encryption.recipientKey.val 0
      (encode key.val) := ⟨rest, rfl⟩
  have hdecode := decodeBase64_eq hin trivial (Nat.zero_le _)
  have hraw : decodeBase64Length (encode key.val).length = some CURVE25519_KEY_LENGTH := by
    rw [encode_length, decodeBase64Length_encodeBase64Length, FixedBytes.length_val]
  have hw := writeAt_zero_append
    ((FixedBytes.length_val key).trans (FixedBytes.length_val encryption.recipientKey).symm) []
  rw [List.append_nil, List.append_nil] at hw
  rw [hraw, decode_encode, hlength] at hdecode
  simp only [hw, Checked.ok_bind] at hdecode
  rw [setRecipientKey, if_neg (by rw [List.length_append]; omega), hdecode, Checked.ok_bind]
  dsimp only
  rw [loadArray_val, Checked.ok_bind]

/-- **What was encrypted for a key pair is decrypted with it**, by any object
that holds it. -/
theorem OlmPkDecryption.decrypt_encrypt {curve : Curve25519} {aes : Aes256}
    (hcomm : curve.Commutes) (haes : aes.Inverts) (encryption : OlmPkEncryption)
    (plaintext : Bytes) {room : PkMessage} {random : Bytes}
    (hciphertext : OlmPkEncryption.ciphertextLength (.ofHashes curve hashes aes) plaintext.length ≤
      room.ciphertext.length)
    (hmac : OlmPkEncryption.macLength (.ofHashes curve hashes aes) ≤ room.mac.length)
    (hephemeral : pkKeyLength ≤ room.ephemeralKey.length)
    (hrandom : OlmPkEncryption.encryptRandomLength ≤ random.length) :
    ∃ message, encryption.encrypt (.ofHashes curve hashes aes) plaintext room random =
        .ok (encryption, message, some MAC_LENGTH) ∧
      ∀ (decryption : OlmPkDecryption) (cut : PkMessage) (maxLength : ℕ),
        curve.Generated decryption.keyPair →
        encryption.recipientKey = decryption.keyPair.publicKey →
        cut = OlmPkEncryption.cut (.ofHashes curve hashes aes) message plaintext.length →
        maxPlaintextLength (.ofHashes curve hashes aes) cut.ciphertext.length ≤ maxLength →
        decryption.decrypt (.ofHashes curve hashes aes) cut.ephemeralKey cut.mac cut.ciphertext
          maxLength = .ok (decryption, some plaintext) := by
  obtain ⟨pair, keys, message, hpair, hkeys, hencrypt, -, -, -, hcut⟩ :=
    encryption.encrypt_into curve hashes aes plaintext hciphertext hmac hephemeral hrandom
  refine ⟨message, hencrypt, ?_⟩
  rintro decryption _ maxLength hkeyPair hrecipient rfl hmax
  obtain ⟨raw, hraw⟩ : ∃ raw, aesEncryptCbc aes keys.aesKey keys.aesIv plaintext = raw := ⟨_, rfl⟩
  have hrawLength : raw.length = aesEncryptCbcLength plaintext.length := by
    rw [← hraw, aesEncryptCbc_length_eq]
  rw [hraw] at hcut
  rw [hcut] at hmax ⊢
  have hmaxRaw : raw.length ≤ maxLength := by
    have hlen : decodeBase64Length (encode raw).length = some raw.length := (decodesTo_encode raw).eq.1
    unfold maxPlaintextLength at hmax
    rw [hlen] at hmax
    exact hmax
  obtain ⟨rest, keys', hkeys', hdecrypt⟩ := decryption.decrypt_eq curve hashes aes pair.publicKey
    (AesSha256.mac_length hashes keys []) (decodesTo_encode raw) hmaxRaw
  have hsame : keys' = keys := by
    rw [hkeys', hkeys, hrecipient, hcomm.sharedSecret_comm hkeyPair hpair]
  subst hsame
  have hdrop : (raw ++ rest).drop 0 =
      aesEncryptCbc aes keys'.aesKey keys'.aesIv plaintext ++ rest := by
    rw [List.drop_zero, hraw]
  have hcbc := aesDecryptCbc_aesEncryptCbc haes keys'.aesIv plaintext hdrop (hrawLength ▸ hmaxRaw)
  rw [hdecrypt, if_neg (not_not.mpr rfl), hrawLength, hcbc, Checked.ok_bind]

/-- **Public key encryption is undone.** For every private key, plain text and
randomness, in buffers of at least the reported lengths, the calls succeed,
and the three strings cut to their lengths decrypt to the plain text: under
the object that made the key pair, and under every object that it was
unpickled into, with the same key. -/
theorem pk_decrypt_encrypt {curve : Curve25519} {aes : Aes256} (hcomm : curve.Commutes)
    (haes : aes.Inverts) (decryption : OlmPkDecryption) (encryption : OlmPkEncryption)
    (plaintext : Bytes) {pubkey privkey : Bytes} {room : PkMessage} {random : Bytes}
    (hpubkey : pkKeyLength ≤ pubkey.length)
    (hprivkey : OlmPkDecryption.privateKeyLength ≤ privkey.length)
    (hciphertext : OlmPkEncryption.ciphertextLength (.ofHashes curve hashes aes) plaintext.length ≤
      room.ciphertext.length)
    (hmac : OlmPkEncryption.macLength (.ofHashes curve hashes aes) ≤ room.mac.length)
    (hephemeral : pkKeyLength ≤ room.ephemeralKey.length)
    (hrandom : OlmPkEncryption.encryptRandomLength ≤ random.length) :
    ∃ (holder : OlmPkDecryption) (key : Bytes) (sender : OlmPkEncryption) (message cut : PkMessage),
      decryption.keyFromPrivate (.ofHashes curve hashes aes) pubkey privkey =
        .ok (holder, some key) ∧
      encryption.setRecipientKey key = .ok (sender, some ()) ∧
      sender.encrypt (.ofHashes curve hashes aes) plaintext room random =
        .ok (sender, message, some MAC_LENGTH) ∧
      cut = OlmPkEncryption.cut (.ofHashes curve hashes aes) message plaintext.length ∧
      (∀ maxLength, OlmPkDecryption.maxPlaintextLength (.ofHashes curve hashes aes)
          cut.ciphertext.length ≤ maxLength →
        holder.decrypt (.ofHashes curve hashes aes) cut.ephemeralKey cut.mac cut.ciphertext
          maxLength = .ok (holder, some plaintext)) ∧
      ∀ (pickleKey pickleRoom : Bytes) (target : OlmPkDecryption) (pubkeyRoom : Option Bytes),
        holder.picklePkDecryptionLength ≤ pickleRoom.length →
        (∀ room ∈ pubkeyRoom, pkKeyLength ≤ room.length) →
        ∃ pickled length restored,
          holder.picklePkDecryption hashes aes pickleKey pickleRoom =
            .ok (holder, some (pickled, length)) ∧
          target.unpicklePkDecryption hashes aes pickleKey (pickled.take length) pubkeyRoom =
            .ok (restored, some (pubkeyRoom.map (fun room =>
              encode holder.keyPair.publicKey.val ++ room.drop pkKeyLength), length)) ∧
          ∀ maxLength, OlmPkDecryption.maxPlaintextLength (.ofHashes curve hashes aes)
              cut.ciphertext.length ≤ maxLength →
            restored.decrypt (.ofHashes curve hashes aes) cut.ephemeralKey cut.mac cut.ciphertext
              maxLength = .ok (restored, some plaintext) := by
  obtain ⟨pair, hpair, hkey⟩ := decryption.keyFromPrivate_of_le (.ofHashes curve hashes aes) hpubkey
    hprivkey
  have hgenerated : curve.Generated pair := hpair
  obtain ⟨message, hencrypt, hdecrypt⟩ := OlmPkDecryption.decrypt_encrypt hashes hcomm haes
    { encryption with recipientKey := pair.publicKey } plaintext hciphertext hmac hephemeral hrandom
  refine ⟨_, _, _, message, _, hkey, encryption.setRecipientKey_encode pair.publicKey _, hencrypt,
    rfl, fun maxLength hmax => hdecrypt { decryption with keyPair := pair } _ maxLength hgenerated
      rfl rfl hmax, ?_⟩
  intro pickleKey pickleRoom target pubkeyRoom hroom hpubkeyRoom
  have hpickle := OlmPkDecryption.picklePkDecryption_eq hashes aes { decryption with keyPair := pair }
    pickleKey hroom
  have hunpickle := OlmPkDecryption.unpicklePkDecryption_encText hashes haes target
    { decryption with keyPair := pair } pickleKey hpubkeyRoom
  refine ⟨_, _, { target with keyPair := pair }, hpickle, ?_, fun maxLength hmax =>
    hdecrypt _ _ maxLength hgenerated rfl rfl hmax⟩
  rw [List.take_left' (OlmPkDecryption.length_encText_pickle hashes aes
    { decryption with keyPair := pair } pickleKey)]
  exact hunpickle

/-- Room for a message of five bytes, and more. -/
def PkMessage.largeRoom : PkMessage where
  ciphertext := List.replicate 30 0
  mac := List.replicate 20 0
  ephemeralKey := List.replicate 60 0

theorem pk_decrypt_encrypt_symbolic :
    ∃ (holder : OlmPkDecryption) (key : Bytes) (sender : OlmPkEncryption) (message cut : PkMessage)
        (pickled : Bytes) (length maxLength : ℕ) (restored : OlmPkDecryption),
      OlmPkDecryption.zero.keyFromPrivate (.ofHashes .xor .truncating .identity)
        (List.replicate 50 0) (List.replicate 32 7) = .ok (holder, some key) ∧
      OlmPkEncryption.toZero.setRecipientKey key = .ok (sender, some ()) ∧
      sender.encrypt (.ofHashes .xor .truncating .identity) [1, 2, 3, 4, 5] .largeRoom
        (List.replicate 32 8) = .ok (sender, message, some MAC_LENGTH) ∧
      holder.picklePkDecryption .truncating .identity [1] (List.replicate 150 0) =
        .ok (holder, some (pickled, length)) ∧
      OlmPkDecryption.zero.unpicklePkDecryption .truncating .identity [1] (pickled.take length) none =
        .ok (restored, some (none, length)) ∧
      restored.decrypt (.ofHashes .xor .truncating .identity) cut.ephemeralKey cut.mac cut.ciphertext
        maxLength = .ok (restored, some [1, 2, 3, 4, 5]) := by
  have hpubkey : pkKeyLength ≤ (List.replicate 50 (0 : UInt8)).length := by decide
  have hprivkey : OlmPkDecryption.privateKeyLength ≤ (List.replicate 32 (7 : UInt8)).length := by
    decide
  have hrandom : OlmPkEncryption.encryptRandomLength ≤ (List.replicate 32 (8 : UInt8)).length := by
    decide
  have hciphertext : OlmPkEncryption.ciphertextLength (.ofHashes .xor .truncating .identity)
      ([1, 2, 3, 4, 5] : Bytes).length ≤ PkMessage.largeRoom.ciphertext.length := by decide
  have hmac : OlmPkEncryption.macLength (.ofHashes .xor .truncating .identity) ≤
      PkMessage.largeRoom.mac.length := by decide
  have hephemeral : pkKeyLength ≤ PkMessage.largeRoom.ephemeralKey.length := by decide
  obtain ⟨holder, key, sender, message, cut, hkey, hset, hencrypt, -, -, hrestored⟩ :=
    pk_decrypt_encrypt .truncating Curve25519.xor_commutes Aes256.identity_inverts .zero .toZero
      [1, 2, 3, 4, 5] hpubkey hprivkey hciphertext hmac hephemeral hrandom
  have hroom : holder.picklePkDecryptionLength ≤ (List.replicate 150 (0 : UInt8)).length := by
    rw [List.length_replicate]
    show encOutputLength 68 ≤ 150
    decide
  obtain ⟨pickled, length, restored, hpickle, hunpickle, hdecrypt⟩ :=
    hrestored [1] (List.replicate 150 0) .zero none hroom nofun
  exact ⟨holder, key, sender, message, cut, pickled, length, _, restored, hkey, hset, hencrypt,
    hpickle, hunpickle, hdecrypt _ le_rfl⟩

end Olm
