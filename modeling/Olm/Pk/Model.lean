import Olm.Base64.Model
import Olm.Cipher.Objects
import Olm.Message.Model

/-!
# Public key encryption

`src/pk.cpp`: a plain text is encrypted for a recipient key, under the
secret that an ephemeral key shares with it. The cipher text, the code and
the ephemeral key are strings of base64; the cipher text is built at the
end of its buffer and decoded over itself. The cipher authenticates
`raw_mac`, an array of `MAC_LENGTH` bytes beside the cipher text.
-/

namespace Olm

/-- What `src/pk.cpp` computes with: `olm_pk_cipher`, and Curve25519. -/
structure PkPrimitives where
  curve : Curve25519
  cipher : CipherApart Bytes

/-- The library's own: `OLM_CIPHER_INIT_AES_SHA_256("")`. -/
def PkPrimitives.ofHashes (curve : Curve25519) (hashes : Hashes) (aes : Aes256) : PkPrimitives where
  curve := curve
  cipher := aesSha256Apart hashes aes []

variable (prims : PkPrimitives)

/-- `olm_pk_key_length`. -/
def pkKeyLength : ℕ := encodeBase64Length CURVE25519_KEY_LENGTH

/-- `SIZE_MAX`, which is `std::size_t(-1)`. -/
def SIZE_MAX : ℕ := 2 ^ SIZE_WIDTH - 1

/-! ## Encrypting -/

/-- `OlmPkEncryption`. -/
structure OlmPkEncryption where
  lastError : OlmErrorCode
  recipientKey : Curve25519PublicKey
  deriving DecidableEq

/-- The output buffers of `olm_pk_encrypt`. -/
structure PkMessage where
  ciphertext : Bytes
  mac : Bytes
  ephemeralKey : Bytes
  deriving DecidableEq

namespace OlmPkEncryption

/-- `olm_pk_encryption_set_recipient_key`. -/
def setRecipientKey (encryption : OlmPkEncryption) (key : Bytes) :
    Checked (OlmPkEncryption × Option Unit) :=
  if key.length < pkKeyLength then
    .ok ({ encryption with lastError := .INPUT_BUFFER_TOO_SMALL }, none)
  else do
    let (recipientKey, _) ← decodeBase64 (.object key) pkKeyLength encryption.recipientKey.val 0
    let recipientKey ← loadArray CURVE25519_KEY_LENGTH recipientKey 0
    .ok ({ encryption with recipientKey := recipientKey }, some ())

/-- `olm_pk_ciphertext_length`. -/
def ciphertextLength (plaintextLength : ℕ) : ℕ :=
  encodeBase64Length (prims.cipher.encryptCiphertextLength plaintextLength)

/-- `olm_pk_mac_length`. -/
def macLength : ℕ := encodeBase64Length prims.cipher.macLength

/-- `olm_pk_encrypt_random_length`. -/
def encryptRandomLength : ℕ := CURVE25519_KEY_LENGTH

/-- `olm_pk_encrypt`, into the buffers `message`: the buffers, and what it
returns. -/
def encrypt (encryption : OlmPkEncryption) (plaintext : Bytes) (message : PkMessage)
    (random : Bytes) : Checked (OlmPkEncryption × PkMessage × Option ℕ) :=
  if message.ciphertext.length < ciphertextLength prims plaintext.length ∨
      message.mac.length < prims.cipher.macLength ∨ message.ephemeralKey.length < pkKeyLength then
    .ok ({ encryption with lastError := .OUTPUT_BUFFER_TOO_SMALL }, message, none)
  else if random.length < encryptRandomLength then
    .ok ({ encryption with lastError := .NOT_ENOUGH_RANDOM }, message, none)
  else do
    let ephemeralKeyPair := prims.curve.generateKey (← loadArray CURVE25519_KEY_LENGTH random 0)
    let (ephemeralKey, _) ← encodeBase64 (.object ephemeralKeyPair.publicKey.val)
      CURVE25519_KEY_LENGTH message.ephemeralKey 0
    let secret := prims.curve.sharedSecret ephemeralKeyPair encryption.recipientKey
    let rawCiphertextLength := prims.cipher.encryptCiphertextLength plaintext.length
    let ciphertextPos := message.ciphertext.length - rawCiphertextLength
    let rawMac := List.replicate MAC_LENGTH 0
    match ← prims.cipher.encrypt secret.val plaintext message.ciphertext ciphertextPos
        rawCiphertextLength rawMac 0 MAC_LENGTH with
    | none => .ok (encryption, { message with ephemeralKey := ephemeralKey }, none)
    | some (ciphertext, rawMac, result) => do
      let (mac, _) ← encodeBase64 (.object rawMac) MAC_LENGTH message.mac 0
      let (ciphertext, _) ← encodeBase64 (.within ciphertextPos) rawCiphertextLength ciphertext 0
      .ok (encryption,
        { ciphertext := ciphertext, mac := mac, ephemeralKey := ephemeralKey }, some result)

end OlmPkEncryption

/-! ## Decrypting -/

/-- `OlmPkDecryption`. -/
structure OlmPkDecryption where
  lastError : OlmErrorCode
  keyPair : Curve25519KeyPair
  deriving DecidableEq

namespace OlmPkDecryption

/-- `decryption->last_error = code; return std::size_t(-1);` -/
def fail {α : Type} (decryption : OlmPkDecryption) (code : OlmErrorCode) :
    Checked (OlmPkDecryption × Option α) :=
  .ok ({ decryption with lastError := code }, none)

/-- `olm_pk_private_key_length`. -/
def privateKeyLength : ℕ := CURVE25519_KEY_LENGTH

/-- `olm_pk_key_from_private`, into the buffer `pubkey`. -/
def keyFromPrivate (decryption : OlmPkDecryption) (pubkey privkey : Bytes) :
    Checked (OlmPkDecryption × Option Bytes) :=
  if pubkey.length < pkKeyLength then decryption.fail .OUTPUT_BUFFER_TOO_SMALL
  else if privkey.length < privateKeyLength then decryption.fail .INPUT_BUFFER_TOO_SMALL
  else do
    let keyPair := prims.curve.generateKey (← loadArray CURVE25519_KEY_LENGTH privkey 0)
    let (pubkey, _) ← encodeBase64 (.object keyPair.publicKey.val) CURVE25519_KEY_LENGTH pubkey 0
    .ok ({ decryption with keyPair := keyPair }, some pubkey)

/-- `olm_pk_max_plaintext_length`. -/
def maxPlaintextLength (ciphertextLength : ℕ) : ℕ :=
  prims.cipher.decryptMaxPlaintextLength ((decodeBase64Length ciphertextLength).getD SIZE_MAX)

/-- `olm_pk_decrypt`. The cipher text is decoded over itself. -/
def decrypt (decryption : OlmPkDecryption) (ephemeralKey mac ciphertext : Bytes)
    (maxPlaintextLength : ℕ) : Checked (OlmPkDecryption × Option Bytes) :=
  if maxPlaintextLength < OlmPkDecryption.maxPlaintextLength prims ciphertext.length then
    decryption.fail .OUTPUT_BUFFER_TOO_SMALL
  else
    match decodeBase64Length ciphertext.length with
    | none => decryption.fail .INVALID_BASE64
    | some rawCiphertextLength =>
      if ephemeralKey.length ≠ encodeBase64Length CURVE25519_KEY_LENGTH ∨
          mac.length ≠ encodeBase64Length MAC_LENGTH then
        decryption.fail .INVALID_BASE64
      else do
        let (ephemeral, _) ← decodeBase64 (.object ephemeralKey)
          (encodeBase64Length CURVE25519_KEY_LENGTH) (List.replicate CURVE25519_KEY_LENGTH 0) 0
        let ephemeral ← loadArray CURVE25519_KEY_LENGTH ephemeral 0
        let secret := prims.curve.sharedSecret decryption.keyPair ephemeral
        let (rawMac, _) ← decodeBase64 (.object mac) (encodeBase64Length MAC_LENGTH)
          (List.replicate MAC_LENGTH 0) 0
        let (ciphertext, _) ← decodeBase64 (.within 0) ciphertext.length ciphertext 0
        match ← prims.cipher.decrypt secret.val rawMac 0 MAC_LENGTH ciphertext 0 rawCiphertextLength
            maxPlaintextLength with
        | none => decryption.fail .BAD_MESSAGE_MAC
        | some plaintext => .ok (decryption, some plaintext)

end OlmPkDecryption

end Olm
