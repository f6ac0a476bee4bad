import Olm.Crypto

/-!
# The message cipher

`src/cipher.cpp`. `Cipher` is the table of functions `_olm_cipher_ops`
that the ratchets call, and `aesSha256` the one implementation:
AES-256 in CBC mode and a truncated HMAC over the whole message.
`Cipher.Lawful` is what a caller relies on, that `decrypt` undoes
`encrypt`.

The output pointers are offsets into the message buffer. A plain text is
in a buffer of its own, which `decrypt` is given the length of.
-/

namespace Olm

/-- `_olm_cipher_ops`. `encrypt` returns the message buffer and `decrypt`
the plain text, or `none` for `std::size_t(-1)`. -/
structure Cipher (Key : Type) where
  macLength : ℕ
  encryptCiphertextLength : (plaintextLength : ℕ) → ℕ
  encrypt : (key : Key) → (plaintext buf : Bytes) →
    (ciphertext ciphertextLength output outputLength : ℕ) → Checked (Option Bytes)
  decryptMaxPlaintextLength : (ciphertextLength : ℕ) → ℕ
  decrypt : (key : Key) → (buf : Bytes) →
    (input inputLength ciphertext ciphertextLength maxPlaintextLength : ℕ) →
    Checked (Option Bytes)

namespace Cipher

variable {Key : Type}

/-- What `encrypt` leaves after the header is a sealed body: `decrypt`
opens it, under the same key and the same header, wherever the message is
and whatever is around it. -/
def Opens (cipher : Cipher Key) (key : Key) (header body plaintext : Bytes) : Prop :=
  ∀ (buf pre post : Bytes) (maxPlaintextLength : ℕ), buf = pre ++ (header ++ (body ++ post)) →
    cipher.decryptMaxPlaintextLength (cipher.encryptCiphertextLength plaintext.length) ≤
      maxPlaintextLength →
    cipher.decrypt key buf pre.length (header.length + body.length) (pre.length + header.length)
      (cipher.encryptCiphertextLength plaintext.length) maxPlaintextLength = .ok (some plaintext)

/-- Encrypting into the room after a header replaces that room, and nothing
else, by a body of which `P` holds. -/
def Leaves (cipher : Cipher Key) (P : (key : Key) → (header body plaintext : Bytes) → Prop) : Prop :=
  ∀ (key : Key) (plaintext pre header room post : Bytes),
    room.length = cipher.encryptCiphertextLength plaintext.length + cipher.macLength →
    ∃ body : Bytes, body.length = room.length ∧
      cipher.encrypt key plaintext (pre ++ (header ++ (room ++ post)))
        (pre.length + header.length) (cipher.encryptCiphertextLength plaintext.length)
        pre.length (header.length + room.length) =
        .ok (some (pre ++ (header ++ (body ++ post)))) ∧
      P key header body plaintext

/-- **`decrypt` undoes `encrypt`**: encrypting into the room after a header
replaces that room by a body that opens to the plain text. -/
def Lawful (cipher : Cipher Key) : Prop :=
  ∀ (key : Key) (plaintext pre header room post : Bytes),
    room.length = cipher.encryptCiphertextLength plaintext.length + cipher.macLength →
    ∃ body : Bytes, body.length = room.length ∧
      cipher.encrypt key plaintext (pre ++ (header ++ (room ++ post)))
        (pre.length + header.length) (cipher.encryptCiphertextLength plaintext.length)
        pre.length (header.length + room.length) =
        .ok (some (pre ++ (header ++ (body ++ post)))) ∧
      cipher.Opens key header body plaintext

theorem Lawful.leaves {cipher : Cipher Key} (h : cipher.Lawful) : cipher.Leaves cipher.Opens := h

/-- The same cipher, where its keys are made from others. -/
def comap {Key' : Type} (f : Key' → Key) (cipher : Cipher Key) : Cipher Key' where
  macLength := cipher.macLength
  encryptCiphertextLength := cipher.encryptCiphertextLength
  encrypt key := cipher.encrypt (f key)
  decryptMaxPlaintextLength := cipher.decryptMaxPlaintextLength
  decrypt key := cipher.decrypt (f key)

theorem Lawful.comap {Key' : Type} (f : Key' → Key) {cipher : Cipher Key} (h : cipher.Lawful) :
    (cipher.comap f).Lawful := fun key => h (f key)

theorem Leaves.comap {Key' : Type} (f : Key' → Key) {cipher : Cipher Key}
    {P : (key : Key) → (header body plaintext : Bytes) → Prop} (h : cipher.Leaves P) :
    (cipher.comap f).Leaves (fun key => P (f key)) := fun key => h (f key)

end Cipher

/-! ## AES in CBC mode -/

/-- `AES256_KEY_LENGTH`. -/
abbrev AES256_KEY_LENGTH : ℕ := 32

/-- `AES256_IV_LENGTH`. -/
abbrev AES256_IV_LENGTH : ℕ := 16

/-- `AES_BLOCK_LENGTH`. -/
abbrev AES_BLOCK_LENGTH : ℕ := 16

/-- `aes_encrypt` and `aes_decrypt` of a block, with `aes_key_setup`. -/
structure Aes256 where
  encrypt : FixedBytes AES256_KEY_LENGTH → FixedBytes AES_BLOCK_LENGTH → FixedBytes AES_BLOCK_LENGTH
  decrypt : FixedBytes AES256_KEY_LENGTH → FixedBytes AES_BLOCK_LENGTH → FixedBytes AES_BLOCK_LENGTH

/-- **AES decryption undoes encryption**, block by block. -/
def Aes256.Inverts (aes : Aes256) : Prop := ∀ key block, aes.decrypt key (aes.encrypt key block) = block

/-- `xor_block`. -/
def xorBlock (block : FixedBytes AES_BLOCK_LENGTH) (input : Bytes) (h : input.length = AES_BLOCK_LENGTH) :
    FixedBytes AES_BLOCK_LENGTH :=
  ⟨block.val.zipWith (· ^^^ ·) input, by rw [List.length_zipWith, block.property, h, Nat.min_self]⟩

/-- `xor_block` of two whole blocks. -/
abbrev xorBlocks (block input : FixedBytes AES_BLOCK_LENGTH) : FixedBytes AES_BLOCK_LENGTH :=
  xorBlock block input.val input.property

/-- The last block of the input, filled up with the number of bytes that
fill it. -/
def padBlock (input : Bytes) : Bytes :=
  input ++ List.replicate (AES_BLOCK_LENGTH - input.length)
    (UInt8.ofNat (AES_BLOCK_LENGTH - input.length))

theorem padBlock_length {input : Bytes} (h : input.length < AES_BLOCK_LENGTH) :
    (padBlock input).length = AES_BLOCK_LENGTH := by
  rw [padBlock, List.length_append, List.length_replicate]
  omega

/-- `_olm_crypto_aes_encrypt_cbc_length`. -/
def aesEncryptCbcLength (inputLength : ℕ) : ℕ :=
  inputLength + AES_BLOCK_LENGTH - inputLength % AES_BLOCK_LENGTH

/-- `_olm_crypto_aes_encrypt_cbc`: the blocks it writes one after another,
`inputBlock` being the last of them, or the initial vector. -/
def aesEncryptCbc (aes : Aes256) (key : FixedBytes AES256_KEY_LENGTH)
    (inputBlock : FixedBytes AES_BLOCK_LENGTH) (input : Bytes) : Bytes :=
  if h : AES_BLOCK_LENGTH ≤ input.length then
    let output := aes.encrypt key
      (xorBlock inputBlock (input.take AES_BLOCK_LENGTH) (by rw [List.length_take]; omega))
    output.val ++ aesEncryptCbc aes key output (input.drop AES_BLOCK_LENGTH)
  else
    (aes.encrypt key (xorBlock inputBlock (padBlock input) (padBlock_length (by omega)))).val
termination_by input.length
decreasing_by
  have hpos : 0 < AES_BLOCK_LENGTH := by decide
  rw [List.length_drop]
  omega

/-- The loop of `_olm_crypto_aes_decrypt_cbc`. It reads and writes whole
blocks, also where less than one is left of the input. -/
def aesDecryptCbcLoop (aes : Aes256) (key : FixedBytes AES256_KEY_LENGTH) (buf : Bytes)
    (input inputLength : ℕ) : (fuel i : ℕ) → FixedBytes AES_BLOCK_LENGTH → Bytes → Checked Bytes
  | 0, i, _, output => if i < inputLength then .error .diverges else .ok output
  | fuel + 1, i, block1, output =>
    if i < inputLength then do
      let block2 ← loadArray AES_BLOCK_LENGTH buf (input + i)
      let output ← writeAt output i
        (xorBlock (aes.decrypt key block2) block1.val block1.property).val
      aesDecryptCbcLoop aes key buf input inputLength fuel (i + AES_BLOCK_LENGTH) block2 output
    else .ok output

/-- `_olm_crypto_aes_decrypt_cbc`, into a buffer of `outputLength` bytes. -/
def aesDecryptCbc (aes : Aes256) (key : FixedBytes AES256_KEY_LENGTH)
    (iv : FixedBytes AES_BLOCK_LENGTH) (buf : Bytes) (input inputLength outputLength : ℕ) :
    Checked (Option Bytes) := do
  let output ← aesDecryptCbcLoop aes key buf input inputLength inputLength 0 iv
    (List.replicate outputLength 0)
  if inputLength = 0 then .error .outOfBounds
  else
    let padding ← readByte output (inputLength - 1)
    if padding.toNat > inputLength then .ok none
    else .ok (some (output.take (inputLength - padding.toNat)))

/-! ## `_olm_cipher_aes_sha_256` -/

/-- `HMAC_KEY_LENGTH`. -/
abbrev HMAC_KEY_LENGTH : ℕ := 32

/-- `MAC_LENGTH`. -/
abbrev MAC_LENGTH : ℕ := 8

/-- `DerivedKeys`. -/
structure DerivedKeys where
  aesKey : FixedBytes AES256_KEY_LENGTH
  macKey : FixedBytes HMAC_KEY_LENGTH
  aesIv : FixedBytes AES256_IV_LENGTH

namespace AesSha256

variable (hashes : Hashes) (aes : Aes256) (kdfInfo : Bytes)

/-- `derive_keys`. -/
def deriveKeys (key : Bytes) : DerivedKeys :=
  let derivedSecrets :=
    hashes.hkdfSha256 key none kdfInfo (AES256_KEY_LENGTH + HMAC_KEY_LENGTH + AES256_IV_LENGTH)
  { aesKey := FixedBytes.slice derivedSecrets 0 AES256_KEY_LENGTH (by decide)
    macKey := FixedBytes.slice derivedSecrets AES256_KEY_LENGTH HMAC_KEY_LENGTH (by decide)
    aesIv := FixedBytes.slice derivedSecrets (AES256_KEY_LENGTH + HMAC_KEY_LENGTH)
      AES256_IV_LENGTH (by decide) }

/-- The bytes of the message authentication code of `input`. -/
def mac (keys : DerivedKeys) (input : Bytes) : Bytes :=
  (hashes.hmacSha256 keys.macKey.val input).val.take MAC_LENGTH

/-- `aes_sha_256_cipher_encrypt`. -/
def encrypt (key plaintext buf : Bytes) (ciphertext ciphertextLength output outputLength : ℕ) :
    Checked (Option Bytes) :=
  if ciphertextLength < aesEncryptCbcLength plaintext.length ∨ outputLength < MAC_LENGTH then
    .ok none
  else do
    let keys := deriveKeys hashes kdfInfo key
    let buf ← writeAt buf ciphertext (aesEncryptCbc aes keys.aesKey keys.aesIv plaintext)
    let input ← readBytes buf output (outputLength - MAC_LENGTH)
    let buf ← writeAt buf (output + outputLength - MAC_LENGTH) (mac hashes keys input)
    .ok (some buf)

/-- `aes_sha_256_cipher_decrypt`. -/
def decrypt (key buf : Bytes)
    (input inputLength ciphertext ciphertextLength maxPlaintextLength : ℕ) :
    Checked (Option Bytes) :=
  if maxPlaintextLength < ciphertextLength ∨ inputLength < MAC_LENGTH then .ok none
  else do
    let keys := deriveKeys hashes kdfInfo key
    let authenticated ← readBytes buf input (inputLength - MAC_LENGTH)
    let inputMac ← readBytes buf (input + inputLength - MAC_LENGTH) MAC_LENGTH
    if inputMac ≠ mac hashes keys authenticated then .ok none
    else aesDecryptCbc aes keys.aesKey keys.aesIv buf ciphertext ciphertextLength maxPlaintextLength

end AesSha256

/-- `_olm_cipher_aes_sha_256_ops`, with the `kdf_info` of
`OLM_CIPHER_INIT_AES_SHA_256`. -/
def aesSha256 (hashes : Hashes) (aes : Aes256) (kdfInfo : Bytes) : Cipher Bytes where
  macLength := MAC_LENGTH
  encryptCiphertextLength := aesEncryptCbcLength
  encrypt := AesSha256.encrypt hashes aes kdfInfo
  decryptMaxPlaintextLength ciphertextLength := ciphertextLength
  decrypt := AesSha256.decrypt hashes aes kdfInfo

end Olm
