import Olm.Cipher.Lawful

/-!
# The cipher over separate objects

The `output` and `input` of `_olm_cipher_ops` need not be in the same
object as the cipher text: `src/pk.cpp` authenticates an array of its own.
Here the two are buffers of their own, so the two functions can be followed
access by access: a decryption stays inside its cipher text where the length
is one of whole blocks (`decryptFenced_of_wholeBlocks`), and nowhere else
(`decryptFenced_of_not_wholeBlocks`).
-/

namespace Olm

/-- `_olm_cipher_ops`, on two buffers: the one of the cipher text, and the one
that is authenticated. -/
structure CipherApart (Key : Type) where
  macLength : ℕ
  encryptCiphertextLength : (plaintextLength : ℕ) → ℕ
  encrypt : (key : Key) → (plaintext ciphertextBuf : Bytes) → (ciphertext ciphertextLength : ℕ) →
    (outputBuf : Bytes) → (output outputLength : ℕ) → Checked (Option (Bytes × Bytes × ℕ))
  decryptMaxPlaintextLength : (ciphertextLength : ℕ) → ℕ
  decrypt : (key : Key) → (inputBuf : Bytes) → (input inputLength : ℕ) → (ciphertextBuf : Bytes) →
    (ciphertext ciphertextLength maxPlaintextLength : ℕ) → Checked (Option Bytes)

namespace AesSha256

variable (hashes : Hashes) (aes : Aes256) (kdfInfo : Bytes)

/-- `aes_sha_256_cipher_encrypt`: the two buffers, and the length it returns. -/
def encryptApart (key plaintext ciphertextBuf : Bytes) (ciphertext ciphertextLength : ℕ)
    (outputBuf : Bytes) (output outputLength : ℕ) : Checked (Option (Bytes × Bytes × ℕ)) :=
  if ciphertextLength < aesEncryptCbcLength plaintext.length ∨ outputLength < MAC_LENGTH then
    .ok none
  else do
    let keys := deriveKeys hashes kdfInfo key
    let ciphertextBuf ← writeAt ciphertextBuf ciphertext
      (aesEncryptCbc aes keys.aesKey keys.aesIv plaintext)
    let authenticated ← readBytes outputBuf output (outputLength - MAC_LENGTH)
    let outputBuf ← writeAt outputBuf (output + outputLength - MAC_LENGTH)
      (mac hashes keys authenticated)
    .ok (some (ciphertextBuf, outputBuf, outputLength))

/-- `aes_sha_256_cipher_decrypt`. -/
def decryptApart (key inputBuf : Bytes) (input inputLength : ℕ) (ciphertextBuf : Bytes)
    (ciphertext ciphertextLength maxPlaintextLength : ℕ) : Checked (Option Bytes) :=
  if maxPlaintextLength < ciphertextLength ∨ inputLength < MAC_LENGTH then .ok none
  else do
    let keys := deriveKeys hashes kdfInfo key
    let authenticated ← readBytes inputBuf input (inputLength - MAC_LENGTH)
    let inputMac ← readBytes inputBuf (input + inputLength - MAC_LENGTH) MAC_LENGTH
    if inputMac ≠ mac hashes keys authenticated then .ok none
    else
      aesDecryptCbc aes keys.aesKey keys.aesIv ciphertextBuf ciphertext ciphertextLength
        maxPlaintextLength

/-- In one buffer, it is the same function. -/
theorem decrypt_eq_decryptApart (key buf : Bytes)
    (input inputLength ciphertext ciphertextLength maxPlaintextLength : ℕ) :
    decrypt hashes aes kdfInfo key buf input inputLength ciphertext ciphertextLength
        maxPlaintextLength =
      decryptApart hashes aes kdfInfo key buf input inputLength buf ciphertext ciphertextLength
        maxPlaintextLength := rfl

end AesSha256

/-- `_olm_cipher_aes_sha_256_ops` on two buffers. -/
def aesSha256Apart (hashes : Hashes) (aes : Aes256) (kdfInfo : Bytes) : CipherApart Bytes where
  macLength := MAC_LENGTH
  encryptCiphertextLength := aesEncryptCbcLength
  encrypt := AesSha256.encryptApart hashes aes kdfInfo
  decryptMaxPlaintextLength ciphertextLength := ciphertextLength
  decrypt := AesSha256.decryptApart hashes aes kdfInfo

/-! ## Where the decryption reads and writes -/

section Loop

variable (aes : Aes256) (key : FixedBytes AES256_KEY_LENGTH) {buf : Bytes} {input inputLength : ℕ}

/-- Over whole blocks the loop stays inside the input and the output. -/
theorem aesDecryptCbcLoop_inside (hbuf : input + inputLength ≤ buf.length) (fuel i : ℕ)
    (block : FixedBytes AES_BLOCK_LENGTH) (output : Bytes) (hi : i ≤ inputLength)
    (hblocks : AES_BLOCK_LENGTH ∣ inputLength - i) (houtput : inputLength ≤ output.length)
    (hfuel : inputLength ≤ i + fuel) :
    ∃ output', aesDecryptCbcLoop aes key buf input inputLength fuel i block output = .ok output' ∧
      output'.length = output.length := by
  induction fuel generalizing i block output with
  | zero =>
    refine ⟨output, ?_, rfl⟩
    rw [aesDecryptCbcLoop, if_neg (by omega)]
  | succ fuel ih =>
    rcases Nat.eq_or_lt_of_le hi with rfl | hlt
    · exact ⟨output, aesDecryptCbcLoop_end block output, rfl⟩
    · -- what is left is a whole block at least
      have hblock : AES_BLOCK_LENGTH ≤ inputLength - i := Nat.le_of_dvd (by omega) hblocks
      have hpos : 0 < AES_BLOCK_LENGTH := by decide
      obtain ⟨block₂, hload, -⟩ :=
        loadArray_of_le (show input + i + AES_BLOCK_LENGTH ≤ buf.length by omega)
      have hroom : i + (xorBlock (aes.decrypt key block₂) block.val block.property).val.length ≤
          output.length := by
        rw [FixedBytes.length_val]
        omega
      obtain ⟨output₁, hwrite⟩ := writeAt_of_le hroom
      have hlen := (length_of_writeAt hwrite).1
      obtain ⟨output', hloop, hlen'⟩ := ih (i + AES_BLOCK_LENGTH) block₂ output₁ (by omega)
        (by rw [Nat.sub_add_eq]; exact (Nat.dvd_sub_iff_left hblock dvd_rfl).mpr hblocks)
        (by omega) (by omega)
      refine ⟨output', ?_, hlen'.trans hlen⟩
      rw [aesDecryptCbcLoop, if_pos hlt, hload, Checked.ok_bind, hwrite, Checked.ok_bind, hloop]

/-- Where the last block is cut short, the loop reads past the end of the
input. -/
theorem aesDecryptCbcLoop_outside (hbuf : buf.length = input + inputLength) (fuel i : ℕ)
    (block : FixedBytes AES_BLOCK_LENGTH) (output : Bytes) (hi : i ≤ inputLength)
    (hblocks : ¬ AES_BLOCK_LENGTH ∣ inputLength - i) (houtput : inputLength ≤ output.length)
    (hfuel : inputLength ≤ i + fuel) :
    aesDecryptCbcLoop aes key buf input inputLength fuel i block output = .error .outOfBounds := by
  have hpos : 0 < AES_BLOCK_LENGTH := by decide
  have hlt : i < inputLength := by
    rcases Nat.eq_or_lt_of_le hi with rfl | hlt
    · rw [Nat.sub_self] at hblocks
      exact absurd (Nat.dvd_zero _) hblocks
    · exact hlt
  induction fuel generalizing i block output with
  | zero => omega
  | succ fuel ih =>
    rw [aesDecryptCbcLoop, if_pos hlt]
    rcases Nat.lt_or_ge (inputLength - i) AES_BLOCK_LENGTH with hshort | hblock
    · rw [loadArray_of_lt (by omega) hpos, Checked.error_bind]
    · obtain ⟨block₂, hload, -⟩ :=
        loadArray_of_le (show input + i + AES_BLOCK_LENGTH ≤ buf.length by omega)
      have hroom : i + (xorBlock (aes.decrypt key block₂) block.val block.property).val.length ≤
          output.length := by
        rw [FixedBytes.length_val]
        omega
      obtain ⟨output₁, hwrite⟩ := writeAt_of_le hroom
      have hlen := (length_of_writeAt hwrite).1
      have hrest : ¬ AES_BLOCK_LENGTH ∣ inputLength - (i + AES_BLOCK_LENGTH) := by
        rw [Nat.sub_add_eq, Nat.dvd_sub_iff_left hblock dvd_rfl]
        exact hblocks
      have hnext : i + AES_BLOCK_LENGTH < inputLength := by
        rcases Nat.eq_or_lt_of_le (show i + AES_BLOCK_LENGTH ≤ inputLength by omega) with heq | hlt
        · rw [heq, Nat.sub_self] at hrest
          exact absurd (Nat.dvd_zero _) hrest
        · exact hlt
      rw [hload, Checked.ok_bind, hwrite, Checked.ok_bind,
        ih (i + AES_BLOCK_LENGTH) block₂ output₁ (by omega) hrest (by omega) (by omega) hnext]

end Loop

/-- Blocks that the loop goes over, and a last byte to read. -/
def WholeBlocks (ciphertextLength : ℕ) : Prop :=
  0 < ciphertextLength ∧ AES_BLOCK_LENGTH ∣ ciphertextLength

instance (ciphertextLength : ℕ) : Decidable (WholeBlocks ciphertextLength) :=
  inferInstanceAs (Decidable (_ ∧ _))

section Cbc

variable (aes : Aes256) (key : FixedBytes AES256_KEY_LENGTH) (iv : FixedBytes AES_BLOCK_LENGTH)
  {ciphertext buf : Bytes} {input inputLength outputLength : ℕ}

/-- Over whole blocks the decryption comes to an end, and it is refused only
for its last byte. -/
theorem aesDecryptCbc_inside (hbuf : input + inputLength ≤ buf.length)
    (houtput : inputLength ≤ outputLength) (h : WholeBlocks inputLength) :
    ∃ result, aesDecryptCbc aes key iv buf input inputLength outputLength = .ok result ∧
      (256 ≤ inputLength → result.isSome = true) := by
  obtain ⟨hpos, hblocks⟩ := h
  obtain ⟨output, hloop, hlength⟩ := aesDecryptCbcLoop_inside aes key hbuf inputLength 0 iv
    (List.replicate outputLength 0) (Nat.zero_le _) hblocks
    (by rw [List.length_replicate]; exact houtput) (by omega)
  rw [List.length_replicate] at hlength
  rw [aesDecryptCbc, hloop, Checked.ok_bind, if_neg (by omega),
    readByte_of_lt (show inputLength - 1 < output.length by omega), Checked.ok_bind]
  by_cases hpadding : output[inputLength - 1].toNat > inputLength
  · -- a byte is no more than 255
    have hbyte := output[inputLength - 1].toNat_lt
    rw [if_pos hpadding]
    exact ⟨none, rfl, fun hlarge => by omega⟩
  · rw [if_neg hpadding]
    exact ⟨_, rfl, fun _ => rfl⟩

/-- Without a block the byte before the plaintext buffer is read, and with a
last block that is cut short the bytes behind the cipher text. -/
theorem aesDecryptCbc_outside (houtput : ciphertext.length ≤ outputLength)
    (h : ¬ WholeBlocks ciphertext.length) :
    aesDecryptCbc aes key iv ciphertext 0 ciphertext.length outputLength =
      .error .outOfBounds := by
  by_cases hblocks : AES_BLOCK_LENGTH ∣ ciphertext.length
  · have hzero : ciphertext.length = 0 := by
      by_contra hne
      exact h ⟨Nat.pos_of_ne_zero hne, hblocks⟩
    have hloop : aesDecryptCbcLoop aes key ciphertext 0 0 0 0 iv (List.replicate outputLength 0) =
        .ok (List.replicate outputLength 0) := aesDecryptCbcLoop_end iv _
    rw [aesDecryptCbc, hzero, hloop, Checked.ok_bind, if_pos rfl]
  · have hloop := aesDecryptCbcLoop_outside aes key
      (show ciphertext.length = 0 + ciphertext.length by omega) ciphertext.length 0 iv
      (List.replicate outputLength 0) (Nat.zero_le _) hblocks
      (by rw [List.length_replicate]; exact houtput) (by omega)
    rw [aesDecryptCbc, hloop, Checked.error_bind]

end Cbc

/-! ## What a verified decryption touches -/

/-- The bytes of the cipher text, as an object that ends where it ends. -/
def cutOut (buf : Bytes) (pos length : ℕ) : Bytes := (buf.drop pos).take length

theorem length_cutOut {buf : Bytes} {pos length : ℕ} (h : pos + length ≤ buf.length) :
    (cutOut buf pos length).length = length := by
  rw [cutOut, List.length_take, List.length_drop]
  omega

namespace AesSha256

variable (hashes : Hashes) (aes : Aes256) (kdfInfo : Bytes)

/-- `aes_sha_256_cipher_decrypt`, where nothing of the buffer but the cipher
text itself may be touched. -/
def decryptFenced (key inputBuf : Bytes) (input inputLength : ℕ) (ciphertextBuf : Bytes)
    (ciphertext ciphertextLength maxPlaintextLength : ℕ) : Checked (Option Bytes) :=
  decryptApart hashes aes kdfInfo key inputBuf input inputLength
    (cutOut ciphertextBuf ciphertext ciphertextLength) 0 ciphertextLength maxPlaintextLength

/-- The part of `aes_sha_256_cipher_decrypt` before the decryption: an empty
plain text where the code verifies. -/
def authenticate (key inputBuf : Bytes) (input inputLength ciphertextLength maxPlaintextLength : ℕ) :
    Checked (Option Bytes) :=
  if maxPlaintextLength < ciphertextLength ∨ inputLength < MAC_LENGTH then .ok none
  else do
    let keys := deriveKeys hashes kdfInfo key
    let authenticated ← readBytes inputBuf input (inputLength - MAC_LENGTH)
    let inputMac ← readBytes inputBuf (input + inputLength - MAC_LENGTH) MAC_LENGTH
    if inputMac ≠ mac hashes keys authenticated then .ok none else .ok (some [])

variable {hashes kdfInfo}
variable {key inputBuf ciphertextBuf : Bytes}
  {input inputLength ciphertext ciphertextLength maxPlaintextLength : ℕ}

/-- In an input that is there, the code is read. -/
theorem authenticate_returns (hfit : input + inputLength ≤ inputBuf.length) :
    ∃ result, authenticate hashes kdfInfo key inputBuf input inputLength ciphertextLength
      maxPlaintextLength = .ok result := by
  unfold authenticate
  split
  · exact ⟨_, rfl⟩
  · have hread : readBytes inputBuf input (inputLength - MAC_LENGTH) =
        .ok ((inputBuf.drop input).take (inputLength - MAC_LENGTH)) := if_pos (by omega)
    have hmac : readBytes inputBuf (input + inputLength - MAC_LENGTH) MAC_LENGTH =
        .ok ((inputBuf.drop (input + inputLength - MAC_LENGTH)).take MAC_LENGTH) := if_pos (by omega)
    simp only [hread, hmac, Checked.ok_bind]
    split
    · exact ⟨_, rfl⟩
    · exact ⟨_, rfl⟩

/-- Nothing is decrypted where the code does not verify. -/
theorem decryptFenced_of_none
    (h : authenticate hashes kdfInfo key inputBuf input inputLength ciphertextLength
      maxPlaintextLength = .ok none) :
    decryptFenced hashes aes kdfInfo key inputBuf input inputLength ciphertextBuf ciphertext
      ciphertextLength maxPlaintextLength = .ok none := by
  unfold authenticate at h
  unfold decryptFenced decryptApart
  split at h
  · rename_i hsmall
    rw [if_pos hsmall]
  · rename_i hsmall
    rw [if_neg hsmall]
    obtain ⟨authenticated, hread, h⟩ := Checked.bind_eq_ok.mp h
    obtain ⟨inputMac, hmac, h⟩ := Checked.bind_eq_ok.mp h
    split at h
    · rename_i hdiffers
      simp only [hread, hmac, Checked.ok_bind]
      rw [if_pos hdiffers]
    · cases h

/-- Where it verifies, the cipher text is decrypted. -/
theorem decryptFenced_of_some {plaintext : Bytes}
    (h : authenticate hashes kdfInfo key inputBuf input inputLength ciphertextLength
      maxPlaintextLength = .ok (some plaintext)) :
    ciphertextLength ≤ maxPlaintextLength ∧
      decryptFenced hashes aes kdfInfo key inputBuf input inputLength ciphertextBuf ciphertext
        ciphertextLength maxPlaintextLength =
        aesDecryptCbc aes (deriveKeys hashes kdfInfo key).aesKey
          (deriveKeys hashes kdfInfo key).aesIv
          (cutOut ciphertextBuf ciphertext ciphertextLength) 0 ciphertextLength
          maxPlaintextLength := by
  unfold authenticate at h
  unfold decryptFenced decryptApart
  split at h
  · cases h
  · rename_i hsmall
    rw [if_neg hsmall]
    obtain ⟨authenticated, hread, h⟩ := Checked.bind_eq_ok.mp h
    obtain ⟨inputMac, hmac, h⟩ := Checked.bind_eq_ok.mp h
    split at h
    · cases h
    · rename_i hsame
      simp only [hread, hmac, Checked.ok_bind]
      rw [if_neg hsame]
      exact ⟨by omega, rfl⟩

/-- **A verified decryption stays inside its cipher text and its plaintext
buffer just where the cipher text is whole blocks**, one at least. -/
theorem decryptFenced_of_wholeBlocks
    (hcut : ciphertext + ciphertextLength ≤ ciphertextBuf.length) {plaintext : Bytes}
    (h : authenticate hashes kdfInfo key inputBuf input inputLength ciphertextLength
      maxPlaintextLength = .ok (some plaintext)) (hblocks : WholeBlocks ciphertextLength) :
    ∃ result, decryptFenced hashes aes kdfInfo key inputBuf input inputLength ciphertextBuf
      ciphertext ciphertextLength maxPlaintextLength = .ok result := by
  obtain ⟨hfit, hdecrypt⟩ := decryptFenced_of_some aes h
  have hlength := length_cutOut hcut
  obtain ⟨result, hinside, -⟩ := aesDecryptCbc_inside aes (deriveKeys hashes kdfInfo key).aesKey
    (deriveKeys hashes kdfInfo key).aesIv
    (show 0 + ciphertextLength ≤ (cutOut ciphertextBuf ciphertext ciphertextLength).length by omega)
    hfit hblocks
  rw [hdecrypt, hinside]
  exact ⟨result, rfl⟩

theorem decryptFenced_of_not_wholeBlocks
    (hcut : ciphertext + ciphertextLength ≤ ciphertextBuf.length) {plaintext : Bytes}
    (h : authenticate hashes kdfInfo key inputBuf input inputLength ciphertextLength
      maxPlaintextLength = .ok (some plaintext)) (hblocks : ¬ WholeBlocks ciphertextLength) :
    decryptFenced hashes aes kdfInfo key inputBuf input inputLength ciphertextBuf ciphertext
      ciphertextLength maxPlaintextLength = .error .outOfBounds := by
  obtain ⟨hfit, hdecrypt⟩ := decryptFenced_of_some aes h
  have hlength := length_cutOut hcut
  have houtside := aesDecryptCbc_outside aes (deriveKeys hashes kdfInfo key).aesKey
    (deriveKeys hashes kdfInfo key).aesIv
    (by rw [hlength]; exact hfit :
      (cutOut ciphertextBuf ciphertext ciphertextLength).length ≤ maxPlaintextLength)
    (by rw [hlength]; exact hblocks)
  rw [hlength] at houtside
  rw [hdecrypt, houtside]

/-- So for whoever goes on with what was decrypted. -/
theorem decryptFenced_bind_iff (aes : Aes256)
    (hcut : ciphertext + ciphertextLength ≤ ciphertextBuf.length) {plaintext : Bytes}
    (h : authenticate hashes kdfInfo key inputBuf input inputLength ciphertextLength
      maxPlaintextLength = .ok (some plaintext)) {α : Type} {next : Option Bytes → Checked α}
    (hnext : ∀ result, ∃ a, next result = .ok a) :
    (∃ a, decryptFenced hashes aes kdfInfo key inputBuf input inputLength ciphertextBuf ciphertext
      ciphertextLength maxPlaintextLength >>= next = .ok a) ↔ WholeBlocks ciphertextLength := by
  constructor
  · rintro ⟨a, ha⟩
    by_contra hblocks
    rw [decryptFenced_of_not_wholeBlocks aes hcut h hblocks] at ha
    cases ha
  · intro hblocks
    obtain ⟨result, hresult⟩ := decryptFenced_of_wholeBlocks aes hcut h hblocks
    rw [hresult, Checked.ok_bind]
    exact hnext result

end AesSha256

end Olm
