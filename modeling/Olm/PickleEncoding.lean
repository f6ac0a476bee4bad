import Olm.Base64.RoundTrip
import Olm.Cipher.InPlace
import Olm.Message.Model

/-!
# Encrypted pickles

`src/pickle_encoding.c`: a pickle is written at the end of the room for its
encoded form, encrypted there and encoded over it. On the way back it is
decoded and decrypted over itself (`encInput_encText`).
-/

namespace Olm

variable (hashes : Hashes) (aes : Aes256)

/-- The `kdf_info` of `PICKLE_CIPHER`. -/
def PICKLE_KDF_INFO : Bytes := asciiBytes "Pickle"

/-- `_olm_enc_output_length`. -/
def encOutputLength (rawLength : ℕ) : ℕ :=
  encodeBase64Length (aesEncryptCbcLength rawLength + MAC_LENGTH)

/-- `_olm_enc_output_pos`. -/
def encOutputPos (rawLength : ℕ) : ℕ :=
  encodeBase64Length (aesEncryptCbcLength rawLength + MAC_LENGTH) -
    (aesEncryptCbcLength rawLength + MAC_LENGTH)

/-- `_olm_enc_output`, of the pickle in the buffer `output`. -/
def encOutput (key output : Bytes) (rawLength : ℕ) : Checked (Bytes × ℕ) := do
  let ciphertextLength := aesEncryptCbcLength rawLength
  let length := ciphertextLength + MAC_LENGTH
  let base64Length := encodeBase64Length length
  let rawOutput := base64Length - length
  let (output, _) ← AesSha256.encryptWithin aes hashes PICKLE_KDF_INFO key output rawOutput rawLength
    rawOutput ciphertextLength rawOutput length
  let (output, _) ← encodeBase64 (.within rawOutput) length output 0
  .ok (output, base64Length)

/-- `_olm_enc_input`: the buffer, and the length of the pickle at its front or
the error. The length of the raw pickle is a difference of `size_t`. -/
def encInput (key input : Bytes) : Checked (Bytes × Except OlmErrorCode ℕ) :=
  match decodeBase64Length input.length with
  | none => .ok (input, .error .INVALID_BASE64)
  | some encLength => do
    let (input, _) ← decodeBase64 (.within 0) input.length input 0
    let rawLength := (encLength + 2 ^ SIZE_WIDTH - MAC_LENGTH) % 2 ^ SIZE_WIDTH
    match ← AesSha256.decryptWithin aes hashes PICKLE_KDF_INFO key input 0 encLength 0 rawLength 0
        rawLength with
    | (input, none) => .ok (input, .error .BAD_ACCOUNT_KEY)
    | (input, some result) => .ok (input, .ok result)

/-! ## Round trip -/

open Base64

/-- The text of a pickle. -/
def encText (key raw : Bytes) : Bytes :=
  encode (AesSha256.sealBytes hashes aes PICKLE_KDF_INFO key raw)

theorem encText_length (key raw : Bytes) :
    (encText hashes aes key raw).length = encOutputLength raw.length := by
  rw [encText, encode_length, AesSha256.sealBytes_length]
  rfl

/-- **A pickle is encoded in place**, in a buffer with enough room. -/
theorem encOutput_eq (key raw : Bytes) {buf : Bytes}
    (hroom : encOutputLength raw.length ≤ buf.length) :
    (writeAt buf (encOutputPos raw.length) raw >>= fun buf =>
        encOutput hashes aes key buf raw.length) =
      .ok (encText hashes aes key raw ++ buf.drop (encOutputLength raw.length),
        encOutputLength raw.length) := by
  obtain ⟨length, hlength⟩ : ∃ length, aesEncryptCbcLength raw.length + MAC_LENGTH = length :=
    ⟨_, rfl⟩
  have hfit : length ≤ encodeBase64Length length := by
    unfold encodeBase64Length
    omega
  have hraw : aesEncryptCbcLength raw.length = raw.length + (padding raw.length).length :=
    aesEncryptCbcLength_eq raw.length
  have hout : encOutputLength raw.length = encodeBase64Length length := by
    rw [encOutputLength, hlength]
  have hpos : encOutputPos raw.length = encodeBase64Length length - length := by
    rw [encOutputPos, hlength]
  -- the room before the pickle, for it, for its padding and code, and what is after
  obtain ⟨gap, rest, rfl, hgap, hrest⟩ := exists_cut (n := buf.length - encOutputPos raw.length)
    (by omega : buf.length = encOutputPos raw.length + _)
  obtain ⟨old, rest, rfl, hold, hrest'⟩ := exists_cut (n := rest.length - raw.length)
    (by omega : rest.length = raw.length + _)
  obtain ⟨room, post, rfl, hroomLength, -⟩ := exists_cut
    (n := rest.length - ((padding raw.length).length + MAC_LENGTH))
    (by omega : rest.length = ((padding raw.length).length + MAC_LENGTH) + _)
  have hwrite := writeAt_append gap (room ++ post) hold.symm
  have hseal := AesSha256.encryptWithin_eq hashes aes PICKLE_KDF_INFO key gap raw post hroomLength
  have hsealed : (AesSha256.sealBytes hashes aes PICKLE_KDF_INFO key raw).length = length := by
    rw [AesSha256.sealBytes_length, hlength]
  have hat : gap.length + (AesSha256.sealBytes hashes aes PICKLE_KDF_INFO key raw).length =
      encodeBase64Length (AesSha256.sealBytes hashes aes PICKLE_KDF_INFO key raw).length := by
    rw [hsealed]
    omega
  have htext := encodeBase64_within post hat
  have hdrop : (gap ++ (old ++ (room ++ post))).drop (encodeBase64Length length) = post := by
    have hfront : (gap ++ (old ++ room)).length = encodeBase64Length length := by
      simp only [List.length_append]
      omega
    rw [← List.append_assoc old, ← List.append_assoc gap, List.drop_left' hfront]
  rw [hsealed, hgap, hpos] at htext
  rw [hgap, hpos, hlength] at hseal
  rw [hgap, hpos] at hwrite
  rw [hpos, hwrite, Checked.ok_bind, encOutput, hout, hdrop]
  simp only [hlength, hseal, htext, Checked.ok_bind, encText]

/-- **What was encoded is decoded** with the same key: the pickle is at the
front of the buffer. -/
theorem encInput_encText {aes : Aes256} (haes : aes.Inverts) (key raw : Bytes)
    (hsize : aesEncryptCbcLength raw.length + MAC_LENGTH < 2 ^ SIZE_WIDTH) :
    ∃ rest, encInput hashes aes key (encText hashes aes key raw) =
      .ok (raw ++ rest, .ok raw.length) := by
  obtain ⟨rest, hdecode⟩ := decodeBase64_within
    (AesSha256.sealBytes hashes aes PICKLE_KDF_INFO key raw)
  obtain ⟨rest', hopen⟩ := AesSha256.decryptWithin_sealBytes hashes aes PICKLE_KDF_INFO key haes []
    raw rest
  refine ⟨rest', ?_⟩
  have hlength : decodeBase64Length (encText hashes aes key raw).length =
      some (aesEncryptCbcLength raw.length + MAC_LENGTH) := by
    rw [encText, encode_length, decodeBase64Length_encodeBase64Length, AesSha256.sealBytes_length]
  have hraw : (aesEncryptCbcLength raw.length + MAC_LENGTH + 2 ^ SIZE_WIDTH - MAC_LENGTH) %
      2 ^ SIZE_WIDTH = aesEncryptCbcLength raw.length := by
    rw [Nat.add_right_comm, Nat.add_sub_cancel, Nat.add_mod_right, Nat.mod_eq_of_lt (by omega)]
  simp only [List.nil_append, List.length_nil] at hopen
  rw [encInput, hlength]
  dsimp only
  rw [hraw, encText, hdecode, Checked.ok_bind]
  dsimp only
  rw [hopen, Checked.ok_bind]

end Olm
