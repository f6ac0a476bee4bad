import Olm.Cipher.Lawful

/-!
# The cipher over its own input

The pickles are encrypted and decrypted in place: plain text, cipher text
and what is authenticated start at the same byte of one buffer. Here the
two functions read and write that buffer, block by block.
`aesEncryptCbcWithin_eq` and `aesDecryptCbcWithinLoop_eq` are the loop
invariants: the blocks before the current one are done and those after it
untouched, so the functions compute what they do on separate buffers.
-/

namespace Olm

section Definitions

variable (aes : Aes256) (key : FixedBytes AES256_KEY_LENGTH)

/-- The loop of `_olm_crypto_aes_encrypt_cbc`, with `blocks` whole blocks left:
the last block that it wrote, and the buffer. -/
def aesEncryptCbcBlocks :
    (blocks : ℕ) → FixedBytes AES_BLOCK_LENGTH → (buf : Bytes) → (input output : ℕ) →
    Checked (FixedBytes AES_BLOCK_LENGTH × Bytes)
  | 0, inputBlock, buf, _, _ => .ok (inputBlock, buf)
  | blocks + 1, inputBlock, buf, input, output => do
    let chunk ← loadArray AES_BLOCK_LENGTH buf input
    let inputBlock := aes.encrypt key (xorBlocks inputBlock chunk)
    let buf ← writeAt buf output inputBlock.val
    aesEncryptCbcBlocks blocks inputBlock buf (input + AES_BLOCK_LENGTH) (output + AES_BLOCK_LENGTH)

/-- `_olm_crypto_aes_encrypt_cbc`, where `input` and `output` are in one
buffer. -/
def aesEncryptCbcWithin (iv : FixedBytes AES_BLOCK_LENGTH) (buf : Bytes)
    (input inputLength output : ℕ) : Checked Bytes := do
  let blocks := inputLength / AES_BLOCK_LENGTH
  let (inputBlock, buf) ← aesEncryptCbcBlocks aes key blocks iv buf input output
  let pos := blocks * AES_BLOCK_LENGTH
  -- what is left is less than a block, and filled up
  let last ← readBytes buf (input + pos) (inputLength - pos)
  writeAt buf (output + pos) (aesEncryptCbc aes key inputBlock last)

/-- The loop of `_olm_crypto_aes_decrypt_cbc`, where `input` and `output` are
in one buffer. -/
def aesDecryptCbcWithinLoop (input inputLength output : ℕ) :
    (fuel i : ℕ) → FixedBytes AES_BLOCK_LENGTH → (buf : Bytes) → Checked Bytes
  | 0, i, _, buf => if i < inputLength then .error .diverges else .ok buf
  | fuel + 1, i, block1, buf =>
    if i < inputLength then do
      let block2 ← loadArray AES_BLOCK_LENGTH buf (input + i)
      let buf ← writeAt buf (output + i) (xorBlocks (aes.decrypt key block2) block1).val
      aesDecryptCbcWithinLoop input inputLength output fuel (i + AES_BLOCK_LENGTH) block2 buf
    else .ok buf

/-- `_olm_crypto_aes_decrypt_cbc`, where `input` and `output` are in one
buffer: the buffer, and the length it returns or `none` for `std::size_t(-1)`. -/
def aesDecryptCbcWithin (iv : FixedBytes AES_BLOCK_LENGTH) (buf : Bytes)
    (input inputLength output : ℕ) : Checked (Bytes × Option ℕ) := do
  let buf ← aesDecryptCbcWithinLoop aes key input inputLength output inputLength 0 iv buf
  if inputLength = 0 then .error .outOfBounds
  else
    let padding ← readByte buf (output + (inputLength - 1))
    if padding.toNat > inputLength then .ok (buf, none)
    else .ok (buf, some (inputLength - padding.toNat))

namespace AesSha256

variable (hashes : Hashes) (kdfInfo : Bytes)

/-- `aes_sha_256_cipher_encrypt`, on one buffer: the buffer, and the length it
returns or `none` for `std::size_t(-1)`. -/
def encryptWithin (key buf : Bytes)
    (plaintext plaintextLength ciphertext ciphertextLength output outputLength : ℕ) :
    Checked (Bytes × Option ℕ) :=
  if ciphertextLength < aesEncryptCbcLength plaintextLength ∨ outputLength < MAC_LENGTH then
    .ok (buf, none)
  else do
    let keys := deriveKeys hashes kdfInfo key
    let buf ← aesEncryptCbcWithin aes keys.aesKey keys.aesIv buf plaintext plaintextLength ciphertext
    let authenticated ← readBytes buf output (outputLength - MAC_LENGTH)
    let buf ← writeAt buf (output + outputLength - MAC_LENGTH) (mac hashes keys authenticated)
    .ok (buf, some outputLength)

/-- `aes_sha_256_cipher_decrypt`, on one buffer. -/
def decryptWithin (key buf : Bytes)
    (input inputLength ciphertext ciphertextLength plaintext maxPlaintextLength : ℕ) :
    Checked (Bytes × Option ℕ) :=
  if maxPlaintextLength < ciphertextLength ∨ inputLength < MAC_LENGTH then .ok (buf, none)
  else do
    let keys := deriveKeys hashes kdfInfo key
    let authenticated ← readBytes buf input (inputLength - MAC_LENGTH)
    let inputMac ← readBytes buf (input + inputLength - MAC_LENGTH) MAC_LENGTH
    if inputMac ≠ mac hashes keys authenticated then .ok (buf, none)
    else aesDecryptCbcWithin aes keys.aesKey keys.aesIv buf ciphertext ciphertextLength plaintext

end AesSha256

end Definitions

/-! ## Encrypting -/

section Encrypt

variable (aes : Aes256) (key : FixedBytes AES256_KEY_LENGTH)

/-- One more block, and then the rest. -/
theorem aesEncryptCbcWithin_block (block : FixedBytes AES_BLOCK_LENGTH) (pre : Bytes)
    {chunk : Bytes} (h : chunk.length = AES_BLOCK_LENGTH) (rest : Bytes) (n : ℕ) :
    aesEncryptCbcWithin aes key block (pre ++ (chunk ++ rest)) pre.length (AES_BLOCK_LENGTH + n)
        pre.length =
      aesEncryptCbcWithin aes key (aes.encrypt key (xorBlock block chunk h))
        ((pre ++ (aes.encrypt key (xorBlock block chunk h)).val) ++ rest)
        (pre ++ (aes.encrypt key (xorBlock block chunk h)).val).length n
        (pre ++ (aes.encrypt key (xorBlock block chunk h)).val).length := by
  obtain ⟨out, hout⟩ : ∃ out, aes.encrypt key (xorBlock block chunk h) = out := ⟨_, rfl⟩
  have hpos : 0 < AES_BLOCK_LENGTH := by decide
  have hdiv : (AES_BLOCK_LENGTH + n) / AES_BLOCK_LENGTH = n / AES_BLOCK_LENGTH + 1 := by
    rw [Nat.add_div_left n hpos]
  have hload : loadArray AES_BLOCK_LENGTH (pre ++ (chunk ++ rest)) pre.length = .ok ⟨chunk, h⟩ :=
    loadArray_append pre ⟨chunk, h⟩ rest
  have hwrite := writeAt_append pre rest (out.property.trans h.symm)
  have hlen : (pre ++ out.val).length = pre.length + AES_BLOCK_LENGTH := by
    rw [List.length_append, FixedBytes.length_val]
  have hnext : pre.length + (n / AES_BLOCK_LENGTH + 1) * AES_BLOCK_LENGTH =
      pre.length + AES_BLOCK_LENGTH + n / AES_BLOCK_LENGTH * AES_BLOCK_LENGTH := by
    rw [Nat.add_one_mul]
    omega
  have hleft : AES_BLOCK_LENGTH + n - (n / AES_BLOCK_LENGTH + 1) * AES_BLOCK_LENGTH =
      n - n / AES_BLOCK_LENGTH * AES_BLOCK_LENGTH := by
    rw [Nat.add_one_mul]
    omega
  rw [hout, hlen, aesEncryptCbcWithin, aesEncryptCbcWithin, hdiv]
  dsimp only
  rw [aesEncryptCbcBlocks, hload, Checked.ok_bind]
  dsimp only
  rw [hout, hwrite, Checked.ok_bind, hnext, hleft, List.append_assoc]

/-- **Encrypting in place** gives the cipher text, where the plain text and the
room for its padding were. -/
theorem aesEncryptCbcWithin_eq (block : FixedBytes AES_BLOCK_LENGTH) (pre plaintext : Bytes)
    {room : Bytes} (post : Bytes) (hroom : room.length = (padding plaintext.length).length) :
    aesEncryptCbcWithin aes key block (pre ++ (plaintext ++ (room ++ post))) pre.length
        plaintext.length pre.length =
      .ok (pre ++ (aesEncryptCbc aes key block plaintext ++ post)) := by
  induction plaintext using block_induction generalizing block pre with
  | last input h =>
    have hlen : (aesEncryptCbc aes key block input).length = (input ++ room).length := by
      rw [aesEncryptCbc_length, List.length_append, List.length_append, hroom]
    have hread : readBytes (pre ++ (input ++ (room ++ post))) pre.length input.length = .ok input :=
      readBytes_append pre input (room ++ post)
    have hwrite := writeAt_append pre post hlen
    rw [List.append_assoc] at hwrite
    rw [aesEncryptCbcWithin, Nat.div_eq_of_lt h]
    simp only [aesEncryptCbcBlocks, Checked.ok_bind, Nat.zero_mul, Nat.add_zero, Nat.sub_zero, hread,
      hwrite]
  | block chunk rest h ih =>
    rw [padding_append h] at hroom
    rw [List.length_append, h, List.append_assoc, aesEncryptCbcWithin_block aes key block pre h,
      ih _ _ hroom,
      aesEncryptCbc_append block rest h]
    simp only [List.append_assoc]

end Encrypt

/-! ## Decrypting -/

section Decrypt

variable (aes : Aes256) (key : FixedBytes AES256_KEY_LENGTH)

/-- **The loop over its own input** writes what the blocks decrypt to over them,
and nothing else. -/
theorem aesDecryptCbcWithinLoop_eq (pre post : Bytes) {inputLength : ℕ}
    (block : FixedBytes AES_BLOCK_LENGTH) (input done : Bytes) (fuel : ℕ)
    (hlength : inputLength = done.length + input.length)
    (hblocks : AES_BLOCK_LENGTH ∣ input.length) (hfuel : input.length ≤ fuel) :
    aesDecryptCbcWithinLoop aes key pre.length inputLength pre.length fuel done.length block
        (pre ++ (done ++ (input ++ post))) =
      .ok (pre ++ (done ++ (cbcDecrypted aes key block input ++ post))) := by
  induction input using block_induction generalizing block done fuel with
  | last input h =>
    have hnil := eq_nil_of_blocks h hblocks
    subst hnil
    rw [List.length_nil, Nat.add_zero] at hlength
    rw [hlength, cbcDecrypted_nil]
    cases fuel <;> rw [aesDecryptCbcWithinLoop, if_neg (lt_irrefl _)]
  | block chunk tail h ih =>
    have hpos : 0 < AES_BLOCK_LENGTH := by decide
    have hleft := blocks_of_append h hblocks
    rw [List.length_append, h] at hlength hfuel
    obtain ⟨fuel, rfl⟩ : ∃ f, fuel = f + 1 := ⟨fuel - 1, by omega⟩
    obtain ⟨out, hout⟩ : ∃ out, xorBlocks (aes.decrypt key ⟨chunk, h⟩) block = out := ⟨_, rfl⟩
    -- the block is read before it is written over
    have hload := loadArray_append (pre ++ done) ⟨chunk, h⟩ (tail ++ post)
    have hwrite := writeAt_append (pre ++ done) (tail ++ post) (out.property.trans h.symm)
    have hdone : (done ++ out.val).length = done.length + AES_BLOCK_LENGTH := by
      rw [List.length_append, FixedBytes.length_val]
    have hloop := ih ⟨chunk, h⟩ (done ++ out.val) fuel (by omega) hleft (by omega)
    rw [hdone] at hloop
    simp only [List.append_assoc, List.length_append] at hload hwrite hloop ⊢
    rw [aesDecryptCbcWithinLoop, if_pos (by omega), hload, Checked.ok_bind, hout, hwrite,
      Checked.ok_bind, hloop, cbcDecrypted_append block ⟨chunk, h⟩, hout, List.append_assoc]

variable {aes} in
/-- **Decrypting in place** undoes an encryption: the plain text and its
padding are where the cipher text was. -/
theorem aesDecryptCbcWithin_aesEncryptCbc (haes : aes.Inverts) (iv : FixedBytes AES_BLOCK_LENGTH)
    (pre plaintext post : Bytes) :
    aesDecryptCbcWithin aes key iv (pre ++ (aesEncryptCbc aes key iv plaintext ++ post)) pre.length
        (aesEncryptCbcLength plaintext.length) pre.length =
      .ok (pre ++ (plaintext ++ (padding plaintext.length ++ post)), some plaintext.length) := by
  have hpad := padding_length_pos plaintext.length
  obtain ⟨ct, hct⟩ : ∃ ct, aesEncryptCbc aes key iv plaintext = ct := ⟨_, rfl⟩
  have hblocks : AES_BLOCK_LENGTH ∣ ct.length := hct ▸ aesEncryptCbc_blocks iv plaintext
  have hlen : ct.length = (plaintext ++ padding plaintext.length).length := by
    rw [← hct, aesEncryptCbc_length]
  have hcbc : aesEncryptCbcLength plaintext.length = ct.length := by
    rw [hlen, aesEncryptCbcLength_eq, List.length_append]
  have hdecrypted : cbcDecrypted aes key iv ct = plaintext ++ padding plaintext.length := by
    rw [← hct, cbcDecrypted_aesEncryptCbc haes]
  have hloop := aesDecryptCbcWithinLoop_eq aes key pre post iv ct [] ct.length
    (Nat.zero_add _).symm hblocks le_rfl
  rw [hdecrypted, List.nil_append, List.nil_append, List.length_nil] at hloop
  obtain ⟨hlast, hbyte⟩ := readByte_padding pre plaintext post (pre.length + (ct.length - 1))
    (by rw [hlen, List.length_append]; omega)
  rw [List.length_append] at hlen
  rw [hct, hcbc, aesDecryptCbcWithin, hloop, Checked.ok_bind, if_neg (by omega), hlast,
    Checked.ok_bind, hbyte, if_neg (by omega), hlen, Nat.add_sub_cancel]
  simp only [List.append_assoc]

end Decrypt

/-! ## With the code behind -/

namespace AesSha256

variable (hashes : Hashes) (aes : Aes256) (kdfInfo key : Bytes)

/-- The cipher text, and the code of it behind. -/
def sealBytes (plaintext : Bytes) : Bytes :=
  let keys := deriveKeys hashes kdfInfo key
  let ciphertext := aesEncryptCbc aes keys.aesKey keys.aesIv plaintext
  ciphertext ++ mac hashes keys ciphertext

theorem sealBytes_length (plaintext : Bytes) :
    (sealBytes hashes aes kdfInfo key plaintext).length =
      aesEncryptCbcLength plaintext.length + MAC_LENGTH := by
  rw [sealBytes, List.length_append, aesEncryptCbc_length_eq, mac_length]

/-- **Sealing in place, behind a header**: the cipher text is where the plain
text was, the code of it and of the header behind, and nothing else
changes. -/
theorem encryptWithin_header (pre header plaintext : Bytes) {room : Bytes} (post : Bytes)
    (hroom : room.length = (padding plaintext.length).length + MAC_LENGTH) :
    encryptWithin aes hashes kdfInfo key (pre ++ (header ++ (plaintext ++ (room ++ post))))
        (pre.length + header.length) plaintext.length (pre.length + header.length)
        (aesEncryptCbcLength plaintext.length) pre.length
        (header.length + (aesEncryptCbcLength plaintext.length + MAC_LENGTH)) =
      .ok (pre ++ (header ++ (sealBody hashes aes kdfInfo key header plaintext ++ post)),
        some (header.length + (aesEncryptCbcLength plaintext.length + MAC_LENGTH))) := by
  obtain ⟨keys, hkeys⟩ : ∃ keys, deriveKeys hashes kdfInfo key = keys := ⟨_, rfl⟩
  obtain ⟨ct, hct⟩ : ∃ ct, aesEncryptCbc aes keys.aesKey keys.aesIv plaintext = ct := ⟨_, rfl⟩
  obtain ⟨gap, old, rfl, hgap, hold⟩ := exists_cut hroom
  have hctLength : ct.length = aesEncryptCbcLength plaintext.length := by
    rw [← hct, aesEncryptCbc_length_eq]
  have hcbc := aesEncryptCbcWithin_eq aes keys.aesKey keys.aesIv (pre ++ header) plaintext
    (old ++ post) hgap
  have hread : readBytes (pre ++ (header ++ (ct ++ (old ++ post)))) pre.length
      (header ++ ct).length = .ok (header ++ ct) := by
    have h := readBytes_append pre (header ++ ct) (old ++ post)
    rwa [List.append_assoc header] at h
  have hmac := writeAt_append (pre ++ (header ++ ct)) post
    ((mac_length hashes keys (header ++ ct)).trans hold.symm)
  have hpos : pre.length + (header.length + (aesEncryptCbcLength plaintext.length + MAC_LENGTH)) -
      MAC_LENGTH = (pre ++ (header ++ ct)).length := by
    simp only [List.length_append]
    omega
  have hauthenticated : header.length + (aesEncryptCbcLength plaintext.length + MAC_LENGTH) -
      MAC_LENGTH = (header ++ ct).length := by
    rw [List.length_append]
    omega
  rw [hct] at hcbc
  simp only [List.append_assoc] at hcbc hmac
  rw [List.length_append] at hcbc
  unfold encryptWithin
  rw [if_neg (by omega)]
  simp only [hkeys]
  rw [List.append_assoc gap, hcbc, Checked.ok_bind, hauthenticated, hread, Checked.ok_bind, hpos, hmac,
    Checked.ok_bind, sealBody, hkeys]
  simp only [hct, List.append_assoc]

/-- **Opening in place, behind a header**, what was sealed with the same key:
the plain text is where the cipher text was. -/
theorem decryptWithin_header (haes : aes.Inverts) (pre header plaintext post : Bytes) :
    ∃ rest, decryptWithin aes hashes kdfInfo key
        (pre ++ (header ++ (sealBody hashes aes kdfInfo key header plaintext ++ post))) pre.length
        (header.length + (aesEncryptCbcLength plaintext.length + MAC_LENGTH))
        (pre.length + header.length) (aesEncryptCbcLength plaintext.length)
        (pre.length + header.length) (aesEncryptCbcLength plaintext.length) =
      .ok (pre ++ (header ++ (plaintext ++ rest)), some plaintext.length) := by
  obtain ⟨keys, hkeys⟩ : ∃ keys, deriveKeys hashes kdfInfo key = keys := ⟨_, rfl⟩
  obtain ⟨ct, hct⟩ : ∃ ct, aesEncryptCbc aes keys.aesKey keys.aesIv plaintext = ct := ⟨_, rfl⟩
  obtain ⟨tag, htag⟩ : ∃ tag, mac hashes keys (header ++ ct) = tag := ⟨_, rfl⟩
  have htagLength : tag.length = MAC_LENGTH := by rw [← htag, mac_length]
  have hctLength : ct.length = aesEncryptCbcLength plaintext.length := by
    rw [← hct, aesEncryptCbc_length_eq]
  have hcbc := aesDecryptCbcWithin_aesEncryptCbc keys.aesKey haes keys.aesIv (pre ++ header) plaintext
    (tag ++ post)
  have hread : readBytes (pre ++ (header ++ (ct ++ (tag ++ post)))) pre.length
      (header ++ ct).length = .ok (header ++ ct) := by
    have h := readBytes_append pre (header ++ ct) (tag ++ post)
    rwa [List.append_assoc header] at h
  have hreadMac : readBytes (pre ++ (header ++ (ct ++ (tag ++ post))))
      (pre ++ (header ++ ct)).length tag.length = .ok tag := by
    have h := readBytes_append (pre ++ (header ++ ct)) tag post
    rwa [List.append_assoc pre, List.append_assoc header] at h
  have hpos : pre.length + (header.length + (aesEncryptCbcLength plaintext.length + MAC_LENGTH)) -
      MAC_LENGTH = (pre ++ (header ++ ct)).length := by
    simp only [List.length_append]
    omega
  have hauthenticated : header.length + (aesEncryptCbcLength plaintext.length + MAC_LENGTH) -
      MAC_LENGTH = (header ++ ct).length := by
    rw [List.length_append]
    omega
  refine ⟨padding plaintext.length ++ (tag ++ post), ?_⟩
  rw [hct] at hcbc
  rw [List.length_append] at hcbc
  unfold decryptWithin
  rw [if_neg (by omega), sealBody, hkeys]
  simp only [hct, htag, List.append_assoc] at hcbc ⊢
  rw [hauthenticated, hread, Checked.ok_bind, hpos, ← htagLength, hreadMac, Checked.ok_bind, htag,
    if_neg (not_not.mpr rfl), hcbc]

/-- **Sealing in place**: what was written there is sealed, and nothing else
changes. -/
theorem encryptWithin_eq (pre plaintext : Bytes) {room : Bytes} (post : Bytes)
    (hroom : room.length = (padding plaintext.length).length + MAC_LENGTH) :
    encryptWithin aes hashes kdfInfo key (pre ++ (plaintext ++ (room ++ post))) pre.length
        plaintext.length pre.length (aesEncryptCbcLength plaintext.length) pre.length
        (aesEncryptCbcLength plaintext.length + MAC_LENGTH) =
      .ok (pre ++ (sealBytes hashes aes kdfInfo key plaintext ++ post),
        some (aesEncryptCbcLength plaintext.length + MAC_LENGTH)) := by
  have hseal := encryptWithin_header hashes aes kdfInfo key pre [] plaintext post hroom
  rw [List.length_nil, Nat.zero_add, Nat.add_zero] at hseal
  exact hseal

/-- **Opening in place** what was sealed with the same key: the plain text is
at the front. -/
theorem decryptWithin_sealBytes (haes : aes.Inverts) (pre plaintext post : Bytes) :
    ∃ rest, decryptWithin aes hashes kdfInfo key
        (pre ++ (sealBytes hashes aes kdfInfo key plaintext ++ post)) pre.length
        (aesEncryptCbcLength plaintext.length + MAC_LENGTH) pre.length
        (aesEncryptCbcLength plaintext.length) pre.length (aesEncryptCbcLength plaintext.length) =
      .ok (pre ++ (plaintext ++ rest), some plaintext.length) := by
  obtain ⟨rest, hopen⟩ := decryptWithin_header hashes aes kdfInfo key haes pre [] plaintext post
  rw [List.length_nil, Nat.zero_add, Nat.add_zero] at hopen
  exact ⟨rest, hopen⟩

end AesSha256

end Olm
