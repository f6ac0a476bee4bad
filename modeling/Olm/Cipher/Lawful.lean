import Olm.Cipher.Model

/-!
# The cipher undoes itself

`aesSha256_lawful`: what `aes_sha_256_cipher_encrypt` leaves in the
message, `aes_sha_256_cipher_decrypt` verifies and decrypts, if AES
decryption undoes encryption on each block. The loop invariant of the CBC
decryption (`aesDecryptCbcLoop_eq`) is that the output before the
current block is the plain text so far.
-/

namespace Olm

section Blocks

variable {aes : Aes256} {key : FixedBytes AES256_KEY_LENGTH}

theorem zipWith_xor_cancel {a b : Bytes} (h : a.length = b.length) :
    (a.zipWith (· ^^^ ·) b).zipWith (· ^^^ ·) a = b := by
  induction a generalizing b with
  | nil => cases b with
    | nil => rfl
    | cons y b => simp at h
  | cons x a ih =>
    cases b with
    | nil => simp at h
    | cons y b =>
      rw [List.zipWith_cons_cons, List.zipWith_cons_cons, ih (by simpa using h), UInt8.xor_comm x y,
        UInt8.xor_assoc, UInt8.xor_self, UInt8.xor_zero]

/-- Exclusive or with the same block twice gives the input back. -/
theorem xorBlock_cancel (block : FixedBytes AES_BLOCK_LENGTH) {input : Bytes}
    (h : input.length = AES_BLOCK_LENGTH) :
    (xorBlock (xorBlock block input h) block.val block.property).val = input :=
  zipWith_xor_cancel (block.property.trans h.symm)

/-- Induction on an input, a block at a time. -/
theorem block_induction {P : Bytes → Prop}
    (last : ∀ input : Bytes, input.length < AES_BLOCK_LENGTH → P input)
    (block : ∀ chunk rest : Bytes, chunk.length = AES_BLOCK_LENGTH → P rest → P (chunk ++ rest))
    (input : Bytes) : P input := by
  induction hn : input.length using Nat.strong_induction_on generalizing input with
  | _ n ih =>
    rcases Nat.lt_or_ge input.length AES_BLOCK_LENGTH with h | h
    · exact last input h
    · have hpos : 0 < AES_BLOCK_LENGTH := by decide
      rw [← List.take_append_drop AES_BLOCK_LENGTH input]
      exact block _ _ (by rw [List.length_take]; omega)
        (ih _ (by rw [List.length_drop]; omega) _ rfl)

theorem aesEncryptCbc_append (block : FixedBytes AES_BLOCK_LENGTH) {chunk : Bytes} (rest : Bytes)
    (h : chunk.length = AES_BLOCK_LENGTH) :
    aesEncryptCbc aes key block (chunk ++ rest) =
      (aes.encrypt key (xorBlock block chunk h)).val ++
        aesEncryptCbc aes key (aes.encrypt key (xorBlock block chunk h)) rest := by
  have htake : (chunk ++ rest).take AES_BLOCK_LENGTH = chunk := List.take_left' h
  have hdrop : (chunk ++ rest).drop AES_BLOCK_LENGTH = rest := List.drop_left' h
  rw [aesEncryptCbc, dif_pos (by rw [List.length_append]; omega)]
  simp only [htake, hdrop]

theorem aesEncryptCbc_of_lt (block : FixedBytes AES_BLOCK_LENGTH) {input : Bytes}
    (h : input.length < AES_BLOCK_LENGTH) :
    aesEncryptCbc aes key block input =
      (aes.encrypt key (xorBlock block (padBlock input) (padBlock_length h))).val := by
  rw [aesEncryptCbc, dif_neg (by omega)]

/-- The bytes that fill the input up. -/
def padding (inputLength : ℕ) : Bytes :=
  List.replicate (AES_BLOCK_LENGTH - inputLength % AES_BLOCK_LENGTH)
    (UInt8.ofNat (AES_BLOCK_LENGTH - inputLength % AES_BLOCK_LENGTH))

theorem padding_length (inputLength : ℕ) :
    (padding inputLength).length = AES_BLOCK_LENGTH - inputLength % AES_BLOCK_LENGTH :=
  List.length_replicate

theorem padding_length_pos (inputLength : ℕ) :
    0 < (padding inputLength).length ∧ (padding inputLength).length ≤ AES_BLOCK_LENGTH := by
  have hlt : inputLength % AES_BLOCK_LENGTH < AES_BLOCK_LENGTH := Nat.mod_lt _ (by decide)
  rw [padding_length]
  omega

theorem padding_append {chunk rest : Bytes} (h : chunk.length = AES_BLOCK_LENGTH) :
    padding (chunk ++ rest).length = padding rest.length := by
  rw [List.length_append, h, padding, padding, Nat.add_mod_left]

theorem padBlock_eq {input : Bytes} (h : input.length < AES_BLOCK_LENGTH) :
    padBlock input = input ++ padding input.length := by
  rw [padBlock, padding, Nat.mod_eq_of_lt h]

theorem aesEncryptCbcLength_eq (inputLength : ℕ) :
    aesEncryptCbcLength inputLength = inputLength + (padding inputLength).length := by
  have hlt : inputLength % AES_BLOCK_LENGTH < AES_BLOCK_LENGTH := Nat.mod_lt _ (by decide)
  rw [aesEncryptCbcLength, padding_length]
  omega

theorem aesEncryptCbc_length (block : FixedBytes AES_BLOCK_LENGTH) (input : Bytes) :
    (aesEncryptCbc aes key block input).length = (input ++ padding input.length).length := by
  induction input using block_induction generalizing block with
  | last input h =>
    rw [aesEncryptCbc_of_lt block h, ← padBlock_eq h, padBlock_length h, FixedBytes.length_val]
  | block chunk rest h ih =>
    have hout : (aes.encrypt key (xorBlock block chunk h)).val.length = chunk.length := by
      rw [FixedBytes.length_val, h]
    rw [aesEncryptCbc_append block rest h, List.length_append, hout, ih, padding_append h,
      List.append_assoc, ← List.length_append]

/-- `_olm_crypto_aes_encrypt_cbc_length` is the length of what is written. -/
theorem aesEncryptCbc_length_eq (block : FixedBytes AES_BLOCK_LENGTH) (input : Bytes) :
    (aesEncryptCbc aes key block input).length = aesEncryptCbcLength input.length := by
  rw [aesEncryptCbc_length, aesEncryptCbcLength_eq, List.length_append]

/-! ### What a cipher text decrypts to -/

section Decrypted

variable (aes key)

/-- The blocks that whole blocks decrypt to: each one is decrypted and then
combined with the one before it. -/
def cbcDecrypted (block : FixedBytes AES_BLOCK_LENGTH) (ciphertext : Bytes) : Bytes :=
  if h : AES_BLOCK_LENGTH ≤ ciphertext.length then
    let chunk : FixedBytes AES_BLOCK_LENGTH :=
      ⟨ciphertext.take AES_BLOCK_LENGTH, List.length_take_of_le h⟩
    (xorBlocks (aes.decrypt key chunk) block).val ++
      cbcDecrypted chunk (ciphertext.drop AES_BLOCK_LENGTH)
  else []
termination_by ciphertext.length
decreasing_by
  have hpos : 0 < AES_BLOCK_LENGTH := by decide
  rw [List.length_drop]
  omega

end Decrypted

@[simp] theorem cbcDecrypted_nil (block : FixedBytes AES_BLOCK_LENGTH) :
    cbcDecrypted aes key block [] = [] := by
  rw [cbcDecrypted, dif_neg (by decide)]

theorem cbcDecrypted_append (block chunk : FixedBytes AES_BLOCK_LENGTH) (rest : Bytes) :
    cbcDecrypted aes key block (chunk.val ++ rest) =
      (xorBlocks (aes.decrypt key chunk) block).val ++ cbcDecrypted aes key chunk rest := by
  have htake : (chunk.val ++ rest).take AES_BLOCK_LENGTH = chunk.val := List.take_left' chunk.property
  have hdrop : (chunk.val ++ rest).drop AES_BLOCK_LENGTH = rest := List.drop_left' chunk.property
  rw [cbcDecrypted, dif_pos (by rw [List.length_append, FixedBytes.length_val]; omega)]
  simp only [htake, hdrop]

/-- Less than a block, where only whole blocks are left, is nothing. -/
theorem eq_nil_of_blocks {bytes : Bytes} (h : bytes.length < AES_BLOCK_LENGTH)
    (hblocks : AES_BLOCK_LENGTH ∣ bytes.length) : bytes = [] :=
  List.length_eq_zero_iff.mp (Nat.eq_zero_of_dvd_of_lt hblocks h)

/-- A block less. -/
theorem blocks_of_append {chunk rest : Bytes} (h : chunk.length = AES_BLOCK_LENGTH)
    (hblocks : AES_BLOCK_LENGTH ∣ (chunk ++ rest).length) : AES_BLOCK_LENGTH ∣ rest.length := by
  rw [List.length_append, h] at hblocks
  exact (Nat.dvd_add_right dvd_rfl).mp hblocks

variable (aes key) in
theorem cbcDecrypted_length (block : FixedBytes AES_BLOCK_LENGTH) (ciphertext : Bytes)
    (hblocks : AES_BLOCK_LENGTH ∣ ciphertext.length) :
    (cbcDecrypted aes key block ciphertext).length = ciphertext.length := by
  induction ciphertext using block_induction generalizing block with
  | last input h =>
    rw [eq_nil_of_blocks h hblocks, cbcDecrypted_nil]
  | block chunk rest h ih =>
    rw [cbcDecrypted_append block ⟨chunk, h⟩, List.length_append, FixedBytes.length_val,
      ih _ (blocks_of_append h hblocks), List.length_append, h]

/-- What was encrypted decrypts to the plain text and its padding. -/
theorem cbcDecrypted_aesEncryptCbc (haes : aes.Inverts) (block : FixedBytes AES_BLOCK_LENGTH)
    (input : Bytes) :
    cbcDecrypted aes key block (aesEncryptCbc aes key block input) =
      input ++ padding input.length := by
  induction input using block_induction generalizing block with
  | last input h =>
    rw [aesEncryptCbc_of_lt block h, ← List.append_nil (Subtype.val _), cbcDecrypted_append, haes,
      cbcDecrypted_nil, List.append_nil, xorBlocks, xorBlock_cancel block (padBlock_length h),
      padBlock_eq h]
  | block chunk rest h ih =>
    rw [aesEncryptCbc_append block rest h, cbcDecrypted_append, haes, ih, xorBlocks,
      xorBlock_cancel block h, padding_append h, List.append_assoc]

/-- The cipher text is in whole blocks. -/
theorem aesEncryptCbc_blocks (block : FixedBytes AES_BLOCK_LENGTH) (input : Bytes) :
    AES_BLOCK_LENGTH ∣ (aesEncryptCbc aes key block input).length := by
  induction input using block_induction generalizing block with
  | last input h =>
    rw [aesEncryptCbc_of_lt block h, FixedBytes.length_val]
  | block chunk rest h ih =>
    rw [aesEncryptCbc_append block rest h, List.length_append, FixedBytes.length_val]
    exact (Nat.dvd_add_right dvd_rfl).mpr (ih _)

/-! ### The loop that decrypts -/

theorem aesDecryptCbcLoop_end {buf : Bytes} {pos inputLength fuel : ℕ}
    (block : FixedBytes AES_BLOCK_LENGTH) (output : Bytes) :
    aesDecryptCbcLoop aes key buf pos inputLength fuel inputLength block output = .ok output := by
  cases fuel <;> rw [aesDecryptCbcLoop, if_neg (lt_irrefl _)]

variable (aes key) in
/-- **The loop decrypts block by block**: it appends what is left of the input,
decrypted, to what is already written. -/
theorem aesDecryptCbcLoop_eq (buf rest : Bytes) (pos : ℕ) {inputLength : ℕ}
    (block : FixedBytes AES_BLOCK_LENGTH) (input done room post : Bytes) (fuel : ℕ)
    (hbuf : buf.drop (pos + done.length) = input ++ rest)
    (hlength : inputLength = done.length + input.length)
    (hblocks : AES_BLOCK_LENGTH ∣ input.length) (hroom : room.length = input.length)
    (hfuel : input.length ≤ fuel) :
    aesDecryptCbcLoop aes key buf pos inputLength fuel done.length block
        (done ++ (room ++ post)) =
      .ok (done ++ (cbcDecrypted aes key block input ++ post)) := by
  induction input using block_induction generalizing block done room fuel with
  | last input h =>
    have hnil := eq_nil_of_blocks h hblocks
    subst hnil
    rw [List.length_nil, Nat.add_zero] at hlength
    rw [List.length_eq_zero_iff.mp hroom, hlength, aesDecryptCbcLoop_end, cbcDecrypted_nil]
  | block chunk tail h ih =>
    have hpos : 0 < AES_BLOCK_LENGTH := by decide
    have hleft := blocks_of_append h hblocks
    rw [List.append_assoc] at hbuf
    rw [List.length_append, h] at hlength hroom hfuel
    obtain ⟨fuel, rfl⟩ : ∃ f, fuel = f + 1 := ⟨fuel - 1, by omega⟩
    obtain ⟨old, room, rfl, hold, hroom⟩ := exists_cut hroom
    obtain ⟨out, hout⟩ : ∃ out, xorBlock (aes.decrypt key ⟨chunk, h⟩) block.val block.property = out :=
      ⟨_, rfl⟩
    have houtBlocks : xorBlocks (aes.decrypt key ⟨chunk, h⟩) block = out := hout
    have hload : loadArray AES_BLOCK_LENGTH buf (pos + done.length) = .ok ⟨chunk, h⟩ :=
      loadArray_of_drop_eq_append (a := ⟨chunk, h⟩) hbuf
    have hwrite := writeAt_append done (room ++ post) (out.property.trans hold.symm)
    have hdone : (done ++ out.val).length = done.length + AES_BLOCK_LENGTH := by
      rw [List.length_append, FixedBytes.length_val]
    have hnext := drop_add_of_drop_eq_append chunk hbuf
    rw [h, Nat.add_assoc, ← hdone] at hnext
    have hloop := ih ⟨chunk, h⟩ (done ++ out.val) room fuel hnext (by omega) hleft hroom (by omega)
    rw [hdone, List.append_assoc, List.append_assoc] at hloop
    rw [aesDecryptCbcLoop, if_pos (by omega), hload, Checked.ok_bind, hout, List.append_assoc old,
      hwrite, Checked.ok_bind, hloop, cbcDecrypted_append block ⟨chunk, h⟩, houtBlocks,
      List.append_assoc]

/-- The last byte of what is padded says how long the padding is. -/
theorem readByte_padding (pre input post : Bytes) (pos : ℕ)
    (hpos : pos + 1 = pre.length + (input ++ padding input.length).length) :
    readByte (pre ++ (input ++ padding input.length ++ post)) pos =
        .ok (UInt8.ofNat (padding input.length).length) ∧
      (UInt8.ofNat (padding input.length).length).toNat = (padding input.length).length := by
  have hpad := padding_length_pos input.length
  have hle : AES_BLOCK_LENGTH = 16 := rfl
  rw [List.length_append] at hpos
  constructor
  · rw [readByte_of_lt (by simp only [List.length_append]; omega)]
    congr 1
    rw [List.getElem_append_right (by omega),
      List.getElem_append_left (by rw [List.length_append]; omega),
      List.getElem_append_right (by omega)]
    simp only [padding, List.getElem_replicate, List.length_replicate]
  · rw [UInt8.toNat_ofNat', Nat.mod_eq_of_lt (by omega)]

/-- **CBC decryption undoes CBC encryption.** -/
theorem aesDecryptCbc_aesEncryptCbc (haes : aes.Inverts) {buf rest : Bytes} {pos outputLength : ℕ}
    (iv : FixedBytes AES_BLOCK_LENGTH) (input : Bytes)
    (hbuf : buf.drop pos = aesEncryptCbc aes key iv input ++ rest)
    (houtput : aesEncryptCbcLength input.length ≤ outputLength) :
    aesDecryptCbc aes key iv buf pos (aesEncryptCbcLength input.length) outputLength =
      .ok (some input) := by
  have hpad := padding_length_pos input.length
  obtain ⟨ct, hct⟩ : ∃ ct, aesEncryptCbc aes key iv input = ct := ⟨_, rfl⟩
  have hblocks : AES_BLOCK_LENGTH ∣ ct.length := hct ▸ aesEncryptCbc_blocks iv input
  have hlen : ct.length = (input ++ padding input.length).length := by
    rw [← hct, aesEncryptCbc_length]
  have hcbc : aesEncryptCbcLength input.length = ct.length := by
    rw [hlen, aesEncryptCbcLength_eq, List.length_append]
  have hdecrypted : cbcDecrypted aes key iv ct = input ++ padding input.length := by
    rw [← hct, cbcDecrypted_aesEncryptCbc haes]
  rw [hct] at hbuf
  rw [hcbc] at houtput ⊢
  have hroom : (List.replicate outputLength 0 : Bytes) =
      [] ++ (List.replicate ct.length 0 ++ List.replicate (outputLength - ct.length) 0) := by
    rw [List.nil_append, List.replicate_append_replicate, Nat.add_sub_cancel' houtput]
  have hloop := aesDecryptCbcLoop_eq aes key buf rest pos iv ct [] (List.replicate ct.length 0)
    (List.replicate (outputLength - ct.length) 0) ct.length hbuf (Nat.zero_add _).symm hblocks
    List.length_replicate le_rfl
  rw [← hroom, List.nil_append, List.length_nil, hdecrypted] at hloop
  obtain ⟨hlast, hbyte⟩ := readByte_padding [] input
    (List.replicate (outputLength - ct.length) 0) (ct.length - 1)
    (by rw [hlen, List.length_append, List.length_nil]; omega)
  rw [List.length_append] at hlen
  rw [List.nil_append] at hlast
  rw [aesDecryptCbc, hloop, Checked.ok_bind, if_neg (by omega), hlast, Checked.ok_bind, hbyte,
    if_neg (by omega), hlen, Nat.add_sub_cancel, List.append_assoc, List.take_left]

end Blocks

/-! ## The message authentication code -/

namespace AesSha256

theorem mac_length (hashes : Hashes) (keys : DerivedKeys) (input : Bytes) :
    (mac hashes keys input).length = MAC_LENGTH := by
  rw [mac, List.length_take, FixedBytes.length_val]
  rfl

/-- The cipher text, and the code of a header and of it behind. -/
def sealBody (hashes : Hashes) (aes : Aes256) (kdfInfo key header plaintext : Bytes) : Bytes :=
  let keys := deriveKeys hashes kdfInfo key
  let ciphertext := aesEncryptCbc aes keys.aesKey keys.aesIv plaintext
  ciphertext ++ mac hashes keys (header ++ ciphertext)

end AesSha256

/-- What `aes_sha_256_cipher_encrypt` leaves behind a header. -/
theorem aesSha256_leaves (hashes : Hashes) (aes : Aes256) (kdfInfo : Bytes) :
    (aesSha256 hashes aes kdfInfo).Leaves (fun key header body plaintext =>
      body = AesSha256.sealBody hashes aes kdfInfo key header plaintext) := by
  intro key plaintext pre header room post hroom
  obtain ⟨keys, hkeys⟩ : ∃ keys, AesSha256.deriveKeys hashes kdfInfo key = keys := ⟨_, rfl⟩
  obtain ⟨ct, hct⟩ : ∃ ct, aesEncryptCbc aes keys.aesKey keys.aesIv plaintext = ct := ⟨_, rfl⟩
  have hctLength : ct.length = aesEncryptCbcLength plaintext.length := by
    rw [← hct, aesEncryptCbc_length_eq]
  have hlength : (aesSha256 hashes aes kdfInfo).encryptCiphertextLength plaintext.length =
      ct.length := hctLength.symm
  obtain ⟨tag, htag⟩ : ∃ tag, AesSha256.mac hashes keys (header ++ ct) = tag := ⟨_, rfl⟩
  have htagLength : tag.length = MAC_LENGTH := by rw [← htag, AesSha256.mac_length]
  have hbody : (ct ++ tag).length = room.length := by
    rw [hroom, hlength, List.length_append, htagLength]
    rfl
  have hseal : ct ++ tag = AesSha256.sealBody hashes aes kdfInfo key header plaintext := by
    rw [AesSha256.sealBody, hkeys, hct, htag]
  rw [List.length_append] at hbody
  refine ⟨ct ++ tag, by rw [List.length_append, hbody], ?_, hseal⟩
  -- the cipher text goes over the front of the room, the code over its end
  have hcut : room = room.take ct.length ++ room.drop ct.length := (List.take_append_drop _ _).symm
  have hwrite := writeAt_append (pre ++ header) (room.drop ct.length ++ post)
    (by rw [List.length_take]; omega : ct.length = (room.take ct.length).length)
  have hmac := writeAt_append (pre ++ header ++ ct) post
    (by rw [List.length_drop]; omega : tag.length = (room.drop ct.length).length)
  have hread : readBytes (pre ++ header ++ (ct ++ (room.drop ct.length ++ post)))
      pre.length (header ++ ct).length = .ok (header ++ ct) := by
    have h := readBytes_append pre (header ++ ct) (room.drop ct.length ++ post)
    simpa only [List.append_assoc] using h
  have hposMac : pre.length + (header.length + room.length) - MAC_LENGTH =
      (pre ++ header ++ ct).length := by
    simp only [List.length_append]
    omega
  have hposInput : header.length + room.length - MAC_LENGTH = (header ++ ct).length := by
    rw [List.length_append]
    omega
  have hbuf : pre ++ (header ++ (room ++ post)) =
      pre ++ header ++ (room.take ct.length ++ (room.drop ct.length ++ post)) := by
    rw [← List.append_assoc (room.take _), List.take_append_drop, List.append_assoc]
  have hsame : pre ++ header ++ (ct ++ (room.drop ct.length ++ post)) =
      pre ++ header ++ ct ++ (room.drop ct.length ++ post) := by simp only [List.append_assoc]
  simp only [aesSha256, AesSha256.encrypt, hkeys, hct]
  rw [if_neg (by omega), hbuf, ← List.length_append, hwrite, Checked.ok_bind, hposInput, hread,
    Checked.ok_bind, hposMac, hsame, htag, hmac, Checked.ok_bind]
  simp only [List.append_assoc]

/-- What it leaves opens again. -/
theorem AesSha256.opens_sealBody (hashes : Hashes) {aes : Aes256} (haes : aes.Inverts)
    (kdfInfo key header plaintext : Bytes) :
    (aesSha256 hashes aes kdfInfo).Opens key header
      (sealBody hashes aes kdfInfo key header plaintext) plaintext := by
  obtain ⟨keys, hkeys⟩ : ∃ keys, deriveKeys hashes kdfInfo key = keys := ⟨_, rfl⟩
  obtain ⟨ct, hct⟩ : ∃ ct, aesEncryptCbc aes keys.aesKey keys.aesIv plaintext = ct := ⟨_, rfl⟩
  have hctLength : ct.length = aesEncryptCbcLength plaintext.length := by
    rw [← hct, aesEncryptCbc_length_eq]
  have hlength : (aesSha256 hashes aes kdfInfo).encryptCiphertextLength plaintext.length =
      ct.length := hctLength.symm
  obtain ⟨tag, htag⟩ : ∃ tag, mac hashes keys (header ++ ct) = tag := ⟨_, rfl⟩
  have htagLength : tag.length = MAC_LENGTH := by rw [← htag, mac_length]
  have hseal : sealBody hashes aes kdfInfo key header plaintext = ct ++ tag := by
    rw [sealBody, hkeys, hct, htag]
  rw [hseal]
  rintro buf pre' post' maxPlaintextLength rfl hmax
  rw [hlength] at hmax ⊢
  have hfit : ct.length ≤ maxPlaintextLength := hmax
  have hassoc : pre' ++ (header ++ (ct ++ tag ++ post')) =
      pre' ++ header ++ ct ++ (tag ++ post') := by simp only [List.append_assoc]
  have hinput : header.length + (ct ++ tag).length - MAC_LENGTH = (header ++ ct).length := by
    simp only [List.length_append]
    omega
  have hposMac : pre'.length + (header.length + (ct ++ tag).length) - MAC_LENGTH =
      (pre' ++ header ++ ct).length := by
    simp only [List.length_append]
    omega
  have hread : readBytes (pre' ++ (header ++ (ct ++ tag ++ post')))
      pre'.length (header ++ ct).length = .ok (header ++ ct) :=
    readBytes_of_drop_eq_append (tag ++ post')
      (by simp only [List.append_assoc, List.drop_left]) (by simp only [List.length_append]; omega)
  have hreadMac : readBytes (pre' ++ (header ++ (ct ++ tag ++ post')))
      (pre' ++ header ++ ct).length tag.length = .ok tag :=
    readBytes_of_drop_eq_append post'
      (by rw [hassoc, List.drop_left]) (by simp only [List.length_append]; omega)
  have hdrop : (pre' ++ (header ++ (ct ++ tag ++ post'))).drop (pre'.length + header.length) =
      aesEncryptCbc aes keys.aesKey keys.aesIv plaintext ++ (tag ++ post') := by
    rw [hct, ← List.length_append, ← List.append_assoc, List.drop_left, List.append_assoc]
  have hdecrypt := aesDecryptCbc_aesEncryptCbc haes keys.aesIv plaintext hdrop
    (hctLength ▸ hfit)
  simp only [aesSha256, AesSha256.decrypt, hkeys]
  rw [if_neg (by simp only [List.length_append]; omega), hinput, hread, Checked.ok_bind, hposMac,
    ← htagLength, hreadMac, Checked.ok_bind, htag, if_neg (not_not.mpr rfl), hctLength, hdecrypt]

/-- **`_olm_cipher_aes_sha_256` is lawful.** -/
theorem aesSha256_lawful (hashes : Hashes) {aes : Aes256} (haes : aes.Inverts) (kdfInfo : Bytes) :
    (aesSha256 hashes aes kdfInfo).Lawful := by
  intro key plaintext pre header room post hroom
  obtain ⟨body, hlength, hencrypt, rfl⟩ :=
    aesSha256_leaves hashes aes kdfInfo key plaintext pre header room post hroom
  exact ⟨_, hlength, hencrypt, AesSha256.opens_sealBody hashes haes kdfInfo key header plaintext⟩

/-- **A message opens under no key that authenticates it differently.** -/
theorem AesSha256.decrypt_eq_none_of_mac_ne {hashes : Hashes} {aes : Aes256} {kdfInfo : Bytes}
    {key key' buf plaintext : Bytes}
    {input inputLength ciphertext ciphertextLength maxPlaintextLength : ℕ}
    (hmac : ∀ authenticated, mac hashes (deriveKeys hashes kdfInfo key') authenticated ≠
      mac hashes (deriveKeys hashes kdfInfo key) authenticated)
    (h : decrypt hashes aes kdfInfo key buf input inputLength ciphertext ciphertextLength
      maxPlaintextLength = .ok (some plaintext)) (maxPlaintextLength' : ℕ) :
    decrypt hashes aes kdfInfo key' buf input inputLength ciphertext ciphertextLength
      maxPlaintextLength' = .ok none := by
  unfold decrypt at h ⊢
  split at h
  · cases h
  · rename_i hlength
    obtain ⟨authenticated, hauthenticated, h⟩ := Checked.bind_eq_ok.mp h
    obtain ⟨inputMac, hinputMac, h⟩ := Checked.bind_eq_ok.mp h
    split at h
    · cases h
    · rename_i hverified
      have hne : inputMac ≠ mac hashes (deriveKeys hashes kdfInfo key') authenticated := by
        rw [Decidable.not_not.mp hverified]
        exact (hmac authenticated).symm
      split
      · rfl
      · rw [hauthenticated, Checked.ok_bind, hinputMac, Checked.ok_bind, if_pos hne]

end Olm
