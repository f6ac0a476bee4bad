import Olm.Cipher.InPlace
import Olm.Symbolic
import Mathlib.Data.Set.Finite.List

/-!
# What the decryption takes for padding

`_olm_crypto_aes_decrypt_cbc` looks at one byte of the padding, the last
one, and only asks that it be no larger than the input
(`aesDecryptCbc_decrypted`). So it accepts what does not end in PKCS#7
padding, which its documentation says it refuses: for which cipher texts it
keeps to that is `aesDecryptCbc_unpads_iff`.
-/

namespace Olm

/-- PKCS#7: `p` is between one and the length of a block, and the last `p`
bytes are all `p`. -/
def EndsInPadding (bytes : Bytes) (p : ℕ) : Prop :=
  1 ≤ p ∧ p ≤ AES_BLOCK_LENGTH ∧ List.replicate p (UInt8.ofNat p) <:+ bytes

instance (bytes : Bytes) (p : ℕ) : Decidable (EndsInPadding bytes p) :=
  inferInstanceAs (Decidable (_ ∧ _ ∧ _))

/-- The value of the last byte. -/
def lastByte (bytes : Bytes) : ℕ := (bytes.getLast?.getD 0).toNat

/-- The result is what unpadding the decrypted bytes gives: a plain text
exactly if they end in padding, which is what is missing from it, and then the
cipher text is its encryption. -/
structure Unpads (aes : Aes256) (key : FixedBytes AES256_KEY_LENGTH)
    (iv : FixedBytes AES_BLOCK_LENGTH) (ciphertext : Bytes) (result : Option Bytes) : Prop where
  accepts : result.isSome = true ↔ ∃ p, EndsInPadding (cbcDecrypted aes key iv ciphertext) p
  returns : ∀ plaintext, result = some plaintext →
    plaintext.length + lastByte (cbcDecrypted aes key iv ciphertext) = ciphertext.length
  encrypts : ∀ plaintext, result = some plaintext → aesEncryptCbc aes key iv plaintext = ciphertext

/-! ## Padding -/

theorem readByte_lastByte (pre post : Bytes) {bytes : Bytes} (pos : ℕ)
    (hpos : pos + 1 = pre.length + bytes.length) (hne : bytes ≠ []) :
    ∃ b, readByte (pre ++ (bytes ++ post)) pos = .ok b ∧ b.toNat = lastByte bytes := by
  have hlength := List.length_pos_iff.mpr hne
  refine ⟨bytes.getLast hne, ?_, ?_⟩
  · rw [readByte_of_lt (by simp only [List.length_append]; omega), List.getElem_append_right (by omega),
      List.getElem_append_left (by omega), List.getLast_eq_getElem]
    congr 2
    omega
  · rw [lastByte, List.getLast?_eq_getLast_of_ne_nil hne, Option.getD_some]

/-- The last byte says how much padding there is. -/
theorem EndsInPadding.lastByte_eq {bytes : Bytes} {p : ℕ} (h : EndsInPadding bytes p) :
    lastByte bytes = p := by
  obtain ⟨hpos, hle, front, rfl⟩ := h
  have hblock : AES_BLOCK_LENGTH = 16 := rfl
  obtain ⟨q, rfl⟩ : ∃ q, p = q + 1 := ⟨p - 1, by omega⟩
  rw [List.replicate_succ', ← List.append_assoc, lastByte, List.getLast?_concat, Option.getD_some,
    UInt8.toNat_ofNat', Nat.mod_eq_of_lt (by omega)]

theorem EndsInPadding.le_length {bytes : Bytes} {p : ℕ} (h : EndsInPadding bytes p) :
    p ≤ bytes.length := by
  have hle := h.2.2.length_le
  rwa [List.length_replicate] at hle

/-- What is in front of the padding of whole blocks is what it pads. -/
theorem EndsInPadding.eq_padding {bytes : Bytes} {p : ℕ} (h : EndsInPadding bytes p)
    (hblocks : AES_BLOCK_LENGTH ∣ bytes.length) :
    bytes = bytes.take (bytes.length - p) ++ padding (bytes.take (bytes.length - p)).length := by
  obtain ⟨hpos, hle, front, rfl⟩ := h
  have hlength : (front ++ List.replicate p (UInt8.ofNat p)).length - p = front.length := by
    rw [List.length_append, List.length_replicate, Nat.add_sub_cancel]
  have hfill : AES_BLOCK_LENGTH - front.length % AES_BLOCK_LENGTH = p := by
    rw [List.length_append, List.length_replicate] at hblocks
    have hblock : AES_BLOCK_LENGTH = 16 := rfl
    rw [hblock] at hblocks hle ⊢
    omega
  rw [hlength, List.take_left, padding, hfill]

/-! ## A cipher text is fixed by what it decrypts to -/

section Injective

variable {aes : Aes256} {key : FixedBytes AES256_KEY_LENGTH}

/-- On blocks, what decryption undoes undoes it. -/
theorem Aes256.Inverts.decrypt_injective (haes : aes.Inverts) :
    Function.Injective (aes.decrypt key) := by
  have hbytes : Finite UInt8 := Finite.of_injective UInt8.toFin fun _ _ => UInt8.toFin_inj.mp
  have hblocks : Finite (FixedBytes AES_BLOCK_LENGTH) := List.finite_length_eq UInt8 AES_BLOCK_LENGTH
  exact Finite.injective_iff_surjective.mpr (Function.LeftInverse.surjective (haes key))

theorem xorBlocks_injective (block : FixedBytes AES_BLOCK_LENGTH) :
    Function.Injective (fun input => xorBlocks input block) := by
  intro a b h
  have hcomm : ∀ c : FixedBytes AES_BLOCK_LENGTH,
      (xorBlocks c block).val.zipWith (· ^^^ ·) block.val = c.val := by
    intro c
    have hswap : (xorBlocks c block).val = block.val.zipWith (· ^^^ ·) c.val :=
      List.zipWith_comm_of_comm fun x y => UInt8.xor_comm x y
    rw [hswap]
    exact zipWith_xor_cancel (block.property.trans c.property.symm)
  dsimp only at h
  apply Subtype.ext
  rw [← hcomm a, ← hcomm b, h]

variable (key) in
/-- **Two cipher texts of whole blocks decrypt to different bytes.** -/
theorem cbcDecrypted_injective (haes : aes.Inverts) (block : FixedBytes AES_BLOCK_LENGTH)
    {ciphertext ciphertext' : Bytes} (hblocks : AES_BLOCK_LENGTH ∣ ciphertext.length)
    (hlength : ciphertext'.length = ciphertext.length)
    (h : cbcDecrypted aes key block ciphertext = cbcDecrypted aes key block ciphertext') :
    ciphertext = ciphertext' := by
  induction ciphertext using block_induction generalizing block ciphertext' with
  | last input hlt =>
    rw [eq_nil_of_blocks hlt hblocks] at hlength ⊢
    exact (List.length_eq_zero_iff.mp hlength).symm
  | block chunk rest hchunk ih =>
    have hleft := blocks_of_append hchunk hblocks
    rw [List.length_append, hchunk] at hlength
    obtain ⟨chunk', rest', rfl, hchunk', hrest⟩ := exists_cut hlength
    rw [cbcDecrypted_append block ⟨chunk, hchunk⟩, cbcDecrypted_append block ⟨chunk', hchunk'⟩] at h
    obtain ⟨hhead, htail⟩ := List.append_inj h (by rw [FixedBytes.length_val, FixedBytes.length_val])
    have hsame := haes.decrypt_injective (xorBlocks_injective block (Subtype.ext hhead))
    cases hsame
    rw [ih ⟨chunk, hchunk⟩ hleft hrest htail]

end Injective

/-! ## What is accepted -/

section Accept

variable {aes : Aes256} (key : FixedBytes AES256_KEY_LENGTH) (iv : FixedBytes AES_BLOCK_LENGTH)

/-- The result, by the last byte alone. -/
def unpadded (decrypted : Bytes) : Option Bytes :=
  if decrypted.length < lastByte decrypted then none
  else some (decrypted.take (decrypted.length - lastByte decrypted))

variable (aes) in
/-- **The decryption looks at one byte**, into a buffer of its own and over its
input. -/
theorem aesDecryptCbc_decrypted (pre post : Bytes) {ciphertext : Bytes} {outputLength : ℕ}
    (hblocks : AES_BLOCK_LENGTH ∣ ciphertext.length) (hne : ciphertext ≠ [])
    (houtput : ciphertext.length ≤ outputLength) :
    aesDecryptCbc aes key iv (pre ++ (ciphertext ++ post)) pre.length ciphertext.length
        outputLength =
      .ok (unpadded (cbcDecrypted aes key iv ciphertext)) ∧
    aesDecryptCbcWithin aes key iv (pre ++ (ciphertext ++ post)) pre.length ciphertext.length
        pre.length =
      .ok (pre ++ (cbcDecrypted aes key iv ciphertext ++ post),
        (unpadded (cbcDecrypted aes key iv ciphertext)).map List.length) := by
  have hpos := List.length_pos_iff.mpr hne
  have hlength := cbcDecrypted_length aes key iv ciphertext hblocks
  obtain ⟨decrypted, hdecrypted⟩ : ∃ d, cbcDecrypted aes key iv ciphertext = d := ⟨_, rfl⟩
  rw [hdecrypted] at hlength ⊢
  have hneDecrypted : decrypted ≠ [] := List.length_pos_iff.mp (by omega)
  constructor
  · have hroom : (List.replicate outputLength 0 : Bytes) =
        [] ++ (List.replicate ciphertext.length 0 ++
          List.replicate (outputLength - ciphertext.length) 0) := by
      rw [List.nil_append, List.replicate_append_replicate, Nat.add_sub_cancel' houtput]
    have hloop := aesDecryptCbcLoop_eq aes key (pre ++ (ciphertext ++ post)) post pre.length iv
      ciphertext [] (List.replicate ciphertext.length 0)
      (List.replicate (outputLength - ciphertext.length) 0) ciphertext.length List.drop_left
      (Nat.zero_add _).symm hblocks List.length_replicate le_rfl
    rw [← hroom, List.nil_append, List.length_nil, hdecrypted] at hloop
    obtain ⟨b, hread, hb⟩ := readByte_lastByte []
      (List.replicate (outputLength - ciphertext.length) 0) (ciphertext.length - 1)
      (by rw [List.length_nil]; omega) hneDecrypted
    rw [List.nil_append] at hread
    rw [aesDecryptCbc, hloop, Checked.ok_bind, if_neg (by omega), hread, Checked.ok_bind, hb, unpadded,
      hlength, List.take_append_of_le_length (by omega)]
    split <;> rfl
  · have hloop := aesDecryptCbcWithinLoop_eq aes key pre post iv ciphertext [] ciphertext.length
      (Nat.zero_add _).symm hblocks le_rfl
    rw [hdecrypted, List.nil_append, List.nil_append, List.length_nil] at hloop
    obtain ⟨b, hread, hb⟩ := readByte_lastByte pre post (pre.length + (ciphertext.length - 1))
      (by omega : _ = pre.length + decrypted.length) hneDecrypted
    rw [aesDecryptCbcWithin, hloop, Checked.ok_bind, if_neg (by omega), hread, Checked.ok_bind, hb,
      unpadded, hlength]
    split
    · rfl
    · rw [Option.map_some, List.length_take_of_le (by omega)]

/-- **The decryption unpads** exactly those cipher texts that end in padding, or
whose last byte is larger than their length. -/
theorem aesDecryptCbc_unpads_iff (haes : aes.Inverts) (pre post : Bytes) {ciphertext : Bytes}
    {outputLength : ℕ} (hblocks : AES_BLOCK_LENGTH ∣ ciphertext.length) (hne : ciphertext ≠ [])
    (houtput : ciphertext.length ≤ outputLength) :
    ∃ result,
      aesDecryptCbc aes key iv (pre ++ (ciphertext ++ post)) pre.length ciphertext.length
        outputLength = .ok result ∧
      aesDecryptCbcWithin aes key iv (pre ++ (ciphertext ++ post)) pre.length ciphertext.length
        pre.length =
        .ok (pre ++ (cbcDecrypted aes key iv ciphertext ++ post), result.map List.length) ∧
      (Unpads aes key iv ciphertext result ↔
        ciphertext.length < lastByte (cbcDecrypted aes key iv ciphertext) ∨
          ∃ p, EndsInPadding (cbcDecrypted aes key iv ciphertext) p) := by
  obtain ⟨hapart, hwithin⟩ := aesDecryptCbc_decrypted aes key iv pre post hblocks hne houtput
  refine ⟨_, hapart, hwithin, ?_⟩
  have hlength := cbcDecrypted_length aes key iv ciphertext hblocks
  obtain ⟨decrypted, hdecrypted⟩ : ∃ d, cbcDecrypted aes key iv ciphertext = d := ⟨_, rfl⟩
  rw [hdecrypted] at hlength ⊢
  rw [← hlength] at hblocks ⊢
  constructor
  · intro h
    by_cases hlarge : decrypted.length < lastByte decrypted
    · exact Or.inl hlarge
    · have haccepts := h.accepts
      rw [hdecrypted, unpadded, if_neg hlarge] at haccepts
      exact Or.inr (haccepts.mp rfl)
  · intro h
    by_cases hlarge : decrypted.length < lastByte decrypted
    · -- it is refused, and a byte of padding would not be that large
      have hpadding : ¬ ∃ p, EndsInPadding decrypted p := by
        rintro ⟨p, hp⟩
        have hle := hp.le_length
        rw [hp.lastByte_eq] at hlarge
        omega
      rw [unpadded, if_pos hlarge]
      refine ⟨?_, nofun, nofun⟩
      rw [hdecrypted]
      exact ⟨fun hsome => absurd hsome (by decide), fun hp => absurd hp hpadding⟩
    · obtain ⟨p, hp⟩ := h.resolve_left hlarge
      have hle := hp.le_length
      rw [unpadded, if_neg hlarge, hp.lastByte_eq]
      refine ⟨?_, ?_, ?_⟩
      · rw [hdecrypted]
        exact ⟨fun _ => ⟨p, hp⟩, fun _ => rfl⟩
      · rintro plaintext ⟨rfl⟩
        rw [hdecrypted, hp.lastByte_eq, List.length_take_of_le (by omega), ← hlength]
        omega
      · rintro plaintext ⟨rfl⟩
        -- both decrypt to the same
        have hpadded := hp.eq_padding hblocks
        have hsame : ciphertext.length = (aesEncryptCbc aes key iv
            (decrypted.take (decrypted.length - p))).length := by
          rw [aesEncryptCbc_length, ← hpadded, hlength]
        refine cbcDecrypted_injective key haes iv (aesEncryptCbc_blocks iv _) hsame ?_
        rw [cbcDecrypted_aesEncryptCbc haes, ← hpadded, hdecrypted]

/-- So with AES the identity, where a block ends in padding. -/
theorem aesDecryptCbc_unpads_iff_identity :
    ∃ result,
      aesDecryptCbc .identity (FixedBytes.zero _) (FixedBytes.zero _)
        ([] ++ (List.replicate 16 16 ++ [])) 0 16 16 = .ok result ∧
      aesDecryptCbcWithin .identity (FixedBytes.zero _) (FixedBytes.zero _)
        ([] ++ (List.replicate 16 16 ++ [])) 0 16 0 =
        .ok ([] ++ (cbcDecrypted .identity (FixedBytes.zero _) (FixedBytes.zero _)
          (List.replicate 16 16) ++ []), result.map List.length) ∧
      (Unpads .identity (FixedBytes.zero _) (FixedBytes.zero _) (List.replicate 16 16) result ↔
        16 < lastByte (cbcDecrypted .identity (FixedBytes.zero _) (FixedBytes.zero _)
            (List.replicate 16 16)) ∨
          ∃ p, EndsInPadding (cbcDecrypted .identity (FixedBytes.zero _) (FixedBytes.zero _)
            (List.replicate 16 16)) p) :=
  aesDecryptCbc_unpads_iff (FixedBytes.zero _) (FixedBytes.zero _) Aes256.identity_inverts [] []
    (by decide) (by decide) (le_refl 16)

/-- **A block that ends in a zero is accepted**, and all of it is returned. -/
theorem not_unpads :
    ¬ ∀ (aes : Aes256) (key : FixedBytes AES256_KEY_LENGTH) (iv : FixedBytes AES_BLOCK_LENGTH)
      (ciphertext : Bytes), aes.Inverts → AES_BLOCK_LENGTH ∣ ciphertext.length → ciphertext ≠ [] →
      ∀ result, aesDecryptCbc aes key iv ciphertext 0 ciphertext.length ciphertext.length =
        .ok result → Unpads aes key iv ciphertext result := by
  intro h
  have hblock : cbcDecrypted .identity (FixedBytes.zero _) (FixedBytes.zero _)
      (List.replicate 16 0) = List.replicate 16 0 := by
    have happend : cbcDecrypted .identity (FixedBytes.zero _) (FixedBytes.zero _)
        ((FixedBytes.zero AES_BLOCK_LENGTH).val ++ []) = _ := cbcDecrypted_append _ _ []
    rw [cbcDecrypted_nil] at happend
    exact happend
  obtain ⟨hdecrypt, -⟩ := aesDecryptCbc_decrypted .identity (FixedBytes.zero _) (FixedBytes.zero _)
    [] [] (by decide : AES_BLOCK_LENGTH ∣ (List.replicate 16 0 : Bytes).length) (by decide) le_rfl
  have haccepts := (h .identity (FixedBytes.zero _) (FixedBytes.zero _) (List.replicate 16 0)
    Aes256.identity_inverts (by decide) (by decide) _ hdecrypt).accepts
  rw [hblock] at haccepts
  obtain ⟨p, hp⟩ := haccepts.mp (by decide)
  -- the last byte is the zero, and no padding is empty
  have hlast : 0 = p := hp.lastByte_eq
  have hpos := hp.1
  omega

end Accept

end Olm
