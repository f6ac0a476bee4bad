import Olm.Base64.Layouts
import Olm.PickleEncoding
import Olm.Symbolic

/-!
# What the reader of encrypted pickles returns

`_olm_enc_input` subtracts the length of the code from that of the decoded
text before anything is checked. The subtraction may wrap, but then the
cipher refuses the text. What the cipher does not look at is the length of
the cipher text: of one with three bytes at most, behind which the text has
no room for a block, it decrypts a block nevertheless, or, of none, takes
the byte before the buffer for the padding.
-/

namespace Olm

open Base64

/-! ## Decrypting any number of bytes -/

section

variable (aes : Aes256) (key : FixedBytes AES256_KEY_LENGTH)

/-- Where the buffer has room for each block that is begun. -/
theorem aesDecryptCbcWithinLoop_of_room {inputLength fuel i : ℕ} {buf : Bytes}
    (block : FixedBytes AES_BLOCK_LENGTH) (hi : AES_BLOCK_LENGTH ∣ i)
    (hfuel : inputLength ≤ i + fuel)
    (hroom : ∀ j < inputLength, AES_BLOCK_LENGTH ∣ j → j + AES_BLOCK_LENGTH ≤ buf.length) :
    ∃ buf', aesDecryptCbcWithinLoop aes key 0 inputLength 0 fuel i block buf = .ok buf' ∧
      buf'.length = buf.length := by
  induction fuel generalizing i block buf with
  | zero => exact ⟨buf, if_neg (by omega), rfl⟩
  | succ fuel ih =>
    rw [aesDecryptCbcWithinLoop]
    by_cases hlt : i < inputLength
    · have hblock := hroom i hlt hi
      obtain ⟨block2, hload, -⟩ := loadArray_of_le (show 0 + i + AES_BLOCK_LENGTH ≤ buf.length by omega)
      obtain ⟨out, hout⟩ : ∃ out, xorBlocks (aes.decrypt key block2) block = out := ⟨_, rfl⟩
      have hfit : 0 + i + out.val.length ≤ buf.length := by
        rw [FixedBytes.length_val]
        omega
      have hwrite : writeAt buf (0 + i) out.val =
          .ok (buf.take (0 + i) ++ out.val ++ buf.drop (0 + i + out.val.length)) := if_pos hfit
      rw [if_pos hlt, hload, Checked.ok_bind, hout, hwrite, Checked.ok_bind]
      have hlength : (buf.take (0 + i) ++ out.val ++ buf.drop (0 + i + out.val.length)).length =
          buf.length := by
        simp only [List.length_append, List.length_take, List.length_drop, FixedBytes.length_val]
        omega
      rw [← hlength]
      refine ih block2 ((Nat.dvd_add_right hi).mpr (Nat.dvd_refl _)) ?_ ?_
      · have hpos : 0 < AES_BLOCK_LENGTH := by decide
        omega
      · intro j hj hdvd
        rw [hlength]
        exact hroom j hj hdvd
    · exact ⟨buf, if_neg hlt, rfl⟩

/-- No more comes out than went in. -/
theorem aesDecryptCbcWithin_of_room {inputLength : ℕ} {buf : Bytes}
    (iv : FixedBytes AES_BLOCK_LENGTH) (hpos : 0 < inputLength) (hle : inputLength ≤ buf.length)
    (hroom : ∀ j < inputLength, AES_BLOCK_LENGTH ∣ j → j + AES_BLOCK_LENGTH ≤ buf.length) :
    ∃ buf' result, aesDecryptCbcWithin aes key iv buf 0 inputLength 0 = .ok (buf', result) ∧
      ∀ length, result = some length → length ≤ inputLength := by
  obtain ⟨buf', hloop, hlength⟩ := aesDecryptCbcWithinLoop_of_room aes key iv (Nat.dvd_zero _)
    (Nat.le_of_eq (Nat.zero_add inputLength).symm) hroom
  have hlast : 0 + (inputLength - 1) < buf'.length := by omega
  unfold aesDecryptCbcWithin
  rw [hloop, Checked.ok_bind, if_neg (Nat.ne_of_gt hpos), readByte_of_lt hlast, Checked.ok_bind]
  split
  · refine ⟨buf', none, rfl, ?_⟩
    rintro length ⟨⟩
  · refine ⟨buf', _, rfl, ?_⟩
    rintro length ⟨⟩
    exact Nat.sub_le _ _

/-- Where there is no cipher text, or no room for its first block. -/
theorem aesDecryptCbcWithin_of_short {inputLength : ℕ} {buf : Bytes}
    (iv : FixedBytes AES_BLOCK_LENGTH)
    (hshort : inputLength = 0 ∨ buf.length < AES_BLOCK_LENGTH) :
    aesDecryptCbcWithin aes key iv buf 0 inputLength 0 = .error .outOfBounds := by
  unfold aesDecryptCbcWithin
  cases inputLength with
  | zero => rfl
  | succ n =>
    have hlt : buf.length < 0 + 0 + AES_BLOCK_LENGTH := by
      rcases hshort with hzero | hlt
      · cases hzero
      · omega
    rw [aesDecryptCbcWithinLoop, if_pos (Nat.succ_pos n), loadArray_of_lt hlt (by decide)]
    rfl

end

/-! ## The reader -/

variable (hashes : Hashes)

/-- What comes last of the decoded text is the code of what is before it. -/
def PickleVerifies (key decoded : Bytes) : Prop :=
  decoded.drop (decoded.length - MAC_LENGTH) =
    AesSha256.mac hashes (AesSha256.deriveKeys hashes PICKLE_KDF_INFO key)
      (decoded.take (decoded.length - MAC_LENGTH))

instance (key decoded : Bytes) : Decidable (PickleVerifies hashes key decoded) :=
  inferInstanceAs (Decidable (decoded.drop (decoded.length - MAC_LENGTH) =
    AesSha256.mac hashes (AesSha256.deriveKeys hashes PICKLE_KDF_INFO key)
      (decoded.take (decoded.length - MAC_LENGTH))))

/-- **What a caller relies on**: there is an error, or the pickle that is
found is no longer than what was decoded, less the code. -/
def EncInputBounded (aes : Aes256) (key input : Bytes) : Prop :=
  ∃ buf result, encInput hashes aes key input = .ok (buf, result) ∧
    ∀ rawLength, result = .ok rawLength →
      ∃ encLength, decodeBase64Length input.length = some encLength ∧
        rawLength + MAC_LENGTH ≤ encLength

/-- A code that verifies, of a cipher text of three bytes at most. -/
def ShortCiphertext (key input : Bytes) : Prop :=
  ∃ encLength, decodeBase64Length input.length = some encLength ∧ MAC_LENGTH ≤ encLength ∧
    encLength ≤ MAC_LENGTH + 3 ∧ PickleVerifies hashes key (decode input)

variable {hashes} {aes : Aes256} {key input : Bytes} {encLength : ℕ}

/-- What is left once the text is decoded: the code, and the cipher text. -/
theorem encInput_eq (hashes : Hashes) (aes : Aes256) (key : Bytes)
    (hsome : decodeBase64Length input.length = some encLength)
    (hcode : MAC_LENGTH ≤ encLength) (hsize : input.length < 2 ^ SIZE_WIDTH) :
    ∃ buf : Bytes, buf.length = input.length ∧
      encInput hashes aes key input =
        if PickleVerifies hashes key (decode input) then do
          let keys := AesSha256.deriveKeys hashes PICKLE_KDF_INFO key
          let out ← aesDecryptCbcWithin aes keys.aesKey keys.aesIv buf 0 (encLength - MAC_LENGTH) 0
          .ok (out.1, out.2.elim (.error .BAD_ACCOUNT_KEY) .ok)
        else .ok (buf, .error .BAD_ACCOUNT_KEY) := by
  have hdecoded := length_decode hsome
  have hle := decodeBase64Length_le hsome
  have hdecode := (decodesAlike_decode hsome).decodesWithin [] []
  simp only [List.length_nil, List.nil_append, List.append_nil] at hdecode
  obtain ⟨buf, hbuf⟩ : ∃ buf, decode input ++ input.drop (decode input).length = buf := ⟨_, rfl⟩
  rw [hbuf, hdecoded] at hdecode
  have hlength : buf.length = input.length := by
    rw [← hbuf, List.length_append, List.length_drop]
    omega
  have hraw : (encLength + 2 ^ SIZE_WIDTH - MAC_LENGTH) % 2 ^ SIZE_WIDTH =
      encLength - MAC_LENGTH := by
    rw [Nat.sub_add_comm hcode, Nat.add_mod_right, Nat.mod_eq_of_lt (by omega)]
  have hauthenticated : readBytes buf 0 (encLength - MAC_LENGTH) =
      .ok ((decode input).take (encLength - MAC_LENGTH)) := by
    rw [readBytes, if_pos (by omega), List.drop_zero, ← hbuf,
      List.take_append_of_le_length (by omega)]
  have hinputMac : readBytes buf (0 + encLength - MAC_LENGTH) MAC_LENGTH =
      .ok ((decode input).drop (encLength - MAC_LENGTH)) := by
    rw [Nat.zero_add, readBytes, if_pos (by omega), ← hbuf,
      List.drop_append_of_le_length (by omega),
      List.take_left' (by rw [List.length_drop]; omega)]
  have hverifies : PickleVerifies hashes key (decode input) ↔
      (decode input).drop (encLength - MAC_LENGTH) =
        AesSha256.mac hashes (AesSha256.deriveKeys hashes PICKLE_KDF_INFO key)
          ((decode input).take (encLength - MAC_LENGTH)) := by
    rw [PickleVerifies, hdecoded]
  have hguard : ¬(encLength - MAC_LENGTH < encLength - MAC_LENGTH ∨ encLength < MAC_LENGTH) := by
    omega
  refine ⟨buf, hlength, ?_⟩
  unfold encInput
  rw [hsome]
  dsimp only
  rw [hraw, hdecode, Checked.ok_bind]
  dsimp only
  rw [AesSha256.decryptWithin, if_neg hguard]
  dsimp only
  rw [hauthenticated, Checked.ok_bind, hinputMac, Checked.ok_bind]
  by_cases hcodes : PickleVerifies hashes key (decode input)
  · rw [if_pos hcodes, if_neg (not_not.mpr (hverifies.mp hcodes))]
    refine bind_congr fun out => ?_
    obtain ⟨input, _ | result⟩ := out
    · rfl
    · rfl
  · rw [if_neg hcodes, if_pos (fun heq => hcodes (hverifies.mpr heq))]
    rfl

/-- A text of fewer bytes than the code is refused, although the length wraps
around. -/
theorem encInput_of_lt (hashes : Hashes) (aes : Aes256) (key : Bytes)
    (hsome : decodeBase64Length input.length = some encLength)
    (hlt : encLength < MAC_LENGTH) :
    ∃ buf, encInput hashes aes key input = .ok (buf, .error .BAD_ACCOUNT_KEY) := by
  have hdecode := (decodesAlike_decode hsome).decodesWithin [] []
  simp only [List.length_nil, List.nil_append, List.append_nil] at hdecode
  refine ⟨decode input ++ input.drop (decode input).length, ?_⟩
  unfold encInput
  rw [hsome]
  dsimp only
  rw [hdecode, Checked.ok_bind]
  dsimp only
  rw [AesSha256.decryptWithin, if_pos (.inr hlt)]
  rfl

/-- Three bytes of cipher text, and the code, are written with fewer characters
than a block has bytes. -/
theorem lt_block_of_decodeBase64Length {n : ℕ} (hsome : decodeBase64Length n = some encLength)
    (hshort : encLength ≤ MAC_LENGTH + 3) : n < AES_BLOCK_LENGTH := by
  unfold MAC_LENGTH at hshort
  unfold AES_BLOCK_LENGTH
  unfold decodeBase64Length at hsome
  split at hsome
  · cases hsome
  · simp only [Option.some.injEq] at hsome
    omega

/-- With more of it there is room for each block that is begun. -/
theorem block_le_of_decodeBase64Length {n : ℕ} (hsome : decodeBase64Length n = some encLength)
    (hlong : MAC_LENGTH + 3 < encLength) :
    ∀ j < encLength - MAC_LENGTH, AES_BLOCK_LENGTH ∣ j → j + AES_BLOCK_LENGTH ≤ n := by
  rintro j hlt ⟨m, rfl⟩
  unfold MAC_LENGTH at hlong hlt
  unfold AES_BLOCK_LENGTH at hlt ⊢
  unfold decodeBase64Length at hsome
  split at hsome
  · cases hsome
  · simp only [Option.some.injEq] at hsome
    omega

/-- An error is bounded. -/
theorem encInputBounded_of_error {buf : Bytes} {code : OlmErrorCode}
    (h : encInput hashes aes key input = .ok (buf, .error code)) :
    EncInputBounded hashes aes key input := by
  refine ⟨buf, .error code, h, ?_⟩
  rintro rawLength ⟨⟩

/-- **When the reader is bounded**: always, but for a code that verifies of
less cipher text than its caller has room for. -/
theorem encInputBounded_iff (hsize : input.length < 2 ^ SIZE_WIDTH) :
    EncInputBounded hashes aes key input ↔ ¬ShortCiphertext hashes key input := by
  cases hsome : decodeBase64Length input.length with
  | none =>
    have hrun : encInput hashes aes key input = .ok (input, .error .INVALID_BASE64) := by
      rw [encInput, hsome]
    refine iff_of_true (encInputBounded_of_error hrun) ?_
    rintro ⟨encLength, hsome', -⟩
    cases hsome.symm.trans hsome'
  | some encLength =>
    rcases Nat.lt_or_ge encLength MAC_LENGTH with hlt | hcode
    · obtain ⟨buf, hrun⟩ := encInput_of_lt hashes aes key hsome hlt
      refine iff_of_true (encInputBounded_of_error hrun) ?_
      rintro ⟨encLength', hsome', hge, -⟩
      obtain rfl := Option.some.inj (hsome.symm.trans hsome')
      omega
    · obtain ⟨buf, hlength, hrun⟩ := encInput_eq hashes aes key hsome hcode hsize
      have hshort : ShortCiphertext hashes key input ↔
          encLength ≤ MAC_LENGTH + 3 ∧ PickleVerifies hashes key (decode input) := by
        constructor
        · rintro ⟨encLength', hsome', -, hle, hverifies⟩
          obtain rfl := Option.some.inj (hsome.symm.trans hsome')
          exact ⟨hle, hverifies⟩
        · rintro ⟨hle, hverifies⟩
          exact ⟨encLength, hsome, hcode, hle, hverifies⟩
      rw [hshort]
      by_cases hverifies : PickleVerifies hashes key (decode input)
      · rw [EncInputBounded, hrun, if_pos hverifies]
        dsimp only
        rcases Nat.lt_or_ge (MAC_LENGTH + 3) encLength with hlong | hle
        · have hdecoded := decodeBase64Length_le hsome
          obtain ⟨buf', result, hdecrypt, hbound⟩ := aesDecryptCbcWithin_of_room aes
            (AesSha256.deriveKeys hashes PICKLE_KDF_INFO key).aesKey
            (AesSha256.deriveKeys hashes PICKLE_KDF_INFO key).aesIv
            (show 0 < encLength - MAC_LENGTH by omega) (by omega)
            (hlength ▸ block_le_of_decodeBase64Length hsome hlong)
          refine iff_of_true ?_ fun h => absurd h.1 (Nat.not_le_of_lt hlong)
          rw [hdecrypt, Checked.ok_bind]
          cases result with
          | none =>
            refine ⟨buf', _, rfl, ?_⟩
            rintro rawLength ⟨⟩
          | some length =>
            refine ⟨buf', _, rfl, ?_⟩
            rintro rawLength ⟨⟩
            have hle := hbound length rfl
            exact ⟨encLength, hsome, by omega⟩
        · have hblock : encLength - MAC_LENGTH = 0 ∨ buf.length < AES_BLOCK_LENGTH :=
            .inr (hlength.trans_lt (lt_block_of_decodeBase64Length hsome hle))
          refine iff_of_false ?_ fun h => h ⟨hle, hverifies⟩
          rintro ⟨buf', result, hfault, -⟩
          rw [aesDecryptCbcWithin_of_short aes _ _ hblock] at hfault
          cases hfault
      · rw [if_neg hverifies] at hrun
        exact iff_of_true (encInputBounded_of_error hrun) fun h => hverifies h.2

/-- **Encrypted pickles**: what is written at its place in the room for it is
encoded to as many bytes as the length says, and found again with the same
key; and what the reader returns for any other text is an error or bounded,
unless the text is of a short cipher text whose code verifies. -/
theorem encPickle_readsBack (hashes : Hashes) {aes : Aes256} (haes : aes.Inverts) (key : Bytes) :
    (∀ raw buf : Bytes, encOutputLength raw.length ≤ buf.length → buf.length < 2 ^ SIZE_WIDTH →
      ∃ text : Bytes, text.length = encOutputLength raw.length ∧
        (writeAt buf (encOutputPos raw.length) raw >>= fun buf =>
            encOutput hashes aes key buf raw.length) =
          .ok (text ++ buf.drop text.length, text.length) ∧
        ∃ rest, encInput hashes aes key text = .ok (raw ++ rest, .ok raw.length)) ∧
    ∀ input : Bytes, input.length < 2 ^ SIZE_WIDTH →
      (EncInputBounded hashes aes key input ↔ ¬ShortCiphertext hashes key input) := by
  refine ⟨?_, fun input => encInputBounded_iff⟩
  intro raw buf hroom hsize
  have hfit : aesEncryptCbcLength raw.length + MAC_LENGTH ≤ encOutputLength raw.length := by
    unfold encOutputLength encodeBase64Length
    omega
  have hlength := encText_length hashes aes key raw
  refine ⟨encText hashes aes key raw, hlength, ?_, encInput_encText hashes haes key raw (by omega)⟩
  rw [hlength]
  exact encOutput_eq hashes aes key raw hroom

theorem encPickle_readsBack_identity :
    (∃ text : Bytes, text.length = 32 ∧
      (writeAt (List.replicate 32 0) 8 [5] >>= fun buf =>
          encOutput .zero .identity [1] buf 1) = .ok (text, 32) ∧
      ∃ rest, encInput .zero .identity [1] text = .ok ([5] ++ rest, .ok 1)) ∧
    (EncInputBounded .zero .identity [1] (List.replicate 12 0x41) ↔
      ¬ShortCiphertext .zero [1] (List.replicate 12 0x41)) := by
  obtain ⟨hwrites, hreads⟩ := encPickle_readsBack .zero Aes256.identity_inverts [1]
  obtain ⟨text, hlength, hwrite, hread⟩ := hwrites [5] (List.replicate 32 0) (by decide) (by decide)
  have hlength' : text.length = 32 := hlength
  rw [hlength', List.drop_eq_nil_of_le (by decide), List.append_nil] at hwrite
  exact ⟨⟨text, hlength', hwrite, hread⟩, hreads _ (by decide)⟩

/-- The code of no cipher text, which is zeros here. -/
theorem not_encInputBounded : ¬EncInputBounded .zero .identity [] (List.replicate 11 0x41) :=
  fun h => (encInputBounded_iff (by decide)).mp h ⟨8, rfl, by decide, by decide, by decide⟩

end Olm
