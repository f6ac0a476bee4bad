import Mathlib.Data.Fintype.Basic
import Mathlib.Tactic.FinCases
import Olm.Cipher.RoundTrip
import Olm.Common.Galois
import Olm.CryptoAlgorithms.Aes

/-!
# Decryption undoes encryption

The tables of `lib/crypto-algorithms/aes.c` are those of the standard: the
entries of `gf_mul` are products in the field with 256 elements
(`gfMul_eq_times`), and an entry of the S-box is an affine map of an inverse
in it (`sbox_eq_affine`). So what `InvMixColumns` does after `MixColumns`
is multiplication by a product of polynomials, which is 1, and each step of
`aes_decrypt` undoes the one of `aes_encrypt` that has its place from the
end, under whatever words the key schedule holds.
-/

namespace Olm

namespace Aes

open Galois

/-! ## The tables -/

/-- `x ^ 8 + x ^ 4 + x ^ 3 + x + 1`, without its first term. -/
def polynomial : BitVec 8 := 0x1b

/-- The polynomials that the columns of `gf_mul` are for: 2, 3, 9, 11, 13
and 14. -/
def coefficients : ℕ → List Bool
  | 0 => [false, true]
  | 1 => [true, true]
  | 2 => [true, false, false, true]
  | 3 => [true, true, false, true]
  | 4 => [true, false, true, true]
  | _ => [false, true, true, true]

/-- The product with the polynomial of a column. -/
def times (column : ℕ) (b : BitVec 8) : BitVec 8 := mulBy polynomial (coefficients column) b

/-- The bits of a byte, the lowest first. -/
def bits (byte : UInt8) : List Bool := (List.range 8).map byte.toBitVec.getLsbD

/-- The affine map of the S-box. -/
def affine (b : BitVec 8) : BitVec 8 :=
  b ^^^ b.rotateLeft 1 ^^^ b.rotateLeft 2 ^^^ b.rotateLeft 3 ^^^ b.rotateLeft 4 ^^^ 0x63

/-- Its inverse. -/
def affineInv (b : BitVec 8) : BitVec 8 :=
  b.rotateLeft 1 ^^^ b.rotateLeft 3 ^^^ b.rotateLeft 6 ^^^ 0x05

/-- What holds of each of the 256 bytes holds of all. -/
theorem forall_byte {P : UInt8 → Prop} (h : ∀ i : Fin 256, P (UInt8.ofFin i)) (byte : UInt8) :
    P byte := h byte.toFin

/-- **`gf_mul` holds products.** -/
theorem gfMul_eq_times (byte : UInt8) (column : Fin 6) :
    (gfMul byte column).toBitVec = times column.val byte.toBitVec := by
  have htable : ∀ (i : Fin 256) (column : Fin 6),
      (gfMul (UInt8.ofFin i) column).toBitVec = times column.val (UInt8.ofFin i).toBitVec := by
    decide +kernel
  exact htable byte.toFin column

/-- **The S-box is an affine map of the inverse**, where 0 stands for its
own. -/
theorem sbox_eq_affine (byte : UInt8) : ∃ inverse : BitVec 8,
    (if byte = 0 then inverse = 0 else mulBy polynomial (bits byte) inverse = 1) ∧
      (lookup sbox byte).toBitVec = affine inverse := by
  refine ⟨affineInv (lookup sbox byte).toBitVec, ?_⟩
  revert byte
  refine forall_byte ?_
  decide +kernel

/-- The two S-boxes are inverse to each other. -/
theorem lookup_invsbox (byte : UInt8) : lookup invsbox (lookup sbox byte) = byte := by
  revert byte
  refine forall_byte ?_
  decide +kernel

/-! ## The steps -/

@[simp] theorem loadState_storeState (state : State) : loadState (storeState state) = state := by
  refine State.ext fun row column => ?_
  simp only [loadState, storeState, State.cell_of, List.get_eq_getElem, List.getElem_ofFn]
  congr 1 <;> apply Fin.ext <;> simp only <;> omega

@[simp] theorem storeState_loadState (input : FixedBytes AES_BLOCK_LENGTH) :
    storeState (loadState input) = input := by
  apply Subtype.ext
  refine List.ext_getElem (by rw [FixedBytes.length_val, FixedBytes.length_val]) ?_
  intro i hi hi'
  simp only [storeState, loadState, State.cell_of, List.getElem_ofFn, List.get_eq_getElem]
  congr 1
  omega

@[simp] theorem addRoundKey_addRoundKey (key : List UInt32) (w : ℕ) (state : State) :
    addRoundKey key w (addRoundKey key w state) = state := by
  refine State.ext fun row column => ?_
  simp only [addRoundKey, State.cell_of, UInt8.xor_assoc, UInt8.xor_self, UInt8.xor_zero]

@[simp] theorem invSubBytes_subBytes (state : State) : invSubBytes (subBytes state) = state := by
  refine State.ext fun row column => ?_
  simp only [invSubBytes, subBytes, State.cell_of, lookup_invsbox]

@[simp] theorem invShiftRows_shiftRows (state : State) : invShiftRows (shiftRows state) = state := by
  have hback : ∀ row column : Fin 4, column - row + row = column := by decide
  refine State.ext fun row column => ?_
  simp only [invShiftRows, shiftRows, State.cell_of, hback]

/-! ## Mixing -/

theorem times_xor (column : ℕ) (a b : BitVec 8) :
    times column (a ^^^ b) = times column a ^^^ times column b := mulBy_xor _ _ _ _

theorem times_times (column column' : ℕ) (b : BitVec 8) :
    times column (times column' b) =
      mulBy polynomial (product (coefficients column) (coefficients column')) b := mulBy_product _ _ _ _

/-- What `MixColumns` makes of a byte, with the bytes after it in its
column. -/
def mix (a b c d : BitVec 8) : BitVec 8 := times 0 a ^^^ times 1 b ^^^ c ^^^ d

/-- What `InvMixColumns` makes of one. -/
def unmix (a b c d : BitVec 8) : BitVec 8 := times 5 a ^^^ times 3 b ^^^ times 4 c ^^^ times 2 d

/-- Four products of one byte are the product with the sum. -/
theorem mulBy_sum_four (p q r s : List Bool) (b : BitVec 8) :
    mulBy polynomial p b ^^^ mulBy polynomial q b ^^^ mulBy polynomial r b ^^^ mulBy polynomial s b =
      mulBy polynomial (sum (sum (sum p q) r) s) b := by
  rw [mulBy_sum, mulBy_sum, mulBy_sum]

/-- **Mixing is undone.** Over each byte of the column, the products of the
polynomials add up to 1, or to 0. -/
theorem unmix_mix (a b c d : BitVec 8) :
    unmix (mix a b c d) (mix b c d a) (mix c d a b) (mix d a b c) = a := by
  have hone : times 5 (times 0 a) ^^^ times 3 a ^^^ times 4 a ^^^ times 2 (times 1 a) = a := by
    rw [times_times, times_times, times, times, mulBy_sum_four]
    simp [coefficients, product, sum, mulBy]
  have hnext : times 5 (times 1 b) ^^^ times 3 (times 0 b) ^^^ times 4 b ^^^ times 2 b = 0#8 := by
    rw [times_times, times_times, times, times, mulBy_sum_four]
    simp [coefficients, product, sum, mulBy]
  have hover : times 5 c ^^^ times 3 (times 1 c) ^^^ times 4 (times 0 c) ^^^ times 2 c = 0#8 := by
    rw [times_times, times_times, times, times, mulBy_sum_four]
    simp [coefficients, product, sum, mulBy]
  have hlast : times 5 d ^^^ times 3 d ^^^ times 4 (times 1 d) ^^^ times 2 (times 0 d) = 0#8 := by
    rw [times_times, times_times, times, times, mulBy_sum_four]
    simp [coefficients, product, sum, mulBy]
  -- the terms with one byte, together
  calc unmix (mix a b c d) (mix b c d a) (mix c d a b) (mix d a b c)
      = (times 5 (times 0 a) ^^^ times 3 a ^^^ times 4 a ^^^ times 2 (times 1 a)) ^^^
        (times 5 (times 1 b) ^^^ times 3 (times 0 b) ^^^ times 4 b ^^^ times 2 b) ^^^
        (times 5 c ^^^ times 3 (times 1 c) ^^^ times 4 (times 0 c) ^^^ times 2 c) ^^^
        (times 5 d ^^^ times 3 d ^^^ times 4 (times 1 d) ^^^ times 2 (times 0 d)) := by
        simp only [unmix, mix, times_xor]
        ac_rfl
    _ = a := by rw [hone, hnext, hover, hlast, BitVec.xor_zero, BitVec.xor_zero, BitVec.xor_zero]

/-- Each byte of a mixed column, from the bytes that come after it. -/
theorem mixColumn_toBitVec (col : Fin 4 → UInt8) (row : Fin 4) :
    (mixColumn col row).toBitVec =
      mix (col row).toBitVec (col (row + 1)).toBitVec (col (row + 2)).toBitVec
        (col (row + 3)).toBitVec := by
  fin_cases row <;>
    simp only [mixColumn, mix, UInt8.toBitVec_xor, gfMul_eq_times, Fin.reduceFinMk, Fin.reduceAdd,
      Fin.coe_ofNat_eq_mod, Nat.reduceMod] <;>
    ac_rfl

theorem invMixColumn_toBitVec (col : Fin 4 → UInt8) (row : Fin 4) :
    (invMixColumn col row).toBitVec =
      unmix (col row).toBitVec (col (row + 1)).toBitVec (col (row + 2)).toBitVec
        (col (row + 3)).toBitVec := by
  fin_cases row <;>
    simp only [invMixColumn, unmix, UInt8.toBitVec_xor, gfMul_eq_times, Fin.reduceFinMk,
      Fin.reduceAdd, Fin.coe_ofNat_eq_mod, Nat.reduceMod] <;>
    ac_rfl

theorem invMixColumn_mixColumn (col : Fin 4 → UInt8) : invMixColumn (mixColumn col) = col := by
  have hturn : ∀ row : Fin 4, row + 1 + 1 = row + 2 ∧ row + 1 + 2 = row + 3 ∧ row + 1 + 3 = row ∧
      row + 2 + 1 = row + 3 ∧ row + 2 + 2 = row ∧ row + 2 + 3 = row + 1 ∧
      row + 3 + 1 = row ∧ row + 3 + 2 = row + 1 ∧ row + 3 + 3 = row + 2 := by decide
  funext row
  obtain ⟨h11, h12, h13, h21, h22, h23, h31, h32, h33⟩ := hturn row
  apply UInt8.toBitVec_inj.mp
  rw [invMixColumn_toBitVec]
  simp only [mixColumn_toBitVec, h11, h12, h13, h21, h22, h23, h31, h32, h33]
  exact unmix_mix _ _ _ _

@[simp] theorem invMixColumns_mixColumns (state : State) :
    invMixColumns (mixColumns state) = state := by
  refine State.ext fun row column => ?_
  simp only [invMixColumns, mixColumns, State.cell_of]
  exact congrFun (invMixColumn_mixColumn fun row => state.cell row column) row

/-! ## Rounds -/

variable (key : List UInt32)

/-- **A round is undone** on what the next one makes of it before it mixes
and adds its key. -/
theorem invRound_round (w : ℕ) (state : State) :
    invRound key (shiftRows (subBytes (round key state w))) w = shiftRows (subBytes state) := by
  rw [invRound, invShiftRows_shiftRows, invSubBytes_subBytes, round, addRoundKey_addRoundKey,
    invMixColumns_mixColumns]

/-- Rounds are undone in the other order. -/
theorem foldl_invRound (ws : List ℕ) (state : State) :
    ws.reverse.foldl (invRound key) (shiftRows (subBytes (ws.foldl (round key) state))) =
      shiftRows (subBytes state) := by
  induction ws generalizing state with
  | nil => rfl
  | cons w ws ih =>
    rw [List.reverse_cons, List.foldl_append, List.foldl_cons, List.foldl_nil, List.foldl_cons, ih]
    exact invRound_round key w state

theorem addRoundKey_lastRound (w : ℕ) (state : State) :
    addRoundKey key w (lastRound key w state) = shiftRows (subBytes state) :=
  addRoundKey_addRoundKey _ _ _

theorem invLastRound_addRoundKey (state : State) :
    invLastRound key (shiftRows (subBytes (addRoundKey key 0 state))) = state := by
  rw [invLastRound, invShiftRows_shiftRows, invSubBytes_subBytes, addRoundKey_addRoundKey]

section Sizes

variable (input : FixedBytes AES_BLOCK_LENGTH)

theorem decrypt_encrypt_of_128 : decrypt (encrypt input key 128) key 128 = input := by
  have hnine := foldl_invRound key [4, 8, 12, 16, 20, 24, 28, 32, 36]
  simp only [List.reverse_cons, List.reverse_nil, List.nil_append, List.cons_append] at hnine
  simp only [decrypt, encrypt, loadState_storeState, ne_eq, not_true_eq_false, if_false, lt_irrefl,
    addRoundKey_lastRound, hnine, invLastRound_addRoundKey, storeState_loadState]

theorem decrypt_encrypt_of_192 : decrypt (encrypt input key 192) key 192 = input := by
  have hnine := foldl_invRound key [4, 8, 12, 16, 20, 24, 28, 32, 36]
  have htwo := foldl_invRound key [40, 44]
  simp only [List.reverse_cons, List.reverse_nil, List.nil_append, List.cons_append] at hnine htwo
  simp only [decrypt, encrypt, loadState_storeState, ne_eq, not_true_eq_false, if_false, lt_irrefl,
    show ¬ (192 : ℕ) = 128 by omega, show (128 : ℕ) < 192 by omega, not_false_eq_true, if_true,
    addRoundKey_lastRound, htwo, hnine, invLastRound_addRoundKey, storeState_loadState]

theorem decrypt_encrypt_of_256 : decrypt (encrypt input key 256) key 256 = input := by
  have hnine := foldl_invRound key [4, 8, 12, 16, 20, 24, 28, 32, 36]
  have htwo := foldl_invRound key [40, 44]
  have hmore := foldl_invRound key [48, 52]
  simp only [List.reverse_cons, List.reverse_nil, List.nil_append, List.cons_append]
    at hnine htwo hmore
  simp only [decrypt, encrypt, loadState_storeState, ne_eq, show ¬ (256 : ℕ) = 128 by omega,
    show ¬ (256 : ℕ) = 192 by omega, show (128 : ℕ) < 256 by omega, show (192 : ℕ) < 256 by omega,
    not_false_eq_true, if_true, addRoundKey_lastRound, hmore, htwo, hnine,
    invLastRound_addRoundKey, storeState_loadState]

/-- **`aes_decrypt` undoes `aes_encrypt`**, for each size that AES has and
whatever the words of the key schedule are. -/
theorem aesDecrypt_aesEncrypt {keysize : ℕ} (hsize : keysize = 128 ∨ keysize = 192 ∨ keysize = 256) :
    decrypt (encrypt input key keysize) key keysize = input := by
  rcases hsize with rfl | rfl | rfl
  · exact decrypt_encrypt_of_128 key input
  · exact decrypt_encrypt_of_192 key input
  · exact decrypt_encrypt_of_256 key input

/-- With a key of 24 bytes, from its own schedule. -/
theorem aesDecrypt_aesEncrypt_zero :
    decrypt (encrypt (FixedBytes.zero _) (keySetup (List.replicate 24 0) 192) 192)
      (keySetup (List.replicate 24 0) 192) 192 = FixedBytes.zero _ :=
  aesDecrypt_aesEncrypt _ _ (.inr (.inl rfl))

end Sizes

end Aes

/-- So does the block cipher that the library calls. -/
theorem Aes256.vendored_inverts : Aes256.vendored.Inverts := fun _ block =>
  Aes.decrypt_encrypt_of_256 _ block

end Olm
