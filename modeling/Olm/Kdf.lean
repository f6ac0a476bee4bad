import Olm.Common.Hkdf
import Olm.Crypto

/-!
# HMAC and HKDF, as the library computes them

`src/crypto.cpp` over SHA-256, which is a parameter: a function of the
bytes its context was given, in whatever pieces. The output of HKDF goes
to a buffer block by block, and `step_result` is both the block that was
computed last and the first input of the next one.
`hkdfSha256Loop_eq` is the invariant of that loop: when `i` blocks are
written, `step_result` is block `i + 1` and `iteration` its number.
-/

namespace Olm

/-- `SHA256_BLOCK_LENGTH`. -/
abbrev SHA256_BLOCK_LENGTH : ℕ := 64

/-- `HKDF_DEFAULT_SALT`. -/
def HKDF_DEFAULT_SALT : Bytes := List.replicate 32 0

/-- `SHA256_CTX`: what it has been given since `sha256_init`. -/
structure Sha256Ctx where
  data : Bytes

/-- `sha256_init`. -/
def Sha256Ctx.init : Sha256Ctx := { data := [] }

/-- `sha256_update`. -/
def Sha256Ctx.update (context : Sha256Ctx) (data : Bytes) : Sha256Ctx :=
  { data := context.data ++ data }

section Definitions

variable (sha256 : Bytes → FixedBytes SHA256_OUTPUT_LENGTH)

/-- `sha256_final`. -/
def Sha256Ctx.final (context : Sha256Ctx) : FixedBytes SHA256_OUTPUT_LENGTH := sha256 context.data

/-- `hmac_sha256_key`: the `hmac_key` it fills, from zeros. -/
def hmacSha256Key (inputKey : Bytes) : Checked Bytes :=
  let hmacKey := List.replicate SHA256_BLOCK_LENGTH 0
  if SHA256_BLOCK_LENGTH < inputKey.length then
    writeAt hmacKey 0 ((Sha256Ctx.init.update inputKey).final sha256).val
  else writeAt hmacKey 0 inputKey

/-- `hmac_sha256_init`. -/
def hmacSha256Init (hmacKey : Bytes) : Sha256Ctx :=
  let iPad := hmacKey.map (· ^^^ 0x36)
  Sha256Ctx.init.update iPad

/-- `hmac_sha256_final`. -/
def hmacSha256Final (context : Sha256Ctx) (hmacKey : Bytes) : FixedBytes SHA256_OUTPUT_LENGTH :=
  let oPad := hmacKey.map (· ^^^ 0x5C)
  let oPad := oPad ++ (context.final sha256).val
  (Sha256Ctx.init.update oPad).final sha256

/-- `_olm_crypto_hmac_sha256`. -/
def hmacSha256 (key input : Bytes) : Checked (FixedBytes SHA256_OUTPUT_LENGTH) := do
  let hmacKey ← hmacSha256Key sha256 key
  let context := hmacSha256Init hmacKey
  let context := context.update input
  .ok (hmacSha256Final sha256 context hmacKey)

/-- The loop of `_olm_crypto_hkdf_sha256`, and the copy of the last block. -/
def hkdfSha256Loop (hmacKey info : Bytes) (bytesRemaining : ℕ) (iteration : UInt8)
    (stepResult : FixedBytes SHA256_OUTPUT_LENGTH) (buf : Bytes) (output : ℕ) : Checked Bytes :=
  if SHA256_OUTPUT_LENGTH < bytesRemaining then do
    let buf ← writeAt buf output stepResult.val
    let iteration := iteration + 1
    let context := hmacSha256Init hmacKey
    let context := context.update stepResult.val
    let context := context.update info
    let context := context.update [iteration]
    let stepResult := hmacSha256Final sha256 context hmacKey
    hkdfSha256Loop hmacKey info (bytesRemaining - SHA256_OUTPUT_LENGTH) iteration stepResult buf
      (output + SHA256_OUTPUT_LENGTH)
  else writeAt buf output (stepResult.val.take bytesRemaining)
termination_by bytesRemaining
decreasing_by
  have hpos : 0 < SHA256_OUTPUT_LENGTH := by decide
  omega

/-- `_olm_crypto_hkdf_sha256`, into the buffer from `output` on. -/
def hkdfSha256 (input : Bytes) (salt : Option Bytes) (info buf : Bytes)
    (output outputLength : ℕ) : Checked Bytes := do
  let salt := salt.getD HKDF_DEFAULT_SALT
  -- extract
  let hmacKey ← hmacSha256Key sha256 salt
  let context := hmacSha256Init hmacKey
  let context := context.update input
  let stepResult := hmacSha256Final sha256 context hmacKey
  let hmacKey ← hmacSha256Key sha256 stepResult.val
  -- expand
  let context := hmacSha256Init hmacKey
  let context := context.update info
  let context := context.update [1]
  let stepResult := hmacSha256Final sha256 context hmacKey
  hkdfSha256Loop sha256 hmacKey info outputLength 1 stepResult buf output

end Definitions

/-! ## HMAC -/

section Rfc

open Hkdf

variable (sha256 : Bytes → FixedBytes SHA256_OUTPUT_LENGTH)

/-- A key is written over the front of the zeros that fill it up. -/
theorem hmacSha256Key_eq (key : Bytes) :
    hmacSha256Key sha256 key = .ok (hmacKey sha256 SHA256_BLOCK_LENGTH key) := by
  have hwrite : ∀ k : Bytes, k.length ≤ SHA256_BLOCK_LENGTH →
      writeAt (List.replicate SHA256_BLOCK_LENGTH 0) 0 k =
        .ok (k ++ List.replicate (SHA256_BLOCK_LENGTH - k.length) 0) := by
    intro k hk
    rw [writeAt, if_pos (by rw [List.length_replicate]; omega), List.take_zero, List.nil_append,
      Nat.zero_add, List.drop_replicate]
  unfold hmacSha256Key hmacKey
  dsimp only
  split
  · have hle : (sha256 key).val.length ≤ SHA256_BLOCK_LENGTH := by
      rw [FixedBytes.length_val]
      decide
    exact hwrite _ hle
  · exact hwrite _ (by omega)

/-- What `hmac_sha256_final` gives after `hmac_sha256_init` and some updates. -/
theorem hmacSha256Final_eq (key data : Bytes) :
    hmacSha256Final sha256
        ((hmacSha256Init (hmacKey sha256 SHA256_BLOCK_LENGTH key)).update data)
        (hmacKey sha256 SHA256_BLOCK_LENGTH key) =
      hmac sha256 SHA256_BLOCK_LENGTH key data := by
  simp only [hmacSha256Final, hmacSha256Init, hmac, Sha256Ctx.final, Sha256Ctx.update,
    Sha256Ctx.init, List.nil_append]

@[simp] theorem Sha256Ctx.update_update (context : Sha256Ctx) (data data' : Bytes) :
    (context.update data).update data' = context.update (data ++ data') := by
  simp only [Sha256Ctx.update, List.append_assoc]

/-- **`_olm_crypto_hmac_sha256` is HMAC.** -/
theorem hmacSha256_eq (key input : Bytes) :
    hmacSha256 sha256 key input = .ok (hmac sha256 SHA256_BLOCK_LENGTH key input) := by
  rw [hmacSha256, hmacSha256Key_eq, Checked.ok_bind]
  dsimp only
  rw [hmacSha256Final_eq]

/-! ## HKDF -/

/-- **The loop writes one block after another**, from block `i + 1` on. -/
theorem hkdfSha256Loop_eq (prk info : Bytes) (bytesRemaining i : ℕ)
    (stepResult : FixedBytes SHA256_OUTPUT_LENGTH) (buf : Bytes) (output : ℕ)
    (hstep : stepResult.val = expandBlock sha256 SHA256_BLOCK_LENGTH prk info (i + 1)) :
    hkdfSha256Loop sha256 (hmacKey sha256 SHA256_BLOCK_LENGTH prk) info bytesRemaining
        (UInt8.ofNat (i + 1)) stepResult buf output =
      writeAt buf output ((expandBlocks sha256 SHA256_BLOCK_LENGTH prk info i
        ((bytesRemaining + SHA256_OUTPUT_LENGTH - 1) / SHA256_OUTPUT_LENGTH)).take
          bytesRemaining) := by
  have hpos : 0 < SHA256_OUTPUT_LENGTH := by decide
  induction bytesRemaining using Nat.strong_induction_on generalizing i stepResult buf output with
  | h bytesRemaining ih =>
    rw [hkdfSha256Loop]
    split
    · rename_i hlt
      -- a whole block, and then the ones after it
      have hcount : (bytesRemaining + SHA256_OUTPUT_LENGTH - 1) / SHA256_OUTPUT_LENGTH =
          (bytesRemaining - SHA256_OUTPUT_LENGTH + SHA256_OUTPUT_LENGTH - 1) /
            SHA256_OUTPUT_LENGTH + 1 := by
        rw [← Nat.add_div_right _ hpos]
        congr 1
        omega
      have hlen : (expandBlock sha256 SHA256_BLOCK_LENGTH prk info (i + 1)).length =
          SHA256_OUTPUT_LENGTH := expandBlock_length prk info i
      have hnext : UInt8.ofNat (i + 1) + 1 = UInt8.ofNat (i + 1 + 1) :=
        (UInt8.ofNat_add (i + 1) 1).symm
      rw [hcount, expandBlocks_succ, List.take_append, hlen, List.take_of_length_le (by omega),
        writeAt_split, hlen, hstep]
      cases hw : writeAt buf output (expandBlock sha256 SHA256_BLOCK_LENGTH prk info (i + 1)) with
      | error e => rfl
      | ok buf' =>
        simp only [Checked.ok_bind, Sha256Ctx.update_update, hmacSha256Final_eq, hnext]
        exact ih _ (by omega) (i + 1) _ buf' _ rfl
    · rename_i hle
      obtain rfl | hbytes := Nat.eq_zero_or_pos bytesRemaining
      · rw [List.take_zero, List.take_zero]
      · have hcount : (bytesRemaining + SHA256_OUTPUT_LENGTH - 1) / SHA256_OUTPUT_LENGTH = 1 :=
          Nat.div_eq_of_lt_le (by omega) (by omega)
        rw [hcount, expandBlocks_succ, expandBlocks_zero, List.append_nil, hstep]

/-- **`_olm_crypto_hkdf_sha256` is HKDF**: it writes the expansion of what it
extracts, and faults where there is no room for it. -/
theorem hkdfSha256_eq (input : Bytes) (salt : Option Bytes) (info buf : Bytes)
    (output outputLength : ℕ) :
    hkdfSha256 sha256 input salt info buf output outputLength =
      writeAt buf output (expand sha256 SHA256_BLOCK_LENGTH
        (extract sha256 SHA256_BLOCK_LENGTH salt input).val info outputLength) := by
  have hsalt : hmac sha256 SHA256_BLOCK_LENGTH (salt.getD HKDF_DEFAULT_SALT) input =
      extract sha256 SHA256_BLOCK_LENGTH salt input := rfl
  have hone : (1 : UInt8) = UInt8.ofNat (0 + 1) := rfl
  rw [hkdfSha256, hmacSha256Key_eq, Checked.ok_bind]
  simp only [hmacSha256Final_eq, hsalt, hmacSha256Key_eq, Checked.ok_bind, Sha256Ctx.update_update]
  rw [hone, hkdfSha256Loop_eq, expand]
  rw [expandBlock, expandBlock, List.nil_append]

/-- **The two functions follow their RFCs**, for every key and salt, also one
that is longer than a block or not given, and for every length of the output:
HMAC is computed, and HKDF written where there is room for it. -/
theorem kdfs_follow_rfcs :
    (∀ key input, hmacSha256 sha256 key input =
      .ok (hmac sha256 SHA256_BLOCK_LENGTH key input)) ∧
    ∀ input salt info buf output outputLength,
      hkdfSha256 sha256 input salt info buf output outputLength =
        writeAt buf output (expand sha256 SHA256_BLOCK_LENGTH
          (extract sha256 SHA256_BLOCK_LENGTH salt input).val info outputLength) :=
  ⟨hmacSha256_eq sha256, hkdfSha256_eq sha256⟩

/-- What the rest of the library calls, over SHA-256. -/
def Hashes.ofSha256 : Hashes where
  hmacSha256 := hmac sha256 SHA256_BLOCK_LENGTH
  hkdfSha256 input salt info n :=
    ⟨expand sha256 SHA256_BLOCK_LENGTH (extract sha256 SHA256_BLOCK_LENGTH salt input).val info n,
      expand_length (by decide) _ _ _⟩

/-- **It is what the two functions compute.** -/
theorem kdfs_compute_hashes :
    (∀ key input, hmacSha256 sha256 key input =
      .ok ((Hashes.ofSha256 sha256).hmacSha256 key input)) ∧
    ∀ input salt info buf output outputLength,
      hkdfSha256 sha256 input salt info buf output outputLength =
        writeAt buf output ((Hashes.ofSha256 sha256).hkdfSha256 input salt info outputLength).val :=
  ⟨hmacSha256_eq sha256, hkdfSha256_eq sha256⟩

end Rfc

end Olm
