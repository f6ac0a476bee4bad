import Olm.CryptoAlgorithms.Sha256Stream
import Olm.Kdf

/-!
# The hashes of the library, over its own SHA-256

`src/crypto.cpp` over the contexts of `lib/crypto-algorithms/sha256.c`.
`Olm.Kdf` goes by contexts that are the bytes they were given; here those
are what the real ones stand for, so HMAC and HKDF are computed over
`Sha256.hash`, for inputs of less than `2 ^ 32` bytes. From a longer one
none of the functions returns.

`memory` is what the contexts on the stack hold before they are initialised.
-/

namespace Olm

namespace Sha256

section Definitions

variable (memory : Ctx)

/-- `_olm_crypto_sha256`. -/
def cryptoSha256 (input : Bytes) : Checked (FixedBytes SHA256_OUTPUT_LENGTH) := do
  let context ← update (init memory) input
  let (_, output) ← final context
  .ok output

/-- `hmac_sha256_key`. -/
def hmacSha256Key (inputKey : Bytes) : Checked Bytes :=
  let hmacKey := List.replicate SHA256_BLOCK_LENGTH 0
  if SHA256_BLOCK_LENGTH < inputKey.length then do
    let context ← update (init memory) inputKey
    let (_, output) ← final context
    writeAt hmacKey 0 output.val
  else writeAt hmacKey 0 inputKey

/-- `hmac_sha256_init`. -/
def hmacSha256Init (context : Ctx) (hmacKey : Bytes) : Checked Ctx :=
  let iPad := hmacKey.map (· ^^^ 0x36)
  update (init context) iPad

/-- `hmac_sha256_final`. -/
def hmacSha256Final (context : Ctx) (hmacKey : Bytes) :
    Checked (Ctx × FixedBytes SHA256_OUTPUT_LENGTH) := do
  let oPad := hmacKey.map (· ^^^ 0x5C)
  let (context, inner) ← final context
  let oPad := oPad ++ inner.val
  let finalContext ← update (init memory) oPad
  let (_, output) ← final finalContext
  .ok (context, output)

/-- `_olm_crypto_hmac_sha256`. -/
def cryptoHmacSha256 (key input : Bytes) : Checked (FixedBytes SHA256_OUTPUT_LENGTH) := do
  let hmacKey ← hmacSha256Key memory key
  let context ← hmacSha256Init memory hmacKey
  let context ← update context input
  let (_, output) ← hmacSha256Final memory context hmacKey
  .ok output

/-- The loop of `_olm_crypto_hkdf_sha256`, and the copy of the last block. -/
def hkdfSha256Loop (hmacKey info : Bytes) (context : Ctx) (bytesRemaining : ℕ) (iteration : UInt8)
    (stepResult : FixedBytes SHA256_OUTPUT_LENGTH) (buf : Bytes) (output : ℕ) : Checked Bytes :=
  if SHA256_OUTPUT_LENGTH < bytesRemaining then do
    let buf ← writeAt buf output stepResult.val
    let iteration := iteration + 1
    let context ← hmacSha256Init context hmacKey
    let context ← update context stepResult.val
    let context ← update context info
    let context ← update context [iteration]
    let (context, stepResult) ← hmacSha256Final memory context hmacKey
    hkdfSha256Loop hmacKey info context (bytesRemaining - SHA256_OUTPUT_LENGTH) iteration stepResult
      buf (output + SHA256_OUTPUT_LENGTH)
  else writeAt buf output (stepResult.val.take bytesRemaining)
termination_by bytesRemaining
decreasing_by
  have hpos : 0 < SHA256_OUTPUT_LENGTH := by decide
  omega

/-- `_olm_crypto_hkdf_sha256`, into the buffer from `output` on. -/
def cryptoHkdfSha256 (input : Bytes) (salt : Option Bytes) (info buf : Bytes)
    (output outputLength : ℕ) : Checked Bytes := do
  let salt := salt.getD HKDF_DEFAULT_SALT
  -- extract
  let hmacKey ← hmacSha256Key memory salt
  let context ← hmacSha256Init memory hmacKey
  let context ← update context input
  let (context, stepResult) ← hmacSha256Final memory context hmacKey
  let hmacKey ← hmacSha256Key memory stepResult.val
  -- expand
  let context ← hmacSha256Init context hmacKey
  let context ← update context info
  let context ← update context [1]
  let (context, stepResult) ← hmacSha256Final memory context hmacKey
  hkdfSha256Loop memory hmacKey info context outputLength 1 stepResult buf output

end Definitions

/-! ## The contexts stand for what they were given -/

variable (memory : Ctx)

/-- A context of its own, for one piece. -/
theorem final_of_update (context : Ctx) {piece : Bytes} (hpiece : piece.length < 2 ^ 32) :
    ∃ ctx ctx', update (init context) piece = .ok ctx ∧ final ctx = .ok (ctx', hash piece) := by
  obtain ⟨ctx, hupdate, hctx⟩ := (init_represents context).update hpiece
  obtain ⟨ctx', hfinal⟩ := hctx.final
  exact ⟨ctx, ctx', hupdate, hfinal⟩

theorem hmacSha256Key_eq {key : Bytes} (hkey : key.length < 2 ^ 32) :
    hmacSha256Key memory key = Olm.hmacSha256Key hash key := by
  obtain ⟨ctx, ctx', hupdate, hfinal⟩ := final_of_update memory hkey
  rw [hmacSha256Key, hupdate, Checked.ok_bind, hfinal]
  rfl

theorem hmacSha256Init_represents (context : Ctx) {hmacKey : Bytes}
    (hkey : hmacKey.length = SHA256_BLOCK_LENGTH) :
    ∃ ctx, hmacSha256Init context hmacKey = .ok ctx ∧ ctx.Represents (hmacKey.map (· ^^^ 0x36)) := by
  have hpad : (hmacKey.map (· ^^^ (0x36 : UInt8))).length < 2 ^ 32 := by
    rw [List.length_map, hkey, show SHA256_BLOCK_LENGTH = 64 from rfl]
    omega
  exact (init_represents context).update hpad

/-- **An HMAC that is computed piece by piece** is that of all the pieces. -/
theorem hmac_of_pieces (context : Ctx) {hmacKey : Bytes} (hkey : hmacKey.length = SHA256_BLOCK_LENGTH)
    {pieces : List Bytes} (hpieces : ∀ piece ∈ pieces, piece.length < 2 ^ 32) :
    ∃ ctx ctx' ctx'', hmacSha256Init context hmacKey = .ok ctx ∧ updates ctx pieces = .ok ctx' ∧
      hmacSha256Final memory ctx' hmacKey =
        .ok (ctx'', Olm.hmacSha256Final hash ((Olm.hmacSha256Init hmacKey).update pieces.flatten)
          hmacKey) := by
  obtain ⟨ctx, hinit, hctx⟩ := hmacSha256Init_represents context hkey
  obtain ⟨ctx', hupdates, hctx'⟩ := hctx.updates hpieces
  obtain ⟨ctx'', hinner⟩ := hctx'.final
  have hpad : (hmacKey.map (· ^^^ 0x5C) ++
      (hash (hmacKey.map (· ^^^ 0x36) ++ pieces.flatten)).val).length < 2 ^ 32 := by
    rw [List.length_append, List.length_map, hkey, FixedBytes.length_val,
      show SHA256_BLOCK_LENGTH + SHA256_OUTPUT_LENGTH = 96 from rfl]
    omega
  obtain ⟨outer, outer', houter, hfinal⟩ := final_of_update memory hpad
  refine ⟨ctx, ctx', ctx'', hinit, hupdates, ?_⟩
  rw [hmacSha256Final, hinner, Checked.ok_bind]
  dsimp only
  rw [houter, Checked.ok_bind, hfinal]
  rfl

theorem hmacKey_length (key : Bytes) :
    (Hkdf.hmacKey hash SHA256_BLOCK_LENGTH key).length = SHA256_BLOCK_LENGTH :=
  Hkdf.hmacKey_length (by decide) key

/-- **`_olm_crypto_sha256` is SHA-256.** -/
theorem cryptoSha256_eq {input : Bytes} (hinput : input.length < 2 ^ 32) :
    cryptoSha256 memory input = .ok (hash input) := by
  obtain ⟨ctx, ctx', hupdate, hfinal⟩ := final_of_update memory hinput
  rw [cryptoSha256, hupdate, Checked.ok_bind, hfinal, Checked.ok_bind]

/-- **`_olm_crypto_hmac_sha256` over real contexts.** -/
theorem cryptoHmacSha256_eq {key input : Bytes} (hkey : key.length < 2 ^ 32)
    (hinput : input.length < 2 ^ 32) :
    cryptoHmacSha256 memory key input = Olm.hmacSha256 hash key input := by
  have hpieces : ∀ piece ∈ [input], piece.length < 2 ^ 32 := by simpa using hinput
  obtain ⟨ctx, ctx', ctx'', hinit, hupdates, hfinal⟩ := hmac_of_pieces memory memory
    (hmacKey_length key) hpieces
  obtain ⟨ctx₁, hupdate, hctx₁⟩ := Checked.bind_eq_ok.mp hupdates
  obtain rfl := Except.ok.inj hctx₁
  rw [cryptoHmacSha256, Olm.hmacSha256, hmacSha256Key_eq memory hkey, Olm.hmacSha256Key_eq,
    Checked.ok_bind, Checked.ok_bind, hinit, Checked.ok_bind, hupdate, Checked.ok_bind, hfinal,
    Checked.ok_bind, List.flatten_cons, List.flatten_nil, List.append_nil]

/-- **The loop of HKDF over real contexts**, whichever one it begins with. -/
theorem hkdfSha256Loop_eq {hmacKey info : Bytes} (hkey : hmacKey.length = SHA256_BLOCK_LENGTH)
    (hinfo : info.length < 2 ^ 32) (context : Ctx) (bytesRemaining : ℕ) (iteration : UInt8)
    (stepResult : FixedBytes SHA256_OUTPUT_LENGTH) (buf : Bytes) (output : ℕ) :
    hkdfSha256Loop memory hmacKey info context bytesRemaining iteration stepResult buf output =
      Olm.hkdfSha256Loop hash hmacKey info bytesRemaining iteration stepResult buf output := by
  induction bytesRemaining using Nat.strong_induction_on
    generalizing context iteration stepResult buf output with
  | h bytesRemaining ih =>
    rw [hkdfSha256Loop, Olm.hkdfSha256Loop]
    split
    · rename_i hlt
      have hpieces : ∀ piece ∈ [stepResult.val, info, [iteration + 1]], piece.length < 2 ^ 32 := by
        intro piece hmem
        simp only [List.mem_cons, List.not_mem_nil, or_false] at hmem
        obtain rfl | rfl | rfl := hmem
        · rw [FixedBytes.length_val]
          decide
        · exact hinfo
        · rw [List.length_singleton]
          omega
      obtain ⟨ctx, ctx', ctx'', hinit, hupdates, hfinal⟩ := hmac_of_pieces memory context hkey hpieces
      obtain ⟨ctx₁, hstep, hupdates⟩ := Checked.bind_eq_ok.mp hupdates
      obtain ⟨ctx₂, hinfo', hupdates⟩ := Checked.bind_eq_ok.mp hupdates
      obtain ⟨ctx₃, hcount, hctx₃⟩ := Checked.bind_eq_ok.mp hupdates
      obtain rfl := Except.ok.inj hctx₃
      cases hw : writeAt buf output stepResult.val with
      | error e => rfl
      | ok buf' =>
        simp only [Checked.ok_bind, hinit, hstep, hinfo', hcount, hfinal, List.flatten_cons,
          List.flatten_nil, List.append_nil, Sha256Ctx.update_update, List.append_assoc]
        have hpos : 0 < SHA256_OUTPUT_LENGTH := by decide
        exact ih _ (by omega) _ _ _ _ _
    · rfl

/-- **`_olm_crypto_hkdf_sha256` over real contexts.** -/
theorem cryptoHkdfSha256_eq {input info : Bytes} {salt : Option Bytes}
    (hinput : input.length < 2 ^ 32) (hsalt : (salt.getD HKDF_DEFAULT_SALT).length < 2 ^ 32)
    (hinfo : info.length < 2 ^ 32) (buf : Bytes) (output outputLength : ℕ) :
    cryptoHkdfSha256 memory input salt info buf output outputLength =
      Olm.hkdfSha256 hash input salt info buf output outputLength := by
  have hone : ∀ piece ∈ [info, [1]], piece.length < 2 ^ 32 := by
    intro piece hmem
    simp only [List.mem_cons, List.not_mem_nil, or_false] at hmem
    obtain rfl | rfl := hmem
    · exact hinfo
    · rw [List.length_singleton]
      omega
  -- extract
  have hpieces : ∀ piece ∈ [input], piece.length < 2 ^ 32 := by simpa using hinput
  obtain ⟨ctx, ctx', ctx'', hinit, hupdates, hfinal⟩ := hmac_of_pieces memory memory
    (hmacKey_length (salt.getD HKDF_DEFAULT_SALT)) hpieces
  obtain ⟨ctx₁, hinput', hctx₁⟩ := Checked.bind_eq_ok.mp hupdates
  obtain rfl := Except.ok.inj hctx₁
  rw [List.flatten_cons, List.flatten_nil, List.append_nil] at hfinal
  obtain ⟨prk, hprk⟩ : ∃ prk, Olm.hmacSha256Final hash ((Olm.hmacSha256Init
    (Hkdf.hmacKey hash SHA256_BLOCK_LENGTH (salt.getD HKDF_DEFAULT_SALT))).update input)
    (Hkdf.hmacKey hash SHA256_BLOCK_LENGTH (salt.getD HKDF_DEFAULT_SALT)) = prk := ⟨_, rfl⟩
  -- expand
  obtain ⟨first, first', first'', hinit', hupdates', hfinal'⟩ := hmac_of_pieces memory ctx''
    (hmacKey_length prk.val) hone
  obtain ⟨ctx₂, hinfo', hupdates'⟩ := Checked.bind_eq_ok.mp hupdates'
  obtain ⟨ctx₃, hcount, hctx₃⟩ := Checked.bind_eq_ok.mp hupdates'
  obtain rfl := Except.ok.inj hctx₃
  rw [List.flatten_cons, List.flatten_cons, List.flatten_nil, List.append_nil,
    ← Sha256Ctx.update_update] at hfinal'
  rw [cryptoHkdfSha256, Olm.hkdfSha256]
  dsimp only
  rw [hmacSha256Key_eq memory hsalt, Olm.hmacSha256Key_eq, Checked.ok_bind, Checked.ok_bind, hinit,
    Checked.ok_bind, hinput', Checked.ok_bind, hfinal, Checked.ok_bind, hprk]
  dsimp only
  rw [hmacSha256Key_eq memory (by rw [FixedBytes.length_val]; decide), Olm.hmacSha256Key_eq,
    Checked.ok_bind, Checked.ok_bind, hinit', Checked.ok_bind, hinfo', Checked.ok_bind, hcount,
    Checked.ok_bind, hfinal', Checked.ok_bind]
  exact hkdfSha256Loop_eq memory (hmacKey_length _) hinfo _ _ _ _ _ _

/-! ## Inputs that are too long -/

/-- An update with a piece of `2 ^ 32` bytes or more ends whatever goes on with
it. -/
theorem eq_error_of_update {ctx : Ctx} {data piece : Bytes} (h : ctx.Represents data)
    (hlong : ¬ piece.length < 2 ^ 32) {α : Type} (f : Ctx → Checked α) :
    (update ctx piece >>= f) = .error .diverges := by
  rw [update, h.updateLoop_diverges (by omega)]
  rfl

theorem hmacSha256Key_diverges {key : Bytes} (hlong : ¬ key.length < 2 ^ 32) :
    hmacSha256Key memory key = .error .diverges := by
  rw [hmacSha256Key, if_pos (by rw [show SHA256_BLOCK_LENGTH = 64 from rfl]; omega)]
  exact eq_error_of_update (init_represents memory) hlong _

theorem cryptoHmacSha256_diverges {key input : Bytes}
    (hlong : ¬ (key.length < 2 ^ 32 ∧ input.length < 2 ^ 32)) :
    cryptoHmacSha256 memory key input = .error .diverges := by
  rw [cryptoHmacSha256]
  by_cases hkey : key.length < 2 ^ 32
  · obtain ⟨ctx, hinit, hctx⟩ := hmacSha256Init_represents memory (hmacKey_length key)
    rw [hmacSha256Key_eq memory hkey, Olm.hmacSha256Key_eq, Checked.ok_bind, hinit, Checked.ok_bind]
    exact eq_error_of_update hctx (fun hinput => hlong ⟨hkey, hinput⟩) _
  · rw [hmacSha256Key_diverges memory hkey, Checked.error_bind]

theorem cryptoHkdfSha256_diverges {input info buf : Bytes} {salt : Option Bytes} {pos outputLength : ℕ}
    (hlong : ¬ ((salt.getD HKDF_DEFAULT_SALT).length < 2 ^ 32 ∧ input.length < 2 ^ 32 ∧
      info.length < 2 ^ 32)) :
    cryptoHkdfSha256 memory input salt info buf pos outputLength = .error .diverges := by
  rw [cryptoHkdfSha256]
  dsimp only
  by_cases hsalt : (salt.getD HKDF_DEFAULT_SALT).length < 2 ^ 32
  · rw [hmacSha256Key_eq memory hsalt, Olm.hmacSha256Key_eq, Checked.ok_bind]
    by_cases hinput : input.length < 2 ^ 32
    · -- the salt and the input are taken in, and the info is not
      have hpieces : ∀ piece ∈ [input], piece.length < 2 ^ 32 := by simpa using hinput
      obtain ⟨ctx, ctx', ctx'', hinit, hupdates, hfinal⟩ := hmac_of_pieces memory memory
        (hmacKey_length (salt.getD HKDF_DEFAULT_SALT)) hpieces
      obtain ⟨ctx₁, hupdate, hctx₁⟩ := Checked.bind_eq_ok.mp hupdates
      obtain rfl := Except.ok.inj hctx₁
      rw [hinit, Checked.ok_bind, hupdate, Checked.ok_bind, hfinal, Checked.ok_bind]
      dsimp only
      rw [hmacSha256Key_eq memory (by rw [FixedBytes.length_val]; decide), Olm.hmacSha256Key_eq,
        Checked.ok_bind]
      obtain ⟨first, hinit', hfirst⟩ := hmacSha256Init_represents ctx'' (hmacKey_length _)
      rw [hinit', Checked.ok_bind]
      exact eq_error_of_update hfirst (fun hinfo => hlong ⟨hsalt, hinput, hinfo⟩) _
    · obtain ⟨ctx, hinit, hctx⟩ := hmacSha256Init_represents memory (hmacKey_length _)
      rw [hinit, Checked.ok_bind]
      exact eq_error_of_update hctx hinput _
  · rw [hmacSha256Key_diverges memory hsalt, Checked.error_bind]

/-- **What the hashes return, and when**: SHA-256, its HMAC and its HKDF, as
their standards define them, of inputs that have less than `2 ^ 32` bytes
each. -/
theorem hashes_return_iff :
    (∀ input output, cryptoSha256 memory input = .ok output ↔
      input.length < 2 ^ 32 ∧ output = hash input) ∧
    (∀ key input output, cryptoHmacSha256 memory key input = .ok output ↔
      key.length < 2 ^ 32 ∧ input.length < 2 ^ 32 ∧
        output = Hkdf.hmac hash SHA256_BLOCK_LENGTH key input) ∧
    ∀ input salt info buf pos outputLength buf',
      cryptoHkdfSha256 memory input salt info buf pos outputLength = .ok buf' ↔
        (salt.getD HKDF_DEFAULT_SALT).length < 2 ^ 32 ∧ input.length < 2 ^ 32 ∧
          info.length < 2 ^ 32 ∧
          writeAt buf pos (Hkdf.expand hash SHA256_BLOCK_LENGTH
            (Hkdf.extract hash SHA256_BLOCK_LENGTH salt input).val info outputLength) = .ok buf' := by
  refine ⟨fun input output => ?_, fun key input output => ?_,
    fun input salt info buf pos outputLength buf' => ?_⟩
  · by_cases hinput : input.length < 2 ^ 32
    · rw [cryptoSha256_eq memory hinput, Except.ok.injEq, eq_comm, and_iff_right hinput]
    · rw [cryptoSha256, eq_error_of_update (init_represents memory) hinput]
      constructor
      · intro h
        cases h
      · intro h
        exact absurd h.1 hinput
  · by_cases hshort : key.length < 2 ^ 32 ∧ input.length < 2 ^ 32
    · rw [cryptoHmacSha256_eq memory hshort.1 hshort.2, Olm.hmacSha256_eq, Except.ok.injEq, eq_comm,
        and_iff_right hshort.1, and_iff_right hshort.2]
    · rw [cryptoHmacSha256_diverges memory hshort]
      constructor
      · intro h
        cases h
      · rintro ⟨hkey, hinput, -⟩
        exact absurd ⟨hkey, hinput⟩ hshort
  · by_cases hshort : (salt.getD HKDF_DEFAULT_SALT).length < 2 ^ 32 ∧ input.length < 2 ^ 32 ∧
      info.length < 2 ^ 32
    · obtain ⟨hsalt, hinput, hinfo⟩ := hshort
      rw [cryptoHkdfSha256_eq memory hinput hsalt hinfo, Olm.hkdfSha256_eq, and_iff_right hsalt,
        and_iff_right hinput, and_iff_right hinfo]
    · rw [cryptoHkdfSha256_diverges memory hshort]
      constructor
      · intro h
        cases h
      · rintro ⟨hsalt, hinput, hinfo, -⟩
        exact absurd ⟨hsalt, hinput, hinfo⟩ hshort

end Sha256

/-- The hashes that the library computes. -/
def Hashes.vendored : Hashes := Hashes.ofSha256 Sha256.hash

end Olm
