import Olm.Base64.RoundTrip
import Olm.Cipher.Objects
import Olm.Group.Model
import Olm.Message.Bounds
import Olm.Pk.Model
import Olm.Ratchet.Spec
import Olm.Symbolic

/-!
# What the callers of the cipher let it touch

The length of a cipher text comes from base64 or from a field of a message,
and no caller looks at it. Each caller is run twice: over a cipher that
only authenticates, which says whether the code verifies, and over one that
faults when a decryption touches anything but its cipher text and its
plaintext buffer. A message whose code verifies comes to its end in the
second run just where its cipher text is whole blocks, one at least
(`decryption_inside_iff`).
-/

namespace Olm

section Ciphers

variable (hashes : Hashes) (aes : Aes256) (kdfInfo : Bytes)

/-- The cipher of a caller that uses one buffer, fenced in. -/
def fencedCipher : Cipher Bytes :=
  { aesSha256 hashes aes kdfInfo with
    decrypt := fun key buf input inputLength ciphertext ciphertextLength maxPlaintextLength =>
      AesSha256.decryptFenced hashes aes kdfInfo key buf input inputLength buf ciphertext
        ciphertextLength maxPlaintextLength }

/-- It, up to the check of the code. -/
def authenticatingCipher : Cipher Bytes :=
  { aesSha256 hashes aes kdfInfo with
    decrypt := fun key buf input inputLength _ ciphertextLength maxPlaintextLength =>
      AesSha256.authenticate hashes kdfInfo key buf input inputLength ciphertextLength
        maxPlaintextLength }

/-- The cipher of `src/pk.cpp`, fenced in. -/
def fencedCipherApart : CipherApart Bytes :=
  { aesSha256Apart hashes aes kdfInfo with
    decrypt := AesSha256.decryptFenced hashes aes kdfInfo }

/-- It, up to the check of the code. -/
def authenticatingCipherApart : CipherApart Bytes :=
  { aesSha256Apart hashes aes kdfInfo with
    decrypt := fun key inputBuf input inputLength _ _ ciphertextLength maxPlaintextLength =>
      AesSha256.authenticate hashes kdfInfo key inputBuf input inputLength ciphertextLength
        maxPlaintextLength }

end Ciphers

/-! ## The ratchet -/

section Ratchet

variable {K : Type}

/-- The configuration with another cipher. -/
def RatchetConfig.withCipher (config : RatchetConfig K) (cipher : Cipher K) : RatchetConfig K :=
  { config with ratchetCipher := cipher }

/-- The keys do not depend on the cipher. -/
theorem advanceChainKeyTo_withCipher (config : RatchetConfig K) (cipher : Cipher K)
    (counter rounds : ℕ) (chainKey : ChainKey K) :
    advanceChainKeyTo (config.withCipher cipher) counter rounds chainKey =
      advanceChainKeyTo config counter rounds chainKey := by
  induction rounds generalizing chainKey with
  | zero => rfl
  | succ rounds ih =>
    rw [advanceChainKeyTo, advanceChainKeyTo, ih]
    rfl

/-- Two runs that refuse the same: where the first one opens something, the
second one faults. -/
def FaultsWhereOpened {β : Type} (x y : Checked (Option β)) : Prop :=
  (x = .ok none ∧ y = .ok none) ∨ ∃ b, x = .ok (some b) ∧ y = .error .outOfBounds

/-- The same, for runs that return something else too. -/
structure FaultsWhere {α β : Type} (x y : Checked (α × Option β)) : Prop where
  of_none : ∀ a, x = .ok (a, none) → y = .ok (a, none)
  of_some : ∀ a b, x = .ok (a, some b) → y = .error .outOfBounds

namespace FaultsWhere

variable {α β γ δ : Type}

/-- A run that opens nothing. -/
theorem of_refused (a : α) : FaultsWhere (.ok (a, none) : Checked (α × Option β)) (.ok (a, none)) := by
  refine ⟨fun _ h => h, fun _ _ h => ?_⟩
  simp only [Except.ok.injEq, Prod.mk.injEq, reduceCtorEq, and_false] at h

/-- A run that returns nothing. -/
theorem of_error (e : Fault) (y : Checked (α × Option β)) : FaultsWhere (.error e) y := by
  constructor
  · intro a h
    cases h
  · intro a b h
    cases h

/-- What is read before is read in both. -/
theorem bind_left (x : Checked γ) {f g : γ → Checked (α × Option β)}
    (h : ∀ c, FaultsWhere (f c) (g c)) : FaultsWhere (x >>= f) (x >>= g) := by
  cases x with
  | ok c => exact h c
  | error e => exact of_error e _

/-- Both go on the same where nothing was opened, and the first one succeeds
where something was. -/
theorem of_opened {x y : Checked (Option β)} (h : FaultsWhereOpened x y)
    {f g : Option β → Checked (γ × Option δ)} {c : γ} (hf : f none = .ok (c, none))
    (hg : g none = .ok (c, none)) (hsome : ∀ b, ∃ c d, f (some b) = .ok (c, some d)) :
    FaultsWhere (x >>= f) (y >>= g) := by
  rcases h with ⟨hx, hy⟩ | ⟨b, hx, hy⟩
  · rw [hx, hy, Checked.ok_bind, Checked.ok_bind, hf, hg]
    exact of_refused c
  · obtain ⟨c', d, hopened⟩ := hsome b
    rw [hx, hy, Checked.ok_bind, Checked.error_bind, hopened]
    refine ⟨fun _ h => ?_, fun _ _ _ => rfl⟩
    simp only [Except.ok.injEq, Prod.mk.injEq, reduceCtorEq, and_false] at h

theorem bind {x y : Checked (α × Option β)} (h : FaultsWhere x y)
    {f g : α × Option β → Checked (γ × Option δ)}
    (hnone : ∀ a, ∃ c, f (a, none) = .ok (c, none) ∧ g (a, none) = .ok (c, none))
    (hsome : ∀ a b, ∃ c d, f (a, some b) = .ok (c, some d)) :
    FaultsWhere (x >>= f) (y >>= g) := by
  cases x with
  | error e => exact of_error e _
  | ok result =>
    obtain ⟨a, opened⟩ := result
    cases opened with
    | none =>
      obtain ⟨c, hf, hg⟩ := hnone a
      rw [h.of_none a rfl, Checked.ok_bind, Checked.ok_bind, hf, hg]
      exact of_refused c
    | some b =>
      obtain ⟨c, d, hf⟩ := hsome a b
      rw [h.of_some a b rfl, Checked.ok_bind, Checked.error_bind, hf]
      refine ⟨fun _ h => ?_, fun _ _ _ => rfl⟩
      simp only [Except.ok.injEq, Prod.mk.injEq, reduceCtorEq, and_false] at h

end FaultsWhere

namespace Ratchet

variable {config : RatchetConfig K} {first second : Cipher K} {buf : Bytes} {reader : MessageReader}
  {maxPlaintextLength : ℕ}

section Faults

variable (hverify : ∀ messageKey, FaultsWhereOpened
  (verifyMacAndDecrypt (config.withCipher first) messageKey buf reader maxPlaintextLength)
  (verifyMacAndDecrypt (config.withCipher second) messageKey buf reader maxPlaintextLength))
include hverify

theorem existingChain_faultsWhere (chain : ChainKey K) (lastError : OlmErrorCode) :
    FaultsWhere
      (verifyMacAndDecryptForExistingChain (config.withCipher first) chain buf reader
        maxPlaintextLength lastError)
      (verifyMacAndDecryptForExistingChain (config.withCipher second) chain buf reader
        maxPlaintextLength lastError) := by
  unfold verifyMacAndDecryptForExistingChain
  rw [advanceChainKeyTo_withCipher, advanceChainKeyTo_withCipher]
  split
  · exact .of_refused _
  · split
    · exact .of_refused _
    · exact .of_opened (hverify (createMessageKeys config _)) rfl rfl fun _ => ⟨_, _, rfl⟩

theorem newChain_faultsWhere (ratchet : Ratchet K) :
    FaultsWhere
      (verifyMacAndDecryptForNewChain (config.withCipher first) ratchet buf reader
        maxPlaintextLength)
      (verifyMacAndDecryptForNewChain (config.withCipher second) ratchet buf reader
        maxPlaintextLength) := by
  unfold verifyMacAndDecryptForNewChain
  split
  · exact .of_refused _
  · split
    · exact .of_refused _
    · exact .bind_left _ fun _ => .bind_left _ fun _ =>
        existingChain_faultsWhere hverify _ ratchet.lastError

theorem trySkipped_faultsWhere (ratchetKey : Curve25519PublicKey)
    (skipped : List (SkippedMessageKey K)) (place : ℕ) :
    FaultsWhereOpened
      (trySkippedMessageKeys (config.withCipher first) ratchetKey buf reader maxPlaintextLength
        skipped place)
      (trySkippedMessageKeys (config.withCipher second) ratchetKey buf reader maxPlaintextLength
        skipped place) := by
  induction skipped generalizing place with
  | nil => exact .inl ⟨rfl, rfl⟩
  | cons key rest ih =>
    rw [trySkippedMessageKeys, trySkippedMessageKeys]
    split
    · rcases hverify key.messageKey with ⟨hx, hy⟩ | ⟨plaintext, hx, hy⟩
      · rw [hx, hy]
        exact ih (place + 1)
      · rw [hx, hy]
        exact .inr ⟨_, rfl, rfl⟩
    · exact ih (place + 1)

theorem decryptReader_faultsWhere (ratchet : Ratchet K) (ratchetKey : Curve25519PublicKey)
    (isSequential : Bool) :
    FaultsWhere
      (ratchet.decryptReader (config.withCipher first) buf reader ratchetKey maxPlaintextLength
        isSequential)
      (ratchet.decryptReader (config.withCipher second) buf reader ratchetKey maxPlaintextLength
        isSequential) := by
  unfold decryptReader
  split
  · -- a message of a new chain: a sender chain was there if it was opened
    cases hsender : ratchet.senderChain.toList with
    | nil =>
      unfold verifyMacAndDecryptForNewChain
      rw [hsender]
      exact .of_refused _
    | cons senderChain rest =>
      exact (newChain_faultsWhere hverify ratchet).bind (fun _ => ⟨_, rfl, rfl⟩)
        fun _ _ => ⟨_, _, rfl⟩
  · rename_i place _
    show FaultsWhere (if _ then _ else _) (if _ then _ else _)
    split
    · exact .of_refused _
    · split
      · exact .of_opened (trySkipped_faultsWhere hverify ratchetKey _ 0) rfl rfl
          fun _ => ⟨_, _, rfl⟩
      · exact (existingChain_faultsWhere hverify _ ratchet.lastError).bind
          (fun _ => ⟨_, rfl, rfl⟩) fun _ _ => ⟨_, _, rfl⟩

end Faults

section Returns

variable (hverify : ∀ messageKey, ∃ result,
  verifyMacAndDecrypt config messageKey buf reader maxPlaintextLength = .ok result)
include hverify

theorem existingChain_returns (chain : ChainKey K) (lastError : OlmErrorCode) :
    ∃ result, verifyMacAndDecryptForExistingChain config chain buf reader maxPlaintextLength
      lastError = .ok result := by
  unfold verifyMacAndDecryptForExistingChain
  split
  · exact ⟨_, rfl⟩
  · split
    · exact ⟨_, rfl⟩
    · obtain ⟨result, hresult⟩ := hverify (createMessageKeys config
        (advanceChainKeyTo config reader.counter.value (reader.counter.value - chain.index) chain))
      simp only [hresult, Checked.ok_bind]
      exact ⟨_, rfl⟩

theorem newChain_returns (ratchet : Ratchet K) {pos : ℕ} {ratchetKey : Curve25519PublicKey}
    (hpos : reader.ratchetKey.value = some pos)
    (hload : loadArray CURVE25519_KEY_LENGTH buf pos = .ok ratchetKey) :
    ∃ result, verifyMacAndDecryptForNewChain config ratchet buf reader maxPlaintextLength =
      .ok result := by
  unfold verifyMacAndDecryptForNewChain
  split
  · exact ⟨_, rfl⟩
  · split
    · exact ⟨_, rfl⟩
    · simp only [hpos, nonNull, Checked.ok_bind, hload]
      exact existingChain_returns hverify _ _

theorem trySkipped_returns (ratchetKey : Curve25519PublicKey)
    (skipped : List (SkippedMessageKey K)) (place : ℕ) :
    ∃ result, trySkippedMessageKeys config ratchetKey buf reader maxPlaintextLength skipped place =
      .ok result := by
  induction skipped generalizing place with
  | nil => exact ⟨none, rfl⟩
  | cons key rest ih =>
    rw [trySkippedMessageKeys]
    split
    · obtain ⟨result, hresult⟩ := hverify key.messageKey
      rw [hresult, Checked.ok_bind]
      cases result with
      | none => exact ih (place + 1)
      | some plaintext => exact ⟨_, rfl⟩
    · exact ih (place + 1)

theorem decryptReader_returns (ratchet : Ratchet K) {pos : ℕ} {ratchetKey : Curve25519PublicKey}
    (hpos : reader.ratchetKey.value = some pos)
    (hload : loadArray CURVE25519_KEY_LENGTH buf pos = .ok ratchetKey) (isSequential : Bool) :
    ∃ result, ratchet.decryptReader config buf reader ratchetKey maxPlaintextLength isSequential =
      .ok result := by
  unfold decryptReader
  split
  · obtain ⟨⟨lastError, result⟩, hresult⟩ := newChain_returns hverify ratchet hpos hload
    rw [hresult, Checked.ok_bind]
    cases result with
    | none => exact ⟨_, rfl⟩
    | some plaintext =>
      cases hsender : ratchet.senderChain.toList with
      | nil => exact absurd hsender (senderChain_ne_nil_of_newChain hresult)
      | cons senderChain rest => exact ⟨_, rfl⟩
  · rename_i place _
    obtain ⟨chain, hchain⟩ : ∃ chain, ratchet.receiverChains.toList[place] = chain := ⟨_, rfl⟩
    simp only [hchain]
    split
    · exact ⟨_, rfl⟩
    · split
      · obtain ⟨result, hresult⟩ := trySkipped_returns hverify ratchetKey
          ratchet.skippedMessageKeys.toList 0
        rw [hresult, Checked.ok_bind]
        cases result with
        | none => exact ⟨_, rfl⟩
        | some opened => exact ⟨_, rfl⟩
      · obtain ⟨⟨lastError, result⟩, hresult⟩ := existingChain_returns hverify
          chain.chainKey ratchet.lastError
        simp only [hresult, Checked.ok_bind]
        cases result with
        | none => exact ⟨_, rfl⟩
        | some plaintext => exact ⟨_, rfl⟩

end Returns

end Ratchet

/-- What `decrypt` checks before it tries a key does not depend on what the
cipher opens. -/
theorem Ratchet.decrypt_eq_of_some {config : RatchetConfig K} {first second : Cipher K}
    (hmacLength : second.macLength = first.macLength)
    (hmaxLength : second.decryptMaxPlaintextLength = first.decryptMaxPlaintextLength)
    {ratchet ratchet' : Ratchet K} {buf plaintext : Bytes}
    {input inputLength maxPlaintextLength : ℕ} {isSequential : Bool}
    (h : ratchet.decrypt (config.withCipher first) buf input inputLength maxPlaintextLength
      isSequential = .ok (ratchet', some plaintext)) :
    ∃ reader pos ciphertext ratchetKey,
      decodeMessage buf input inputLength first.macLength = .ok reader ∧
      reader.ratchetKey.value = some pos ∧ reader.ciphertext.value = some ciphertext ∧
      loadArray CURVE25519_KEY_LENGTH buf pos = .ok ratchetKey ∧
      ratchet.decryptReader (config.withCipher first) buf reader ratchetKey maxPlaintextLength
        isSequential = .ok (ratchet', some plaintext) ∧
      ratchet.decrypt (config.withCipher second) buf input inputLength maxPlaintextLength
        isSequential = ratchet.decryptReader (config.withCipher second) buf reader ratchetKey
          maxPlaintextLength isSequential := by
  have hfail : ∀ (code : OlmErrorCode),
      ratchet.fail code ≠ (.ok (ratchet', some plaintext) : Checked (Ratchet K × Option Bytes)) := by
    intro code h
    simp only [Ratchet.fail, Except.ok.injEq, Prod.mk.injEq, reduceCtorEq, and_false] at h
  have hcipher : ∀ cipher : Cipher K, (config.withCipher cipher).ratchetCipher = cipher :=
    fun _ => rfl
  unfold Ratchet.decrypt at h ⊢
  simp only [hcipher, hmacLength, hmaxLength] at h ⊢
  obtain ⟨reader, hreader, h⟩ := Checked.bind_eq_ok.mp h
  split at h
  · exact absurd h (hfail _)
  · rename_i hversion
    split at h
    · exact absurd h (hfail _)
    · rename_i hfields
      split at h
      · exact absurd h (hfail _)
      · rename_i hmax
        split at h
        · exact absurd h (hfail _)
        · rename_i hkeyLength
          obtain ⟨pos, hpos, h⟩ := Checked.bind_eq_ok.mp h
          obtain ⟨ratchetKey, hload, h⟩ := Checked.bind_eq_ok.mp h
          -- the two fields that are read through were found
          have hvalue : reader.ratchetKey.value = some pos := by
            cases hkey : reader.ratchetKey.value with
            | none =>
              rw [hkey] at hpos
              cases hpos
            | some p =>
              rw [hkey] at hpos
              cases hpos
              rfl
          obtain ⟨ciphertext, hciphertext⟩ : ∃ ciphertext, reader.ciphertext.value =
              some ciphertext := by
            cases htext : reader.ciphertext.value with
            | none =>
              rw [htext] at hfields
              simp at hfields
            | some c => exact ⟨c, rfl⟩
          refine ⟨reader, pos, ciphertext, ratchetKey, hreader, hvalue, hciphertext, hload, h, ?_⟩
          simp only [hreader, Checked.ok_bind, hpos, hload]
          rw [if_neg hversion, if_neg hfields, if_neg hmax, if_neg hkeyLength]

variable (hashes : Hashes) (aes : Aes256) (kdfInfo : Bytes) (config : RatchetConfig K)
  (bytesOf : K → Bytes)

/-- **What `Ratchet::decrypt` lets the cipher touch**, for a message of which the
code verifies under one of the keys that are tried. -/
theorem Ratchet.decrypt_inside_iff {ratchet ratchet' : Ratchet K} {buf plaintext : Bytes}
    {input inputLength maxPlaintextLength : ℕ} {isSequential : Bool} {reader : MessageReader}
    (hfit : input + inputLength ≤ buf.length)
    (hreader : decodeMessage buf input inputLength MAC_LENGTH = .ok reader)
    (hverifies : ratchet.decrypt
      (config.withCipher ((authenticatingCipher hashes aes kdfInfo).comap bytesOf)) buf input
      inputLength maxPlaintextLength isSequential = .ok (ratchet', some plaintext)) :
    (∃ result, ratchet.decrypt
      (config.withCipher ((fencedCipher hashes aes kdfInfo).comap bytesOf)) buf input inputLength
      maxPlaintextLength isSequential = .ok result) ↔ WholeBlocks reader.ciphertext.length := by
  have hmacLength : ((fencedCipher hashes aes kdfInfo).comap bytesOf).macLength =
      ((authenticatingCipher hashes aes kdfInfo).comap bytesOf).macLength := rfl
  have hmaxLength : ((fencedCipher hashes aes kdfInfo).comap bytesOf).decryptMaxPlaintextLength =
      ((authenticatingCipher hashes aes kdfInfo).comap bytesOf).decryptMaxPlaintextLength := rfl
  obtain ⟨read, pos, ciphertext, ratchetKey, hread, hpos, hciphertext, hload, hopened, hfenced⟩ :=
    Ratchet.decrypt_eq_of_some hmacLength hmaxLength hverifies
  obtain ⟨read', hread', hbounds, hinput, hlength⟩ := decodeMessage_bounds MAC_LENGTH hfit
  have hsame : reader = read := Except.ok.inj (hreader.symm.trans hread)
  have hsame' : reader = read' := Except.ok.inj (hreader.symm.trans hread')
  subst hsame hsame'
  obtain ⟨-, hend⟩ := hbounds.ciphertext ciphertext hciphertext
  have hcut : ciphertext + reader.ciphertext.length ≤ buf.length := hend.trans hfit
  have hinside : reader.input + reader.inputLength ≤ buf.length := by
    rw [hinput, hlength]
    exact hfit
  rw [hfenced]
  -- what each key gives in the two runs
  have hverify : ∀ (cipher : Cipher K) (messageKey : MessageKey K),
      verifyMacAndDecrypt (config.withCipher cipher) messageKey buf reader maxPlaintextLength =
        cipher.decrypt messageKey.key buf reader.input reader.inputLength ciphertext
          reader.ciphertext.length maxPlaintextLength := by
    intro cipher messageKey
    unfold verifyMacAndDecrypt
    rw [hciphertext]
    rfl
  have hcode : ∀ messageKey : MessageKey K, ∃ result, AesSha256.authenticate hashes kdfInfo
      (bytesOf messageKey.key) buf reader.input reader.inputLength reader.ciphertext.length
      maxPlaintextLength = .ok result := fun _ => AesSha256.authenticate_returns hinside
  constructor
  · intro hreturns
    by_contra hblocks
    -- a key that does not verify refuses in both runs, one that does faults in the second
    have hfaults : ∀ messageKey, FaultsWhereOpened
        (verifyMacAndDecrypt (config.withCipher ((authenticatingCipher hashes aes kdfInfo).comap
          bytesOf)) messageKey buf reader maxPlaintextLength)
        (verifyMacAndDecrypt (config.withCipher ((fencedCipher hashes aes kdfInfo).comap bytesOf))
          messageKey buf reader maxPlaintextLength) := by
      intro messageKey
      rw [hverify, hverify]
      obtain ⟨result, hresult⟩ := hcode messageKey
      cases result with
      | none => exact .inl ⟨hresult, AesSha256.decryptFenced_of_none aes hresult⟩
      | some opened =>
        exact .inr ⟨opened, hresult,
          AesSha256.decryptFenced_of_not_wholeBlocks aes hcut hresult hblocks⟩
    have hfault := (decryptReader_faultsWhere hfaults ratchet ratchetKey isSequential).of_some _ _
      hopened
    obtain ⟨result, hresult⟩ := hreturns
    rw [hfault] at hresult
    cases hresult
  · intro hblocks
    refine decryptReader_returns (fun messageKey => ?_) ratchet hpos hload isSequential
    rw [hverify]
    obtain ⟨result, hresult⟩ := hcode messageKey
    cases result with
    | none => exact ⟨none, AesSha256.decryptFenced_of_none aes hresult⟩
    | some opened => exact AesSha256.decryptFenced_of_wholeBlocks aes hcut hresult hblocks

end Ratchet

/-! ## Public key encryption -/

section Pk

variable (curve : Curve25519) (hashes : Hashes) (aes : Aes256) (kdfInfo : Bytes)

/-- **What `olm_pk_decrypt` lets the cipher touch**, where the code verifies. -/
theorem OlmPkDecryption.decrypt_inside_iff {decryption decryption' : OlmPkDecryption}
    {ephemeralKey mac ciphertext plaintext : Bytes} {maxPlaintextLength rawCiphertextLength : ℕ}
    (hlength : decodeBase64Length ciphertext.length = some rawCiphertextLength)
    (hverifies : decryption.decrypt
      { curve := curve, cipher := authenticatingCipherApart hashes aes kdfInfo } ephemeralKey mac
      ciphertext maxPlaintextLength = .ok (decryption', some plaintext)) :
    (∃ result, decryption.decrypt
      { curve := curve, cipher := fencedCipherApart hashes aes kdfInfo } ephemeralKey mac ciphertext
      maxPlaintextLength = .ok result) ↔ WholeBlocks rawCiphertextLength := by
  have hfail : ∀ (code : OlmErrorCode), decryption.fail code ≠
      (.ok (decryption', some plaintext) : Checked (OlmPkDecryption × Option Bytes)) := by
    intro code h
    simp only [OlmPkDecryption.fail, Except.ok.injEq, Prod.mk.injEq, reduceCtorEq, and_false] at h
  have hmaxLength : OlmPkDecryption.maxPlaintextLength
      { curve := curve, cipher := authenticatingCipherApart hashes aes kdfInfo } ciphertext.length =
      OlmPkDecryption.maxPlaintextLength
      { curve := curve, cipher := fencedCipherApart hashes aes kdfInfo } ciphertext.length := rfl
  unfold OlmPkDecryption.decrypt at hverifies ⊢
  rw [hmaxLength, hlength] at hverifies
  rw [hlength]
  split at hverifies
  · exact absurd hverifies (hfail _)
  · rename_i hmax
    rw [if_neg hmax]
    simp only at hverifies ⊢
    split at hverifies
    · exact absurd hverifies (hfail _)
    · rename_i hlengths
      rw [if_neg hlengths]
      obtain ⟨⟨ephemeralBuf, _⟩, hephemeral, h⟩ := Checked.bind_eq_ok.mp hverifies
      obtain ⟨ephemeral, hload, h⟩ := Checked.bind_eq_ok.mp h
      obtain ⟨⟨rawMac, _⟩, hmac, h⟩ := Checked.bind_eq_ok.mp h
      obtain ⟨⟨buf, _⟩, hdecode, h⟩ := Checked.bind_eq_ok.mp h
      obtain ⟨result, hresult, h⟩ := Checked.bind_eq_ok.mp h
      simp only [hephemeral, Checked.ok_bind, hload, hmac, hdecode]
      cases result with
      | none => exact absurd h (hfail _)
      | some opened =>
        -- the buffer holds what the base64 decodes to, so the cipher text is inside it
        have hcut : 0 + rawCiphertextLength ≤ buf.length := by
          obtain ⟨rest, hwithin⟩ := decodeBase64_within_of_length hlength
          rw [hwithin] at hdecode
          cases hdecode
          rw [List.length_append, length_decode hlength]
          omega
        exact AesSha256.decryptFenced_bind_iff aes hcut hresult fun
          | none => ⟨_, rfl⟩
          | some _ => ⟨_, rfl⟩

end Pk

/-! ## Groups -/

namespace InboundGroupSession

variable (prims : GroupPrimitives)

/-- The end of `_decrypt`, over any cipher. -/
def decryptDecodedWith (cipher : Cipher Bytes) (session : InboundGroupSession) (message : Bytes)
    (messageLength : ℕ) (messageIndex : UInt32)
    (ciphertext ciphertextLength maxPlaintextLength : ℕ) :
    Checked (InboundGroupSession × Option Bytes) := do
  let messageLength := messageLength - ED25519_SIGNATURE_LENGTH
  let signature ← loadArray ED25519_SIGNATURE_LENGTH message messageLength
  if !prims.ed25519.verify session.signingKey (← readBytes message 0 messageLength) signature then
    session.fail .BAD_SIGNATURE
  else if maxPlaintextLength < cipher.decryptMaxPlaintextLength ciphertextLength then
    session.fail .OUTPUT_BUFFER_TOO_SMALL
  else
    match session.getMegolm prims messageIndex with
    | (session, none) => .ok (session, none)
    | (session, some megolm) => do
      match ← cipher.decrypt megolm.getData message 0 messageLength ciphertext ciphertextLength
          maxPlaintextLength with
      | none => session.fail .BAD_MESSAGE_MAC
      | some plaintext => .ok ({ session with signingKeyVerified := true }, some plaintext)

/-- `_decrypt`, over any cipher. -/
def decryptWith (cipher : Cipher Bytes) (session : InboundGroupSession) (message : Bytes)
    (messageLength maxPlaintextLength : ℕ) : Checked GroupDecryption := do
  let decodedResults ← decodeGroupMessage message messageLength cipher.macLength
    ED25519_SIGNATURE_LENGTH
  if decodedResults.version ≠ OLM_PROTOCOL_VERSION then
    .ok ⟨{ session with lastError := .BAD_MESSAGE_VERSION }, none, none⟩
  else
    match decodedResults.messageIndex.hasValue, decodedResults.ciphertext.value with
    | true, some ciphertext => do
      let messageIndex := UInt32.ofNat decodedResults.messageIndex.value
      let (session, plaintext) ← session.decryptDecodedWith prims cipher message messageLength
        messageIndex ciphertext decodedResults.ciphertext.length maxPlaintextLength
      .ok ⟨session, some messageIndex, plaintext⟩
    | _, _ => .ok ⟨{ session with lastError := .BAD_MESSAGE_FORMAT }, none, none⟩

/-- The library's is `megolm_cipher`. -/
theorem decrypt_eq_decryptWith (session : InboundGroupSession) (message : Bytes)
    (messageLength maxPlaintextLength : ℕ) :
    session.decrypt prims message messageLength maxPlaintextLength =
      session.decryptWith prims prims.megolmCipher message messageLength maxPlaintextLength := rfl

variable {prims} (hashes : Hashes) (aes : Aes256) (kdfInfo : Bytes)

/-- The end of `_decrypt` stays inside the cipher text just where it is whole
blocks. -/
theorem decryptDecodedWith_inside_iff {session session' : InboundGroupSession}
    {message plaintext : Bytes} {messageLength ciphertext ciphertextLength maxPlaintextLength : ℕ}
    {messageIndex : UInt32} (hcut : ciphertext + ciphertextLength ≤ message.length)
    (hverifies : session.decryptDecodedWith prims (authenticatingCipher hashes aes kdfInfo) message
      messageLength messageIndex ciphertext ciphertextLength maxPlaintextLength =
      .ok (session', some plaintext)) :
    (∃ result, session.decryptDecodedWith prims (fencedCipher hashes aes kdfInfo) message
      messageLength messageIndex ciphertext ciphertextLength maxPlaintextLength = .ok result) ↔
      WholeBlocks ciphertextLength := by
  have hfail : ∀ (session : InboundGroupSession) (code : OlmErrorCode), session.fail code ≠
      (.ok (session', some plaintext) : Checked (InboundGroupSession × Option Bytes)) := by
    intro session code h
    simp only [InboundGroupSession.fail, Except.ok.injEq, Prod.mk.injEq, reduceCtorEq, and_false]
      at h
  have hmaxLength : (authenticatingCipher hashes aes kdfInfo).decryptMaxPlaintextLength =
      (fencedCipher hashes aes kdfInfo).decryptMaxPlaintextLength := rfl
  unfold decryptDecodedWith at hverifies ⊢
  rw [hmaxLength] at hverifies
  simp only at hverifies ⊢
  obtain ⟨signature, hsignature, h⟩ := Checked.bind_eq_ok.mp hverifies
  obtain ⟨signed, hsigned, h⟩ := Checked.bind_eq_ok.mp h
  simp only [hsignature, hsigned, Checked.ok_bind]
  split at h
  · exact absurd h (hfail _ _)
  · rename_i hverify
    rw [if_neg hverify]
    split at h
    · exact absurd h (hfail _ _)
    · rename_i hmax
      rw [if_neg hmax]
      cases hmegolm : session.getMegolm prims messageIndex with
      | mk session₁ found =>
        rw [hmegolm] at h
        cases found with
        | none =>
          simp only [Except.ok.injEq, Prod.mk.injEq, reduceCtorEq, and_false] at h
        | some megolm =>
          obtain ⟨result, hresult, h⟩ := Checked.bind_eq_ok.mp h
          cases result with
          | none => exact absurd h (hfail _ _)
          | some opened =>
            exact AesSha256.decryptFenced_bind_iff aes hcut hresult fun
              | none => ⟨_, rfl⟩
              | some _ => ⟨_, rfl⟩

/-- **What the group `_decrypt` lets the cipher touch**, for a message of which the
signature and the code verify. -/
theorem decryptWith_inside_iff {session : InboundGroupSession} {decryption : GroupDecryption}
    {message : Bytes} {messageLength maxPlaintextLength : ℕ} {reader : GroupMessageReader}
    (hfit : messageLength ≤ message.length)
    (hreader : decodeGroupMessage message messageLength MAC_LENGTH ED25519_SIGNATURE_LENGTH =
      .ok reader)
    (hverifies : session.decryptWith prims (authenticatingCipher hashes aes kdfInfo) message
      messageLength maxPlaintextLength = .ok decryption) (hopened : decryption.plaintext.isSome) :
    (∃ result, session.decryptWith prims (fencedCipher hashes aes kdfInfo) message messageLength
      maxPlaintextLength = .ok result) ↔ WholeBlocks reader.ciphertext.length := by
  have hmacLength : (authenticatingCipher hashes aes kdfInfo).macLength = MAC_LENGTH := rfl
  have hmacLength' : (fencedCipher hashes aes kdfInfo).macLength = MAC_LENGTH := rfl
  obtain ⟨reader', hreader', hbounds, -⟩ := decodeGroupMessage_payload
    (show messageLength - (MAC_LENGTH + ED25519_SIGNATURE_LENGTH) ≤ message.length by omega)
  have hsame : reader = reader' := Except.ok.inj (hreader.symm.trans hreader')
  subst hsame
  unfold decryptWith at hverifies ⊢
  rw [hmacLength, hreader, Checked.ok_bind] at hverifies
  rw [hmacLength', hreader, Checked.ok_bind]
  split at hverifies
  · cases hverifies
    cases hopened
  · rename_i hversion
    rw [if_neg hversion]
    cases hindex : reader.messageIndex.hasValue with
    | false =>
      rw [hindex] at hverifies
      cases hverifies
      cases hopened
    | true =>
      rw [hindex] at hverifies
      cases hvalue : reader.ciphertext.value with
      | none =>
        rw [hvalue] at hverifies
        cases hverifies
        cases hopened
      | some ciphertext =>
        rw [hvalue] at hverifies
        obtain ⟨⟨session', result⟩, hresult, h⟩ := Checked.bind_eq_ok.mp hverifies
        cases h
        obtain ⟨plaintext, rfl⟩ := Option.isSome_iff_exists.mp hopened
        obtain ⟨-, hend⟩ := hbounds.ciphertext ciphertext hvalue
        -- what comes after the decryption never faults
        rw [← decryptDecodedWith_inside_iff hashes aes kdfInfo (by omega) hresult]
        constructor
        · rintro ⟨result, hreturns⟩
          obtain ⟨inner, hinner, -⟩ := Checked.bind_eq_ok.mp hreturns
          exact ⟨inner, hinner⟩
        · rintro ⟨⟨session₁, plaintext₁⟩, hinner⟩
          simp only [hinner, Checked.ok_bind]
          exact ⟨_, rfl⟩

end InboundGroupSession

/-! ## All of them -/

/-- **A decryption whose code verifies stays inside its cipher text and its
plaintext buffer just where the cipher text is whole blocks**, one at least:
of `aes_sha_256_cipher_decrypt` itself, and of the cipher text that
`olm_pk_decrypt`, `Ratchet::decrypt` and the group `_decrypt` pass to it. -/
theorem decryption_inside_iff (hashes : Hashes) (aes : Aes256) (kdfInfo : Bytes) :
    (∀ (key inputBuf : Bytes) (input inputLength : ℕ) (ciphertextBuf : Bytes)
        (ciphertext ciphertextLength maxPlaintextLength : ℕ) (plaintext : Bytes),
      ciphertext + ciphertextLength ≤ ciphertextBuf.length →
      AesSha256.authenticate hashes kdfInfo key inputBuf input inputLength ciphertextLength
        maxPlaintextLength = .ok (some plaintext) →
      ((∃ result, AesSha256.decryptFenced hashes aes kdfInfo key inputBuf input inputLength
        ciphertextBuf ciphertext ciphertextLength maxPlaintextLength = .ok result) ↔
        WholeBlocks ciphertextLength)) ∧
    (∀ (curve : Curve25519) (decryption decryption' : OlmPkDecryption)
        (ephemeralKey mac ciphertext plaintext : Bytes) (maxPlaintextLength rawLength : ℕ),
      decodeBase64Length ciphertext.length = some rawLength →
      decryption.decrypt ⟨curve, authenticatingCipherApart hashes aes kdfInfo⟩ ephemeralKey mac
        ciphertext maxPlaintextLength = .ok (decryption', some plaintext) →
      ((∃ result, decryption.decrypt ⟨curve, fencedCipherApart hashes aes kdfInfo⟩ ephemeralKey mac
        ciphertext maxPlaintextLength = .ok result) ↔ WholeBlocks rawLength)) ∧
    (∀ (config : RatchetConfig SharedKey) (ratchet ratchet' : Ratchet SharedKey)
        (buf plaintext : Bytes) (input inputLength maxPlaintextLength : ℕ) (isSequential : Bool)
        (reader : MessageReader),
      input + inputLength ≤ buf.length →
      decodeMessage buf input inputLength MAC_LENGTH = .ok reader →
      ratchet.decrypt
        (config.withCipher ((authenticatingCipher hashes aes kdfInfo).comap Subtype.val)) buf input
        inputLength maxPlaintextLength isSequential = .ok (ratchet', some plaintext) →
      ((∃ result, ratchet.decrypt
        (config.withCipher ((fencedCipher hashes aes kdfInfo).comap Subtype.val)) buf input
        inputLength maxPlaintextLength isSequential = .ok result) ↔
        WholeBlocks reader.ciphertext.length)) ∧
    ∀ (prims : GroupPrimitives) (session : InboundGroupSession) (decryption : GroupDecryption)
        (message : Bytes) (messageLength maxPlaintextLength : ℕ) (reader : GroupMessageReader),
      messageLength ≤ message.length →
      decodeGroupMessage message messageLength MAC_LENGTH ED25519_SIGNATURE_LENGTH = .ok reader →
      session.decryptWith prims (authenticatingCipher hashes aes kdfInfo) message messageLength
        maxPlaintextLength = .ok decryption → decryption.plaintext.isSome →
      ((∃ result, session.decryptWith prims (fencedCipher hashes aes kdfInfo) message messageLength
        maxPlaintextLength = .ok result) ↔ WholeBlocks reader.ciphertext.length) := by
  refine ⟨?_, ?_, ?_, ?_⟩
  · intro key inputBuf input inputLength buf ciphertext ciphertextLength maxPlaintextLength plaintext
      hcut hverifies
    have hinside := AesSha256.decryptFenced_bind_iff aes hcut hverifies
      (fun result => ⟨result, rfl⟩ : ∀ result, ∃ a, (pure result : Checked (Option Bytes)) = .ok a)
    rwa [bind_pure] at hinside
  · intro curve decryption decryption' ephemeralKey mac ciphertext plaintext maxPlaintextLength
      rawLength hlength hverifies
    exact OlmPkDecryption.decrypt_inside_iff curve hashes aes kdfInfo hlength hverifies
  · intro config ratchet ratchet' buf plaintext input inputLength maxPlaintextLength isSequential
      reader hfit hreader hverifies
    exact Ratchet.decrypt_inside_iff hashes aes kdfInfo config Subtype.val hfit hreader hverifies
  · intro prims session decryption message messageLength maxPlaintextLength reader hfit hreader
      hverifies hopened
    exact InboundGroupSession.decryptWith_inside_iff hashes aes kdfInfo hfit hreader hverifies
      hopened

/-! ## Messages whose code verifies -/

/-- A ratchet with one receiver chain, of a key of zeros. -/
def Ratchet.zeroChain : Ratchet SharedKey where
  lastError := .SUCCESS
  rootKey := FixedBytes.zero _
  senderChain := .empty
  receiverChains := BoundedList.empty.push ⟨FixedBytes.zero _, ⟨0, FixedBytes.zero _⟩⟩
  skippedMessageKeys := .empty

/-- A message on that chain: a block of zeros, and a code of zeros. -/
def zeroChainMessage : Bytes :=
  [3, RATCHET_KEY_TAG, 32] ++ List.replicate 32 0 ++ [COUNTER_TAG, 0, CIPHERTEXT_TAG, 16] ++
    List.replicate 24 0

/-- A group message at index 0: a block, a code and a signature of zeros. -/
def zeroGroupMessage : Bytes :=
  [3, GROUP_MESSAGE_INDEX_TAG, 0, GROUP_CIPHERTEXT_TAG, 16] ++ List.replicate 88 0

theorem decryption_inside_iff_zero :
    ((∃ result, AesSha256.decryptFenced .zero .identity [] [] (List.replicate 8 0) 0 8
      (List.replicate 16 0) 0 16 16 = .ok result) ↔ WholeBlocks 16) ∧
    ((∃ result, OlmPkDecryption.decrypt ⟨.xor, fencedCipherApart .zero .identity []⟩
      ⟨.SUCCESS, Curve25519.xor.generateKey (FixedBytes.zero _)⟩ (List.replicate 43 0x41)
      (List.replicate 11 0x41) (List.replicate 22 0x41) 16 = .ok result) ↔ WholeBlocks 16) ∧
    ((∃ result, Ratchet.zeroChain.decrypt
      ((Primitives.ofHashes .xor .accepting .zero .identity).ratchetConfig.withCipher
        ((fencedCipher .zero .identity []).comap Subtype.val)) zeroChainMessage 0 63 16 false =
        .ok result) ↔ WholeBlocks 16) ∧
    ((∃ result, InboundGroupSession.new.decryptWith .symbolic (fencedCipher .zero .identity [])
      zeroGroupMessage 93 16 = .ok result) ↔ WholeBlocks 16) := by
  obtain ⟨hcipher, hpk, hratchet, hgroup⟩ := decryption_inside_iff .zero .identity []
  exact ⟨hcipher [] (List.replicate 8 0) 0 8 (List.replicate 16 0) 0 16 16 [] (by decide) rfl,
    hpk .xor _ _ _ _ _ _ _ _ rfl rfl,
    hratchet _ _ _ zeroChainMessage _ 0 63 16 false _ (by decide) rfl rfl,
    hgroup _ _ _ zeroGroupMessage 93 16 _ (by decide) rfl rfl rfl⟩

/-- A cipher text of no bytes, and one of half a block. -/
theorem not_decryption_inside :
    (AesSha256.authenticate .zero [] [] (List.replicate 8 0) 0 8 0 16 = .ok (some []) ∧
      AesSha256.decryptFenced .zero .identity [] [] (List.replicate 8 0) 0 8 [] 0 0 16 =
        .error .outOfBounds) ∧
    AesSha256.authenticate .zero [] [] (List.replicate 8 0) 0 8 8 16 = .ok (some []) ∧
      AesSha256.decryptFenced .zero .identity [] [] (List.replicate 8 0) 0 8 (List.replicate 8 0) 0
        8 16 = .error .outOfBounds := by
  have hempty : AesSha256.authenticate .zero [] [] (List.replicate 8 0) 0 8 0 16 =
      .ok (some []) := rfl
  have hhalf : AesSha256.authenticate .zero [] [] (List.replicate 8 0) 0 8 8 16 =
      .ok (some []) := rfl
  refine ⟨⟨hempty, ?_⟩, hhalf, ?_⟩
  · exact AesSha256.decryptFenced_of_not_wholeBlocks .identity (by decide) hempty (by decide)
  · exact AesSha256.decryptFenced_of_not_wholeBlocks .identity (by decide) hhalf (by decide)

end Olm
