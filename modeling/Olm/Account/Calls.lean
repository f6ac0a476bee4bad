import Olm.Account.Generation
import Olm.Account.Json
import Olm.Common.Calls

/-!
# Calls on an account

All that can be done with an account once `new_account` has made it, and
what each call leaves. The accounts that come from `new_account` by these
calls are `Account.Created`.
-/

namespace Olm.Account

/-! ## The calls -/

/-- A call on an account. -/
inductive Call where
  | generatePrekey (random : Bytes)
  | forgetOldPrekey
  | markPrekeyAsPublished (now : UInt64)
  | generateOneTimeKeys (numberOfKeys : ℕ) (random : Bytes)
  | markKeysAsPublished
  | removeKey (publicKey : Curve25519PublicKey)
  | generateFallbackKey (random : Bytes)
  | forgetOldFallbackKey
  | lookupKey (publicKey : Curve25519PublicKey)
  | lookupPrekey (publicKey : Curve25519PublicKey)
  | sign (message : Bytes)
  | getIdentityJson (json : Bytes)
  | getPrekeyJson (json : Bytes)
  | getUnpublishedPrekeyJson (json : Bytes)
  | getPrekeySignature (signature : Bytes)
  | getLastPrekeyPublishTime
  | getOneTimeKeysJson (json : Bytes)
  | getFallbackKeyJson (json : Bytes)
  | getUnpublishedFallbackKeyJson (json : Bytes)

/-- What a call gives; `none` for a `std::size_t(-1)` that comes without an
error. -/
inductive Reply where
  | done
  | number (n : Option ℕ)
  | oneTimeKey (key : Option OneTimeKey)
  | prekey (key : Option PreKey)
  | signature (signature : Ed25519Signature)
  | time (time : UInt64)
  | text (buf : Bytes) (length : ℕ)
  deriving DecidableEq

variable (curve : Curve25519) (ed25519 : Ed25519)

/-- A call and its reply, which is the error where the call sets one. -/
def call (account : Account) : Call → Checked (Account × Except OlmErrorCode Reply)
  | .generatePrekey random =>
    report (·.lastError) (fun n => .number (some n)) (account.generatePrekey curve ed25519 random)
  | .forgetOldPrekey => .ok (account.forgetOldPrekey, .ok .done)
  | .markPrekeyAsPublished now =>
    .ok ((account.markPrekeyAsPublished now).1, .ok (.number (account.markPrekeyAsPublished now).2))
  | .generateOneTimeKeys numberOfKeys random =>
    report (·.lastError) (fun n => .number (some n))
      (account.generateOneTimeKeys curve numberOfKeys random)
  | .markKeysAsPublished =>
    .ok (account.markKeysAsPublished.1, .ok (.number (some account.markKeysAsPublished.2)))
  | .removeKey publicKey =>
    .ok ((account.removeKey publicKey).1, .ok (.number (account.removeKey publicKey).2))
  | .generateFallbackKey random =>
    report (·.lastError) (fun n => .number (some n)) (account.generateFallbackKey curve random)
  | .forgetOldFallbackKey => .ok (account.forgetOldFallbackKey, .ok .done)
  | .lookupKey publicKey => .ok (account, .ok (.oneTimeKey (account.lookupKey publicKey)))
  | .lookupPrekey publicKey => .ok (account, .ok (.prekey (account.lookupPrekey publicKey)))
  | .sign message => .ok (account, .ok (.signature (account.sign ed25519 message)))
  | .getIdentityJson json =>
    report (·.lastError) (fun (buf, length) => .text buf length) (account.getIdentityJson json)
  | .getPrekeyJson json =>
    report (·.lastError) (fun (buf, length) => .text buf length) (account.getPrekeyJson json)
  | .getUnpublishedPrekeyJson json =>
    report (·.lastError) (fun (buf, length) => .text buf length)
      (account.getUnpublishedPrekeyJson json)
  | .getPrekeySignature signature => do
    let (buf, length) ← account.getPrekeySignature signature
    .ok (account, .ok (.text buf length))
  | .getLastPrekeyPublishTime => .ok (account, .ok (.time account.lastPrekeyPublishTime))
  | .getOneTimeKeysJson json =>
    report (·.lastError) (fun (buf, length) => .text buf length) (account.getOneTimeKeysJson json)
  | .getFallbackKeyJson json =>
    report (·.lastError) (fun (buf, length) => .text buf length) (account.getFallbackKeyJson json)
  | .getUnpublishedFallbackKeyJson json =>
    report (·.lastError) (fun (buf, length) => .text buf length)
      (account.getUnpublishedFallbackKeyJson json)

/-- The accounts that come from `new_account`, on memory that was zeroed. -/
inductive Created : Account → Prop
  | newAccount {account : Account} {random : Bytes} :
      Account.new.newAccount curve ed25519 random = .ok (account, some 0) → Created account
  | call {account account' : Account} {request : Call} {reply : Except OlmErrorCode Reply} :
      Created account → account.call curve ed25519 request = .ok (account', reply) →
      Created account'

/-! ## What a call leaves -/

/-- What a call can do to an account. -/
inductive Effect (account : Account) : Account → Prop
  /-- A call that only reads, or fails. -/
  | error (code : OlmErrorCode) : Effect account { account with lastError := code }
  | generatePrekey (random : FixedBytes CURVE25519_KEY_LENGTH) :
      Effect account { account with
        numPrekeys :=
          if account.numPrekeys < 2 then account.numPrekeys + 1 else account.numPrekeys
        prevPrekey := account.currentPrekey
        nextPrekeyId := account.nextPrekeyId + 1
        currentPrekey :=
          { id := account.nextPrekeyId + 1, published := false, key := curve.generateKey random
            signature := account.sign ed25519 (curve.generateKey random).publicKey.val } }
  | forgetOldPrekey (h : account.numPrekeys = 2) :
      Effect account { account with prevPrekey := .zero, numPrekeys := 1 }
  | markPrekeyAsPublished (now : UInt64) :
      Effect account { account with
        lastPrekeyPublishTime := now
        currentPrekey := { account.currentPrekey with published := true } }
  /-- The one-time keys that were not there are generated. -/
  | oneTimeKeys (id : UInt32) (keys : BoundedList OneTimeKey MAX_ONE_TIME_KEYS)
      (h : ∀ key ∈ keys.toList, (∃ old ∈ account.oneTimeKeys.toList, key.key = old.key) ∨
        ∃ random, key.key = curve.generateKey random) :
      Effect account { account with nextOneTimeKeyId := id, oneTimeKeys := keys }
  | markKeysAsPublished : Effect account account.markKeysAsPublished.1
  | generateFallbackKey (random : FixedBytes CURVE25519_KEY_LENGTH) :
      Effect account { account with
        numFallbackKeys :=
          if account.numFallbackKeys < 2 then account.numFallbackKeys + 1
          else account.numFallbackKeys
        prevFallbackKey := account.currentFallbackKey
        nextOneTimeKeyId := account.nextOneTimeKeyId + 1
        currentFallbackKey :=
          { id := account.nextOneTimeKeyId + 1, published := false
            key := curve.generateKey random } }
  | forgetOldFallbackKey (h : account.numFallbackKeys ≥ 2) :
      Effect account { account with numFallbackKeys := 1, prevFallbackKey := .zero }

section Effects

variable {curve ed25519} {account account' : Account}

/-- A fallback key that becomes the previous one was in use. -/
theorem inUse_of_counted {n : UInt8} (h : (if n < 2 then n + 1 else n) ≥ 2) : n ≥ 1 := by
  simp only [ge_iff_le, UInt8.le_iff_toNat_le, UInt8.lt_iff_toNat_lt, UInt8.toNat_ofNat] at h ⊢
  split at h
  · simp only [UInt8.toNat_add, UInt8.toNat_ofNat] at h
    omega
  · omega

/-- Nothing happens. -/
theorem Effect.refl : Effect curve ed25519 account account := .error account.lastError

/-- A call that fails sets the error and nothing else. -/
theorem eq_of_fail {α : Type} {code : OlmErrorCode} {result : Option α}
    (h : Except.ok (account.fail code) = (.ok (account', result) : Checked (Account × Option α))) :
    account' = { account with lastError := code } ∧ result = none := by
  cases h
  exact ⟨rfl, rfl⟩

/-- A call that only replies, or fails. -/
theorem eq_of_reply {α : Type} {result result' : Option α}
    (h : Except.ok (account, result) = (.ok (account', result') : Checked (Account × Option α))) :
    ∃ code, account' = { account with lastError := code } := by
  simp only [Except.ok.injEq, Prod.mk.injEq] at h
  exact ⟨account.lastError, h.1.symm⟩

/-- **The exits of `generate_prekey`.** -/
theorem generatePrekey_exits {random : Bytes} {result : Option ℕ}
    (h : account.generatePrekey curve ed25519 random = .ok (account', result)) :
    (∃ code, account' = { account with lastError := code } ∧ result = none) ∨
    ∃ key, loadArray CURVE25519_KEY_LENGTH random 0 = .ok key ∧ result = some 1 ∧
      account' = { account with
        numPrekeys :=
          if account.numPrekeys < 2 then account.numPrekeys + 1 else account.numPrekeys
        prevPrekey := account.currentPrekey
        nextPrekeyId := account.nextPrekeyId + 1
        currentPrekey :=
          { id := account.nextPrekeyId + 1, published := false, key := curve.generateKey key
            signature := account.sign ed25519 (curve.generateKey key).publicKey.val } } := by
  unfold generatePrekey at h
  split at h
  · exact .inl ⟨_, eq_of_fail h⟩
  · obtain ⟨key, hkey, h⟩ := Checked.bind_eq_ok.mp h
    simp only [Except.ok.injEq, Prod.mk.injEq] at h
    exact .inr ⟨key, hkey, h.2.symm, h.1.symm⟩

theorem generatePrekey_effect {random : Bytes} {result : Option ℕ}
    (h : account.generatePrekey curve ed25519 random = .ok (account', result)) :
    Effect curve ed25519 account account' := by
  rcases generatePrekey_exits h with ⟨code, rfl, -⟩ | ⟨key, -, -, rfl⟩
  · exact .error code
  · exact .generatePrekey key

theorem forgetOldPrekey_effect : Effect curve ed25519 account account.forgetOldPrekey := by
  unfold forgetOldPrekey
  split
  · rename_i h
    have hone : account.numPrekeys - 1 = 1 := by rw [h]; rfl
    rw [hone]
    exact .forgetOldPrekey h
  · exact .refl

theorem markPrekeyAsPublished_effect (now : UInt64) :
    Effect curve ed25519 account (account.markPrekeyAsPublished now).1 := by
  unfold markPrekeyAsPublished
  split
  · exact .refl
  · exact .markPrekeyAsPublished now

theorem generateOneTimeKeys_effect {numberOfKeys : ℕ} {random : Bytes} {result : Option ℕ}
    (h : account.generateOneTimeKeys curve numberOfKeys random = .ok (account', result)) :
    Effect curve ed25519 account account' := by
  rcases generateOneTimeKeys_exits h with ⟨code, rfl, -⟩ | ⟨slices, -, -, rfl, -⟩
  · exact .error code
  · obtain ⟨id, keys, heq, hkeys⟩ := eq_of_addOneTimeKeys curve account slices
    rw [heq]
    exact .oneTimeKeys id keys hkeys

theorem removeKey_effect (publicKey : Curve25519PublicKey) :
    Effect curve ed25519 account (account.removeKey publicKey).1 := by
  unfold removeKey
  split
  · refine .oneTimeKeys account.nextOneTimeKeyId _ ?_
    intro key hkey
    exact .inl ⟨key, List.mem_of_mem_eraseIdx hkey, rfl⟩
  · split
    · exact .refl
    · split
      · exact .refl
      · exact .refl

/-- **The exits of `generate_fallback_key`.** -/
theorem generateFallbackKey_exits {random : Bytes} {result : Option ℕ}
    (h : account.generateFallbackKey curve random = .ok (account', result)) :
    (∃ code, account' = { account with lastError := code } ∧ result = none) ∨
    ∃ key, loadArray CURVE25519_KEY_LENGTH random 0 = .ok key ∧ result = some 1 ∧
      account' = { account with
        numFallbackKeys :=
          if account.numFallbackKeys < 2 then account.numFallbackKeys + 1
          else account.numFallbackKeys
        prevFallbackKey := account.currentFallbackKey
        nextOneTimeKeyId := account.nextOneTimeKeyId + 1
        currentFallbackKey :=
          { id := account.nextOneTimeKeyId + 1, published := false
            key := curve.generateKey key } } := by
  unfold generateFallbackKey at h
  split at h
  · exact .inl ⟨_, eq_of_fail h⟩
  · obtain ⟨key, hkey, h⟩ := Checked.bind_eq_ok.mp h
    simp only [Except.ok.injEq, Prod.mk.injEq] at h
    exact .inr ⟨key, hkey, h.2.symm, h.1.symm⟩

theorem generateFallbackKey_effect {random : Bytes} {result : Option ℕ}
    (h : account.generateFallbackKey curve random = .ok (account', result)) :
    Effect curve ed25519 account account' := by
  rcases generateFallbackKey_exits h with ⟨code, rfl, -⟩ | ⟨key, -, -, rfl⟩
  · exact .error code
  · exact .generateFallbackKey key

theorem forgetOldFallbackKey_effect :
    Effect curve ed25519 account account.forgetOldFallbackKey := by
  unfold forgetOldFallbackKey
  split
  · rename_i h
    exact .forgetOldFallbackKey h
  · exact .refl

/-! A getter changes nothing but the error. -/

theorem eq_of_getSingleKeyJson {key : Option (UInt32 × Curve25519PublicKey)} {json : Bytes}
    {result : Option (Bytes × ℕ)} (h : account.getSingleKeyJson key json = .ok (account', result)) :
    ∃ code, account' = { account with lastError := code } := by
  unfold getSingleKeyJson at h
  split at h
  · exact ⟨_, (eq_of_fail h).1⟩
  · obtain ⟨written, -, h⟩ := Checked.bind_eq_ok.mp h
    exact eq_of_reply h

theorem eq_of_getUnpublishedPrekeyJson {json : Bytes} {result : Option (Bytes × ℕ)}
    (h : account.getUnpublishedPrekeyJson json = .ok (account', result)) :
    ∃ code, account' = { account with lastError := code } := by
  unfold getUnpublishedPrekeyJson at h
  split at h
  · exact ⟨_, (eq_of_fail h).1⟩
  · split at h
    · exact eq_of_reply h
    · obtain ⟨written, -, h⟩ := Checked.bind_eq_ok.mp h
      exact eq_of_reply h

theorem eq_of_getIdentityJson {json : Bytes} {result : Option (Bytes × ℕ)}
    (h : account.getIdentityJson json = .ok (account', result)) :
    ∃ code, account' = { account with lastError := code } := by
  unfold getIdentityJson at h
  split at h
  · exact ⟨_, (eq_of_fail h).1⟩
  · simp only [Checked.bind_eq_ok] at h
    obtain ⟨_, -, _, -, _, -, _, -, _, -, _, -, _, -, _, -, _, -, h⟩ := h
    exact eq_of_reply h

theorem eq_of_getOneTimeKeysJson {json : Bytes} {result : Option (Bytes × ℕ)}
    (h : account.getOneTimeKeysJson json = .ok (account', result)) :
    ∃ code, account' = { account with lastError := code } := by
  unfold getOneTimeKeysJson at h
  split at h
  · exact ⟨_, (eq_of_fail h).1⟩
  · simp only [Checked.bind_eq_ok] at h
    obtain ⟨_, -, _, -, ⟨_, _⟩, -, _, -, _, -, h⟩ := h
    exact eq_of_reply h

/-- The calls that only read. -/
def Call.IsGetter : Call → Prop
  | .lookupKey _ | .lookupPrekey _ | .sign _ | .getIdentityJson _ | .getPrekeyJson _
  | .getUnpublishedPrekeyJson _ | .getPrekeySignature _ | .getLastPrekeyPublishTime
  | .getOneTimeKeysJson _ | .getFallbackKeyJson _ | .getUnpublishedFallbackKeyJson _ => True
  | _ => False

theorem eq_of_getter {request : Call} {reply : Except OlmErrorCode Reply}
    (h : account.call curve ed25519 request = .ok (account', reply)) (hgetter : request.IsGetter) :
    ∃ code, account' = { account with lastError := code } := by
  cases request with
  | lookupKey | lookupPrekey | sign | getLastPrekeyPublishTime =>
    obtain ⟨rfl, -⟩ := Prod.mk.inj (Except.ok.inj h)
    exact ⟨_, rfl⟩
  | getPrekeySignature signature =>
    obtain ⟨written, -, h⟩ := Checked.bind_eq_ok.mp h
    obtain ⟨rfl, -⟩ := Prod.mk.inj (Except.ok.inj h)
    exact ⟨_, rfl⟩
  | getIdentityJson json =>
    obtain ⟨result, h⟩ := report_eq_ok h
    exact eq_of_getIdentityJson h
  | getUnpublishedPrekeyJson json =>
    obtain ⟨result, h⟩ := report_eq_ok h
    exact eq_of_getUnpublishedPrekeyJson h
  | getOneTimeKeysJson json =>
    obtain ⟨result, h⟩ := report_eq_ok h
    exact eq_of_getOneTimeKeysJson h
  | getPrekeyJson | getFallbackKeyJson | getUnpublishedFallbackKeyJson =>
    obtain ⟨result, h⟩ := report_eq_ok h
    exact eq_of_getSingleKeyJson h
  | generatePrekey | forgetOldPrekey | markPrekeyAsPublished | generateOneTimeKeys
      | markKeysAsPublished | removeKey | generateFallbackKey | forgetOldFallbackKey =>
    exact hgetter.elim

/-- **What a call leaves.** -/
theorem call_effect {request : Call} {reply : Except OlmErrorCode Reply}
    (h : account.call curve ed25519 request = .ok (account', reply)) :
    Effect curve ed25519 account account' := by
  cases request with
  | generatePrekey random =>
    obtain ⟨result, h⟩ := report_eq_ok h
    exact generatePrekey_effect h
  | forgetOldPrekey =>
    obtain ⟨rfl, -⟩ := Prod.mk.inj (Except.ok.inj h)
    exact forgetOldPrekey_effect
  | markPrekeyAsPublished now =>
    obtain ⟨rfl, -⟩ := Prod.mk.inj (Except.ok.inj h)
    exact markPrekeyAsPublished_effect now
  | generateOneTimeKeys numberOfKeys random =>
    obtain ⟨result, h⟩ := report_eq_ok h
    exact generateOneTimeKeys_effect h
  | markKeysAsPublished =>
    obtain ⟨rfl, -⟩ := Prod.mk.inj (Except.ok.inj h)
    exact .markKeysAsPublished
  | removeKey publicKey =>
    obtain ⟨rfl, -⟩ := Prod.mk.inj (Except.ok.inj h)
    exact removeKey_effect publicKey
  | generateFallbackKey random =>
    obtain ⟨result, h⟩ := report_eq_ok h
    exact generateFallbackKey_effect h
  | forgetOldFallbackKey =>
    obtain ⟨rfl, -⟩ := Prod.mk.inj (Except.ok.inj h)
    exact forgetOldFallbackKey_effect
  | lookupKey | lookupPrekey | sign | getLastPrekeyPublishTime | getPrekeySignature
      | getIdentityJson | getUnpublishedPrekeyJson | getOneTimeKeysJson | getPrekeyJson
      | getFallbackKeyJson | getUnpublishedFallbackKeyJson =>
    obtain ⟨code, rfl⟩ := eq_of_getter h trivial
    exact .error code

/-- Only generating a prekey takes a new id for it. -/
theorem nextPrekeyId_call {request : Call} {reply : Except OlmErrorCode Reply}
    (hne : ∀ random, request ≠ .generatePrekey random)
    (h : account.call curve ed25519 request = .ok (account', reply)) :
    account'.nextPrekeyId = account.nextPrekeyId := by
  cases request with
  | generatePrekey random => exact absurd rfl (hne random)
  | generateOneTimeKeys numberOfKeys random =>
    obtain ⟨result, h⟩ := report_eq_ok h
    rcases generateOneTimeKeys_exits h with ⟨code, rfl, -⟩ | ⟨slices, -, -, rfl, -⟩
    · rfl
    · obtain ⟨id, keys, heq, -⟩ := eq_of_addOneTimeKeys curve account slices
      rw [heq]
  | generateFallbackKey random =>
    obtain ⟨result, h⟩ := report_eq_ok h
    rcases generateFallbackKey_exits h with ⟨code, rfl, -⟩ | ⟨key, -, -, rfl⟩
    · rfl
    · rfl
  | markKeysAsPublished =>
    obtain ⟨rfl, -⟩ := Prod.mk.inj (Except.ok.inj h)
    rfl
  | forgetOldPrekey =>
    obtain ⟨rfl, -⟩ := Prod.mk.inj (Except.ok.inj h)
    unfold forgetOldPrekey
    split <;> rfl
  | markPrekeyAsPublished now =>
    obtain ⟨rfl, -⟩ := Prod.mk.inj (Except.ok.inj h)
    unfold markPrekeyAsPublished
    split <;> rfl
  | forgetOldFallbackKey =>
    obtain ⟨rfl, -⟩ := Prod.mk.inj (Except.ok.inj h)
    unfold forgetOldFallbackKey
    split <;> rfl
  | removeKey publicKey =>
    obtain ⟨rfl, -⟩ := Prod.mk.inj (Except.ok.inj h)
    unfold removeKey
    split
    · rfl
    · split_ifs <;> rfl
  | lookupKey | lookupPrekey | sign | getLastPrekeyPublishTime | getPrekeySignature
      | getIdentityJson | getUnpublishedPrekeyJson | getOneTimeKeysJson | getPrekeyJson
      | getFallbackKeyJson | getUnpublishedFallbackKeyJson =>
    obtain ⟨code, rfl⟩ := eq_of_getter h trivial
    rfl

/-- **The exits of `new_account`.** The account has its identity keys and one
more prekey, which is signed. -/
theorem newAccount_exits {random : Bytes} {result : Option ℕ}
    (h : account.newAccount curve ed25519 random = .ok (account', result)) :
    (∃ code, account' = { account with lastError := code } ∧ result = none) ∨
    ∃ signing identity prekey,
      loadArray CURVE25519_KEY_LENGTH random (ED25519_RANDOM_LENGTH + CURVE25519_KEY_LENGTH) =
        .ok prekey ∧ result = some 0 ∧
      account' = { account with
        identityKeys :=
          { ed25519Key := ed25519.generateKey signing
            curve25519Key := curve.generateKey identity }
        numPrekeys :=
          if account.numPrekeys < 2 then account.numPrekeys + 1 else account.numPrekeys
        prevPrekey := account.currentPrekey
        nextPrekeyId := account.nextPrekeyId + 1
        currentPrekey :=
          { id := account.nextPrekeyId + 1, published := false, key := curve.generateKey prekey
            signature := ed25519.sign (ed25519.generateKey signing)
              (curve.generateKey prekey).publicKey.val } } := by
  unfold newAccount at h
  split at h
  · exact .inl ⟨_, eq_of_fail h⟩
  · rename_i hrandom
    simp only [Checked.bind_eq_ok] at h
    obtain ⟨signing, -, identity, -, ⟨generated, made⟩, hprekey, h⟩ := h
    simp only [Except.ok.injEq, Prod.mk.injEq] at h
    obtain ⟨rfl, rfl⟩ := h
    -- what is left of the random bytes is enough for the prekey
    have hlength : ¬ ((random.drop (ED25519_RANDOM_LENGTH + CURVE25519_KEY_LENGTH)).take
        generatePrekeyRandomLength).length < generatePrekeyRandomLength := by
      rw [List.length_take, List.length_drop]
      unfold newAccountRandomLength at hrandom
      omega
    unfold generatePrekey at hprekey
    rw [if_neg hlength] at hprekey
    obtain ⟨prekey, hload, hprekey⟩ := Checked.bind_eq_ok.mp hprekey
    simp only [Except.ok.injEq, Prod.mk.injEq] at hprekey
    obtain ⟨rfl, -⟩ := hprekey
    refine .inr ⟨signing, identity, prekey, ?_, rfl, rfl⟩
    unfold loadArray at hload ⊢
    simpa only [List.drop_zero, List.take_take, generatePrekeyRandomLength, Nat.min_self] using hload

/-- **A new account** has its identity keys and one prekey, which is signed,
and nothing else. -/
theorem newAccount_eq_some {random : Bytes}
    (h : Account.new.newAccount curve ed25519 random = .ok (account, some 0)) :
    ∃ signing identity prekey, account = { Account.new with
      identityKeys :=
        { ed25519Key := ed25519.generateKey signing, curve25519Key := curve.generateKey identity }
      numPrekeys := 1
      nextPrekeyId := 1
      currentPrekey :=
        { id := 1, published := false, key := curve.generateKey prekey
          signature := ed25519.sign (ed25519.generateKey signing)
            (curve.generateKey prekey).publicKey.val } } := by
  rcases newAccount_exits h with ⟨code, -, hnone⟩ | ⟨signing, identity, prekey, -, -, rfl⟩
  · cases hnone
  · exact ⟨signing, identity, prekey, rfl⟩

end Effects

end Olm.Account
