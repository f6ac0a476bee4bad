import Olm.Account.Calls
import Olm.Account.Pickle
import Olm.Symbolic

/-!
# An account from its pickle

A pickle has the slots that are in use, and a new account has zeros in the
others. The prekey slots come out equal: an account that `new_account` made
has a prekey in use, and the other slot is zeroed where it is not. The
fallback slots need not, since publishing the keys marks the current one
even where there is none. No call looks at a fallback slot that is not in
use, so the two accounts reply to everything alike (`survives_pickle`).
-/

namespace Olm.Account

variable {curve : Curve25519} {ed25519 : Ed25519} {account account' : Account}

/-! ## What a made account keeps -/

/-- There is one prekey and nothing in the other slot, or there are two; and
there are at most two fallback keys. -/
structure Counted (account : Account) : Prop where
  prekeys : (account.numPrekeys = 1 ∧ account.prevPrekey = .zero) ∨ account.numPrekeys = 2
  fallbackKeys : account.numFallbackKeys = 0 ∨ account.numFallbackKeys = 1 ∨
    account.numFallbackKeys = 2

theorem Counted.numPrekeys_le (h : account.Counted) : account.numPrekeys ≤ 2 := by
  rcases h.prekeys with ⟨hnum, -⟩ | hnum
  · rw [hnum]
    decide
  · rw [hnum]
    decide

theorem Counted.numFallbackKeys_le (h : account.Counted) : account.numFallbackKeys ≤ 2 := by
  rcases h.fallbackKeys with hnum | hnum | hnum
  · rw [hnum]
    decide
  · rw [hnum]
    decide
  · rw [hnum]
    decide

theorem Counted.effect (h : account.Counted) (heffect : Effect curve ed25519 account account') :
    account'.Counted := by
  obtain ⟨hprekeys, hfallback⟩ := h
  cases heffect with
  | error | markPrekeyAsPublished | oneTimeKeys | markKeysAsPublished => exact ⟨hprekeys, hfallback⟩
  | generatePrekey random =>
    refine ⟨.inr ?_, hfallback⟩
    rcases hprekeys with ⟨hnum, -⟩ | hnum
    · simp only [hnum]
      decide
    · simp only [hnum]
      decide
  | forgetOldPrekey hnum => exact ⟨.inl ⟨rfl, rfl⟩, hfallback⟩
  | generateFallbackKey random =>
    refine ⟨hprekeys, ?_⟩
    rcases hfallback with hnum | hnum | hnum
    · exact .inr (.inl (by simp only [hnum]; decide))
    · exact .inr (.inr (by simp only [hnum]; decide))
    · exact .inr (.inr (by simp only [hnum]; decide))
  | forgetOldFallbackKey hnum => exact ⟨hprekeys, .inr (.inl rfl)⟩

theorem Created.counted (h : Created curve ed25519 account) : account.Counted := by
  induction h with
  | newAccount hrun =>
    obtain ⟨signing, identity, prekey, rfl⟩ := newAccount_eq_some hrun
    exact ⟨.inl ⟨rfl, rfl⟩, .inl rfl⟩
  | call _ hrun ih => exact ih.effect (call_effect hrun)

/-- A new fallback key goes in front of those in use, and the one after the
previous is gone. -/
theorem take_slots_generate {α : Type} {n : UInt8} {new current prev : α}
    (h : n = 0 ∨ n = 1 ∨ n = 2) :
    [new, current].take (if n < 2 then n + 1 else n).toNat =
      (new :: [current, prev].take n.toNat).take 2 := by
  rcases h with rfl | rfl | rfl
  · rfl
  · rfl
  · rfl

/-! ## What no call looks at -/

/-- The account, with other things in the fallback slots and another error
from an earlier call. -/
def replaced (account : Account) (current prev : OneTimeKey) (code : OlmErrorCode) : Account :=
  { account with currentFallbackKey := current, prevFallbackKey := prev, lastError := code }

/-- What is in use is the same. -/
structure InUse (account : Account) (current prev : OneTimeKey) : Prop where
  current : account.numFallbackKeys ≥ 1 → current = account.currentFallbackKey
  prev : account.numFallbackKeys ≥ 2 → prev = account.prevFallbackKey

/-- The same account but for the fallback slots that are not in use and the
error an earlier call left. -/
def Alike (account account' : Account) : Prop :=
  ∃ current prev code, account' = account.replaced current prev code ∧ account.InUse current prev

variable {current prev : OneTimeKey}

theorem InUse.isCurrent_iff (h : account.InUse current prev) (publicKey : Curve25519PublicKey) :
    (account.numFallbackKeys ≥ 1 ∧ current.key.publicKey = publicKey) ↔
      (account.numFallbackKeys ≥ 1 ∧ account.currentFallbackKey.key.publicKey = publicKey) :=
  and_congr_right (fun hone => by rw [h.current hone])

theorem InUse.isPrev_iff (h : account.InUse current prev) (publicKey : Curve25519PublicKey) :
    (account.numFallbackKeys ≥ 2 ∧ prev.key.publicKey = publicKey) ↔
      (account.numFallbackKeys ≥ 2 ∧ account.prevFallbackKey.key.publicKey = publicKey) :=
  and_congr_right (fun htwo => by rw [h.prev htwo])

theorem lookupKey_replaced (h : account.InUse current prev) (code : OlmErrorCode)
    (publicKey : Curve25519PublicKey) :
    (account.replaced current prev code).lookupKey publicKey = account.lookupKey publicKey := by
  unfold lookupKey
  simp only [replaced, h.isCurrent_iff, h.isPrev_iff]
  split
  · rfl
  · split
    · rename_i hone
      rw [h.current hone.1]
    · split
      · rename_i htwo
        rw [h.prev htwo.1]
      · rfl

/-- Removing a key looks at the same keys as looking it up. -/
theorem removeKey_replaced (h : account.InUse current prev) (code : OlmErrorCode)
    (publicKey : Curve25519PublicKey) :
    (account.replaced current prev code).removeKey publicKey =
      ((account.removeKey publicKey).1.replaced current prev code,
        (account.removeKey publicKey).2) := by
  unfold removeKey
  simp only [replaced, h.isCurrent_iff, h.isPrev_iff]
  split
  · rfl
  · split
    · rename_i hone
      rw [h.current hone.1]
    · split
      · rename_i htwo
        rw [h.prev htwo.1]
      · rfl

/-- A removed key is a one-time key. -/
theorem InUse.removeKey (h : account.InUse current prev) (publicKey : Curve25519PublicKey) :
    (account.removeKey publicKey).1.InUse current prev := by
  unfold Account.removeKey
  split
  · exact ⟨h.current, h.prev⟩
  · split
    · exact h
    · split
      · exact h
      · exact h

theorem fallbackKeyEntry_replaced (h : account.InUse current prev) (code : OlmErrorCode) :
    (account.replaced current prev code).fallbackKeyEntry = account.fallbackKeyEntry := by
  unfold fallbackKeyEntry
  simp only [replaced]
  by_cases hone : account.numFallbackKeys ≥ 1
  · rw [h.current hone]
    rfl
  · simp only [hone, if_false]

theorem unpublishedFallbackKeyEntry_replaced (h : account.InUse current prev)
    (code : OlmErrorCode) :
    (account.replaced current prev code).unpublishedFallbackKeyEntry =
      account.unpublishedFallbackKeyEntry := by
  unfold unpublishedFallbackKeyEntry
  simp only [replaced]
  by_cases hone : account.numFallbackKeys ≥ 1
  · rw [h.current hone]
    rfl
  · simp only [hone, false_and, if_false]

theorem generateOneTimeKeysLoop_replaced {random : Bytes} {numberOfKeys fuel pos : ℕ} {i : UInt32}
    (code : OlmErrorCode) :
    generateOneTimeKeysLoop curve random numberOfKeys fuel i pos
        (account.replaced current prev code) = (do
      let generated ← generateOneTimeKeysLoop curve random numberOfKeys fuel i pos account
      .ok (generated.replaced current prev code)) := by
  induction fuel generalizing i pos account with
  | zero =>
    unfold generateOneTimeKeysLoop
    split
    · rfl
    · rfl
  | succ fuel ih =>
    unfold generateOneTimeKeysLoop
    split
    · cases loadArray CURVE25519_KEY_LENGTH random pos with
      | error fault => rfl
      | ok key => exact @ih (account.addOneTimeKey curve key) (pos + CURVE25519_KEY_LENGTH) (i + 1)
    · rfl

/-- **What is not in use never shows.** -/
theorem keepsReplies_alike : KeepsReplies (call curve ed25519) (call curve ed25519) Alike := by
  rintro account account' request ⟨current, prev, code, rfl, h⟩
  have hfailed : ∀ {α : Type} (f : α → Reply) (failed : OlmErrorCode), SameReply Alike
      (report (·.lastError) f (.ok (account.fail failed)))
      (report (·.lastError) f (.ok ((account.replaced current prev code).fail failed))) :=
    fun f failed => .report_none ⟨current, prev, failed, rfl, h.current, h.prev⟩ rfl
  cases request with
  | generatePrekey random =>
    refine .report_ite (hfailed _ _) (.report_bind fun key => .report_some _ ?_)
    exact ⟨current, prev, code, rfl, h.current, h.prev⟩
  | forgetOldPrekey =>
    refine .ok _ ?_
    unfold forgetOldPrekey
    by_cases hnum : account.numPrekeys = 2
    · rw [if_pos hnum, if_pos (show (account.replaced current prev code).numPrekeys = 2 from hnum)]
      exact ⟨current, prev, code, rfl, h.current, h.prev⟩
    · rw [if_neg hnum, if_neg (show ¬ (account.replaced current prev code).numPrekeys = 2 from hnum)]
      exact ⟨current, prev, code, rfl, h⟩
  | markPrekeyAsPublished now =>
    simp only [call, markPrekeyAsPublished]
    by_cases hpublished : account.currentPrekey.published = true
    · rw [if_pos hpublished, if_pos
        (show (account.replaced current prev code).currentPrekey.published = true from hpublished)]
      exact .ok _ ⟨current, prev, code, rfl, h⟩
    · rw [if_neg hpublished, if_neg
        (show ¬ (account.replaced current prev code).currentPrekey.published = true
          from hpublished)]
      exact .ok _ ⟨current, prev, code, rfl, h.current, h.prev⟩
  | generateOneTimeKeys numberOfKeys random =>
    refine .report_ite (hfailed _ _) ?_
    rw [generateOneTimeKeysLoop_replaced]
    cases hloop : generateOneTimeKeysLoop curve random numberOfKeys
        (random.length / CURVE25519_KEY_LENGTH + 1) 0 0 account with
    | error fault => exact .error fault
    | ok generated =>
      obtain ⟨slices, rfl⟩ := eq_of_generateOneTimeKeysLoop hloop
      obtain ⟨id, keys, heq, -⟩ := eq_of_addOneTimeKeys curve account slices
      rw [heq]
      exact .report_some numberOfKeys ⟨current, prev, code, rfl, h.current, h.prev⟩
  | markKeysAsPublished =>
    refine .ok _ ⟨{ current with published := true }, prev, code, rfl, ?_, h.prev⟩
    intro hone
    rw [h.current hone]
    rfl
  | removeKey publicKey =>
    simp only [call, removeKey_replaced h]
    exact .ok _ ⟨current, prev, code, rfl, h.removeKey publicKey⟩
  | generateFallbackKey random =>
    refine .report_ite (hfailed _ _) (.report_bind fun key => .report_some _ ?_)
    -- the new key takes the current slot, and what was there becomes the previous one
    refine ⟨_, current, code, rfl, fun _ => rfl, ?_⟩
    intro htwo
    exact h.current (inUse_of_counted htwo)
  | forgetOldFallbackKey =>
    refine .ok _ ?_
    unfold forgetOldFallbackKey
    by_cases htwo : account.numFallbackKeys ≥ 2
    · rw [if_pos htwo,
        if_pos (show (account.replaced current prev code).numFallbackKeys ≥ 2 from htwo)]
      -- the previous slot is zeroed in both
      exact ⟨current, .zero, code, rfl, fun _ => h.current (UInt8.le_trans (by decide) htwo),
        fun _ => rfl⟩
    · rw [if_neg htwo,
        if_neg (show ¬ (account.replaced current prev code).numFallbackKeys ≥ 2 from htwo)]
      exact ⟨current, prev, code, rfl, h⟩
  | lookupKey publicKey =>
    simp only [call, lookupKey_replaced h]
    exact .ok _ ⟨current, prev, code, rfl, h⟩
  | lookupPrekey => exact .ok _ ⟨current, prev, code, rfl, h⟩
  | sign => exact .ok _ ⟨current, prev, code, rfl, h⟩
  | getLastPrekeyPublishTime => exact .ok _ ⟨current, prev, code, rfl, h⟩
  | getPrekeySignature signature =>
    have hsame : (account.replaced current prev code).getPrekeySignature signature =
        account.getPrekeySignature signature := rfl
    simp only [call, hsame]
    cases account.getPrekeySignature signature with
    | error fault => exact .error fault
    | ok written => exact .ok _ ⟨current, prev, code, rfl, h⟩
  | getIdentityJson json =>
    refine .report_ite (hfailed _ _) ?_
    iterate 9 refine .report_bind fun out => ?_
    exact .report_some _ ⟨current, prev, code, rfl, h⟩
  | getUnpublishedPrekeyJson json =>
    refine .report_ite (hfailed _ _) (.report_ite ?_ (.report_bind fun written => ?_))
    · exact .report_some _ ⟨current, prev, code, rfl, h⟩
    · exact .report_some _ ⟨current, prev, code, rfl, h⟩
  | getOneTimeKeysJson json =>
    refine .report_ite (hfailed _ _) (.report_bind fun out => .report_bind fun out =>
      .report_bind ?_)
    rintro ⟨sep, out⟩
    refine .report_bind fun out => .report_bind fun out => ?_
    exact .report_some _ ⟨current, prev, code, rfl, h⟩
  | getPrekeyJson json =>
    refine .report_ite (hfailed _ _) (.report_bind fun written => ?_)
    exact .report_some _ ⟨current, prev, code, rfl, h⟩
  | getFallbackKeyJson json =>
    simp only [call, getFallbackKeyJson, fallbackKeyEntry_replaced h]
    refine .report_ite (hfailed _ _) (.report_bind fun written => ?_)
    exact .report_some _ ⟨current, prev, code, rfl, h⟩
  | getUnpublishedFallbackKeyJson json =>
    simp only [call, getUnpublishedFallbackKeyJson, unpublishedFallbackKeyEntry_replaced h]
    refine .report_ite (hfailed _ _) (.report_bind fun written => ?_)
    exact .report_some _ ⟨current, prev, code, rfl, h⟩

/-! ## Pickling and unpickling -/

/-- What a pickle restores. -/
structure Restores (account restored : Account) : Prop where
  identityKeys : restored.identityKeys = account.identityKeys
  currentPrekey : restored.currentPrekey = account.currentPrekey
  prevPrekey : restored.prevPrekey = account.prevPrekey
  numPrekeys : restored.numPrekeys = account.numPrekeys
  nextPrekeyId : restored.nextPrekeyId = account.nextPrekeyId
  lastPrekeyPublishTime : restored.lastPrekeyPublishTime = account.lastPrekeyPublishTime
  oneTimeKeys : restored.oneTimeKeys = account.oneTimeKeys
  numFallbackKeys : restored.numFallbackKeys = account.numFallbackKeys
  currentFallbackKey :
    account.numFallbackKeys ≥ 1 → restored.currentFallbackKey = account.currentFallbackKey
  prevFallbackKey :
    account.numFallbackKeys ≥ 2 → restored.prevFallbackKey = account.prevFallbackKey
  nextOneTimeKeyId : restored.nextOneTimeKeyId = account.nextOneTimeKeyId

/-- What is read over a new account has the prekeys of the account. -/
theorem Counted.restoredOver_new (h : account.Counted) :
    account.restoredOver .new = account.replaced
      (if account.numFallbackKeys ≥ 1 then account.currentFallbackKey else .zero)
      (if account.numFallbackKeys ≥ 2 then account.prevFallbackKey else .zero) .SUCCESS := by
  have hcurrent : (if account.numPrekeys ≥ 1 then account.currentPrekey
      else Account.new.currentPrekey) = account.currentPrekey := by
    rcases h.prekeys with ⟨hnum, -⟩ | hnum
    · rw [hnum, if_pos (by decide)]
    · rw [hnum, if_pos (by decide)]
  have hprev : (if account.numPrekeys ≥ 2 then account.prevPrekey
      else Account.new.prevPrekey) = account.prevPrekey := by
    rcases h.prekeys with ⟨hnum, hzero⟩ | hnum
    · rw [hnum, if_neg (by decide), hzero]
      rfl
    · rw [hnum, if_pos (by decide)]
  unfold restoredOver
  rw [hcurrent, hprev]
  rfl

/-- **An account survives its pickle**, whatever calls it went through: as
many bytes are written as the length says, a new account reads all of them
and nothing else, holds the same afterwards in every slot that is in use,
and replies to all later calls as the original does. -/
theorem survives_pickle (h : Created curve ed25519 account) (stale : ℕ → OneTimeKey) :
    account.pickle.length = account.pickleLength ∧
    ∃ restored, unpickle stale .new account.pickle = (restored, some []) ∧
      account.Restores restored ∧
      ∀ calls, replies (call curve ed25519) restored calls =
        replies (call curve ed25519) account calls := by
  have hcounted := h.counted
  have hreads := reads_unpickle stale (show Account.new.oneTimeKeys = .empty from rfl)
    hcounted.numPrekeys_le hcounted.numFallbackKeys_le []
  rw [List.append_nil, hcounted.restoredOver_new] at hreads
  have hinUse : account.InUse
      (if account.numFallbackKeys ≥ 1 then account.currentFallbackKey else .zero)
      (if account.numFallbackKeys ≥ 2 then account.prevFallbackKey else .zero) :=
    ⟨fun hone => if_pos hone, fun htwo => if_pos htwo⟩
  refine ⟨length_pickle account, _, hreads,
    ⟨rfl, rfl, rfl, rfl, rfl, rfl, rfl, rfl, hinUse.current, hinUse.prev, rfl⟩, ?_⟩
  intro calls
  exact (keepsReplies_alike.replies_eq ⟨_, _, _, rfl, hinUse⟩ calls).symm

/-- An account with two published one-time keys, and a fallback key that took the
place of another. -/
def stocked : Account :=
  afterCalls (call .xor .accepting) Account.sevens
    [.generateOneTimeKeys 2 (List.replicate 32 16 ++ List.replicate 32 32),
      .generateFallbackKey (List.replicate 32 48), .markKeysAsPublished,
      .generateFallbackKey (List.replicate 32 64)]

theorem survives_pickle_stocked :
    stocked.oneTimeKeys.toList.map (·.id) = [2, 1] ∧
    stocked.currentFallbackKey.id = 4 ∧ stocked.prevFallbackKey.id = 3 ∧
    stocked.pickle.length = stocked.pickleLength ∧
    ∃ restored, unpickle (fun _ => .zero) .new stocked.pickle = (restored, some []) ∧
      stocked.Restores restored ∧
      ∀ calls, replies (call .xor .accepting) restored calls =
        replies (call .xor .accepting) stocked calls :=
  ⟨by decide +kernel, by decide +kernel, by decide +kernel,
    survives_pickle (afterCalls_invariant (fun _ _ _ _ => Created.call)
      (Created.newAccount Account.newAccount_sevens) _) _⟩

end Olm.Account
