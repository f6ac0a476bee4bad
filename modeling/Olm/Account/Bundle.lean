import Olm.Account.Calls

/-!
# The keys an account hands out

Another device is given the identity keys of an account, one of its prekeys
with the signature, and a one-time or fallback key. All of these are
generated, the prekeys are signed by the account, and the account finds the
private part of each as long as it holds it.
-/

namespace Olm.Account

variable {curve : Curve25519} {ed25519 : Ed25519} {account account' : Account}

/-- A prekey of the account: the current one, or the one before while it is
kept. -/
def HoldsPrekey (account : Account) (prekey : PreKey) : Prop :=
  prekey = account.currentPrekey ∨ (account.numPrekeys = 2 ∧ prekey = account.prevPrekey)

/-- A one-time key of the account, or a fallback key that is in use. -/
def HoldsKey (account : Account) (key : OneTimeKey) : Prop :=
  key ∈ account.oneTimeKeys.toList ∨
    (account.numFallbackKeys ≥ 1 ∧ key = account.currentFallbackKey) ∨
    (account.numFallbackKeys ≥ 2 ∧ key = account.prevFallbackKey)

/-- The keys of the account are generated, and its prekeys signed. -/
structure KeysMade (curve : Curve25519) (ed25519 : Ed25519) (account : Account) : Prop where
  identityKey : curve.Generated account.identityKeys.curve25519Key
  signingKey : ∃ random, account.identityKeys.ed25519Key = ed25519.generateKey random
  prekey : ∀ prekey, account.HoldsPrekey prekey → curve.Generated prekey.key ∧
    prekey.signature = account.sign ed25519 prekey.key.publicKey.val
  key : ∀ key, account.HoldsKey key → curve.Generated key.key

theorem KeysMade.effect (h : account.KeysMade curve ed25519)
    (heffect : Effect curve ed25519 account account') : account'.KeysMade curve ed25519 := by
  cases heffect with
  | error code => exact ⟨h.identityKey, h.signingKey, h.prekey, h.key⟩
  | generatePrekey random =>
    refine ⟨h.identityKey, h.signingKey, ?_, h.key⟩
    rintro prekey (rfl | ⟨-, rfl⟩)
    · exact ⟨curve.generated_generateKey random, rfl⟩
    · -- the current prekey became the previous one
      exact h.prekey _ (.inl rfl)
  | forgetOldPrekey hnum =>
    refine ⟨h.identityKey, h.signingKey, ?_, h.key⟩
    rintro prekey (rfl | ⟨hone, rfl⟩)
    · exact h.prekey _ (.inl rfl)
    · exact absurd hone (by simp)
  | markPrekeyAsPublished now =>
    refine ⟨h.identityKey, h.signingKey, ?_, h.key⟩
    rintro prekey (rfl | hprev)
    · exact h.prekey account.currentPrekey (.inl rfl)
    · exact h.prekey prekey (.inr hprev)
  | oneTimeKeys id keys hkeys =>
    refine ⟨h.identityKey, h.signingKey, h.prekey, ?_⟩
    rintro key (hmem | hfallback)
    · rcases hkeys key hmem with ⟨old, hold, heq⟩ | ⟨random, heq⟩
      · rw [heq]
        exact h.key old (.inl hold)
      · rw [heq]
        exact curve.generated_generateKey random
    · exact h.key key (.inr hfallback)
  | markKeysAsPublished =>
    refine ⟨h.identityKey, h.signingKey, h.prekey, ?_⟩
    rintro key (hmem | ⟨hone, rfl⟩ | hprev)
    · obtain ⟨old, hold, rfl⟩ := List.mem_map.mp hmem
      exact h.key old (.inl hold)
    · exact h.key account.currentFallbackKey (.inr (.inl ⟨hone, rfl⟩))
    · exact h.key key (.inr (.inr hprev))
  | generateFallbackKey random =>
    refine ⟨h.identityKey, h.signingKey, h.prekey, ?_⟩
    rintro key (hmem | ⟨-, rfl⟩ | ⟨htwo, rfl⟩)
    · exact h.key key (.inl hmem)
    · exact curve.generated_generateKey random
    · -- there are two now, so the one that became the previous was in use
      exact h.key _ (.inr (.inl ⟨inUse_of_counted htwo, rfl⟩))
  | forgetOldFallbackKey hnum =>
    refine ⟨h.identityKey, h.signingKey, h.prekey, ?_⟩
    rintro key (hmem | ⟨-, rfl⟩ | ⟨htwo, rfl⟩)
    · exact h.key key (.inl hmem)
    · exact h.key _ (.inr (.inl ⟨UInt8.le_trans (by decide) hnum, rfl⟩))
    · exact absurd htwo (show ¬ (1 : UInt8) ≥ 2 by decide)

/-- **Throughout its life** the keys an account holds are its own. -/
theorem Created.keysMade (h : Created curve ed25519 account) :
    account.KeysMade curve ed25519 := by
  induction h with
  | newAccount hrun =>
    obtain ⟨signing, identity, prekey, rfl⟩ := newAccount_eq_some hrun
    refine ⟨curve.generated_generateKey identity, ⟨signing, rfl⟩, ?_, ?_⟩
    · rintro held (rfl | ⟨htwo, rfl⟩)
      · exact ⟨curve.generated_generateKey prekey, rfl⟩
      · exact absurd htwo (by simp)
    · rintro key (hmem | ⟨hone, -⟩ | ⟨htwo, -⟩)
      · cases hmem
      · exact absurd hone (show ¬ (0 : UInt8) ≥ 1 by decide)
      · exact absurd htwo (show ¬ (0 : UInt8) ≥ 2 by decide)
  | call _ hrun ih => exact ih.effect (call_effect hrun)

/-! ## What the account finds -/

variable {prekey : PreKey} {key : OneTimeKey}

/-- The signature that goes with a prekey is accepted. -/
theorem KeysMade.verify (h : account.KeysMade curve ed25519) (haccepts : ed25519.Accepts)
    (hprekey : account.HoldsPrekey prekey) :
    ed25519.verify account.identityKeys.ed25519Key.publicKey prekey.key.publicKey.val
      prekey.signature = true := by
  obtain ⟨random, hsigning⟩ := h.signingKey
  rw [(h.prekey prekey hprekey).2, sign, hsigning]
  exact haccepts random prekey.key.publicKey.val

/-- A prekey of the account is found, or another pair of the account with
the same public part. -/
theorem KeysMade.lookupPrekey (h : account.KeysMade curve ed25519)
    (hprekey : account.HoldsPrekey prekey) :
    ∃ found, account.lookupPrekey prekey.key.publicKey = some found ∧
      found.key.publicKey = prekey.key.publicKey ∧ curve.Generated found.key := by
  unfold Account.lookupPrekey
  by_cases hcurrent : account.currentPrekey.key.publicKey = prekey.key.publicKey
  · exact ⟨_, if_pos hcurrent, hcurrent, (h.prekey _ (.inl rfl)).1⟩
  · rcases hprekey with rfl | ⟨htwo, rfl⟩
    · exact absurd rfl hcurrent
    · refine ⟨_, ?_, rfl, (h.prekey _ (.inr ⟨htwo, rfl⟩)).1⟩
      rw [if_neg hcurrent, if_pos rfl]

/-- So is a one-time or fallback key. -/
theorem KeysMade.lookupKey (h : account.KeysMade curve ed25519) (hkey : account.HoldsKey key) :
    ∃ found, account.lookupKey key.key.publicKey = some found ∧
      found.key.publicKey = key.key.publicKey ∧ curve.Generated found.key := by
  unfold Account.lookupKey
  cases hfind : account.oneTimeKeys.toList.find?
    (fun stored => stored.key.publicKey = key.key.publicKey) with
  | some found =>
    have hpublic : found.key.publicKey = key.key.publicKey := by simpa using List.find?_some hfind
    exact ⟨found, rfl, hpublic, h.key found (.inl (List.mem_of_find?_eq_some hfind))⟩
  | none =>
    by_cases hcurrent : account.numFallbackKeys ≥ 1 ∧
        account.currentFallbackKey.key.publicKey = key.key.publicKey
    · exact ⟨_, if_pos hcurrent, hcurrent.2, h.key _ (.inr (.inl ⟨hcurrent.1, rfl⟩))⟩
    · rcases hkey with hmem | ⟨hone, rfl⟩ | ⟨htwo, rfl⟩
      · have hnone := List.find?_eq_none.mp hfind key hmem
        simp at hnone
      · exact absurd ⟨hone, rfl⟩ hcurrent
      · refine ⟨_, ?_, rfl, h.key _ (.inr (.inr ⟨htwo, rfl⟩))⟩
        simp only [if_neg hcurrent, and_true, if_pos htwo]

end Olm.Account
