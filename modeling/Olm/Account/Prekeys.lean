import Olm.Account.Calls
import Olm.Account.Pickle

/-!
# Prekeys in use

`num_prekeys` says which of the two slots of an account are in use, and
`lookup_prekey` does not look at it: a key is found in a slot that is not in
use as well. What such a slot holds depends on the run. As long as pickles
are read into new accounts only it is zero, so the zero key is the one that
is found without being there; an account that a pickle is read over keeps
in them what it held before.
-/

namespace Olm.Account

variable (curve : Curve25519) (ed25519 : Ed25519)

/-! ## Runs of an account -/

/-- One call on an account, other than unpickling. -/
inductive Step : Account → Account → Prop
  | newAccount {account account' : Account} {random : Bytes} {result : Option ℕ} :
      account.newAccount curve ed25519 random = .ok (account', result) → Step account account'
  | generatePrekey {account account' : Account} {random : Bytes} {result : Option ℕ} :
      account.generatePrekey curve ed25519 random = .ok (account', result) → Step account account'
  | forgetOldPrekey (account : Account) : Step account account.forgetOldPrekey
  | markPrekeyAsPublished (account : Account) (now : UInt64) :
      Step account (account.markPrekeyAsPublished now).1
  | generateOneTimeKeys {account account' : Account} {numberOfKeys : ℕ} {random : Bytes}
      {result : Option ℕ} :
      account.generateOneTimeKeys curve numberOfKeys random = .ok (account', result) →
      Step account account'
  | removeKey (account : Account) (publicKey : Curve25519PublicKey) :
      Step account (account.removeKey publicKey).1
  | markKeysAsPublished (account : Account) : Step account account.markKeysAsPublished.1
  | generateFallbackKey {account account' : Account} {random : Bytes} {result : Option ℕ} :
      account.generateFallbackKey curve random = .ok (account', result) → Step account account'
  | forgetOldFallbackKey (account : Account) : Step account account.forgetOldFallbackKey

/-- The accounts that can be come by from a new one, where a pickle may be
read if `allowed` says so of the account it is read over and the outcome. -/
inductive Reachable (allowed : Account → Account × Option Unit → Prop) : Account → Prop
  | new : Reachable allowed Account.new
  | step {account account' : Account} :
      Reachable allowed account → Step curve ed25519 account account' → Reachable allowed account'
  | unpickle {account : Account} (stale : ℕ → OneTimeKey) (pickled : Bytes) :
      Reachable allowed account → allowed account (account.unpickleAccount stale pickled) →
      Reachable allowed (account.unpickleAccount stale pickled).1

/-- A pickle is read into a new account, and accepted. -/
def IntoNew (account : Account) (outcome : Account × Option Unit) : Prop :=
  account = .new ∧ outcome.2 = some ()

/-! ## The two slots -/

/-- The key of a prekey in use. -/
def IsPrekey (account : Account) (publicKey : Curve25519PublicKey) : Prop :=
  (account.numPrekeys ≥ 1 ∧ account.currentPrekey.key.publicKey = publicKey) ∨
    (account.numPrekeys = 2 ∧ account.prevPrekey.key.publicKey = publicKey)

instance (account : Account) (publicKey : Curve25519PublicKey) :
    Decidable (account.IsPrekey publicKey) := inferInstanceAs (Decidable (_ ∨ _))

/-- The key that a slot not in use holds. -/
def IsLeftOver (account : Account) (publicKey : Curve25519PublicKey) : Prop :=
  (¬ account.numPrekeys ≥ 1 ∧ account.currentPrekey.key.publicKey = publicKey) ∨
    (¬ account.numPrekeys = 2 ∧ account.prevPrekey.key.publicKey = publicKey)

/-- **What looking a prekey up should say.** -/
def FindsPrekeys (account : Account) (publicKey : Curve25519PublicKey) : Prop :=
  (account.lookupPrekey publicKey).isSome = true ↔ account.IsPrekey publicKey

variable {curve ed25519} {account account' : Account} {publicKey : Curve25519PublicKey}

theorem lookupPrekey_isSome :
    (account.lookupPrekey publicKey).isSome = true ↔
      account.currentPrekey.key.publicKey = publicKey ∨
        account.prevPrekey.key.publicKey = publicKey := by
  unfold lookupPrekey
  split
  · rename_i h
    simp [h]
  · split
    · rename_i h
      simp [h]
    · rename_i h h'
      simp [h, h']

/-- A key is found wherever it is. -/
theorem findsPrekeys_iff :
    account.FindsPrekeys publicKey ↔
      (account.IsLeftOver publicKey → account.IsPrekey publicKey) := by
  unfold FindsPrekeys IsLeftOver IsPrekey
  rw [lookupPrekey_isSome]
  tauto

/-! ## What a slot not in use holds -/

/-- At most two prekeys are counted, and a slot that is not in use holds a
key of zeros. -/
structure LeftOverZero (account : Account) : Prop where
  numPrekeys_le : account.numPrekeys ≤ 2
  current : ¬ account.numPrekeys ≥ 1 → account.currentPrekey.key.publicKey = FixedBytes.zero _
  prev : ¬ account.numPrekeys = 2 → account.prevPrekey.key.publicKey = FixedBytes.zero _

theorem leftOverZero_new : Account.new.LeftOverZero := ⟨by decide, fun _ => rfl, fun _ => rfl⟩

/-- It depends on the two slots and their number only. -/
theorem LeftOverZero.congr (h : account.LeftOverZero)
    (hnum : account'.numPrekeys = account.numPrekeys)
    (hcurrent : account'.currentPrekey.key = account.currentPrekey.key)
    (hprev : account'.prevPrekey.key = account.prevPrekey.key) : account'.LeftOverZero where
  numPrekeys_le := by rw [hnum]; exact h.numPrekeys_le
  current := by rw [hnum, hcurrent]; exact h.current
  prev := by rw [hnum, hprev]; exact h.prev

theorem LeftOverZero.numPrekeys_cases (h : account.LeftOverZero) :
    account.numPrekeys = 0 ∨ account.numPrekeys = 1 ∨ account.numPrekeys = 2 := by
  have hle : account.numPrekeys.toNat ≤ 2 := UInt8.le_iff_toNat_le.mp h.numPrekeys_le
  simp only [← UInt8.toNat_inj, UInt8.toNat_ofNat]
  omega

theorem LeftOverZero.effect (h : account.LeftOverZero)
    (heffect : Effect curve ed25519 account account') : account'.LeftOverZero := by
  cases heffect with
  | error | markPrekeyAsPublished | oneTimeKeys | markKeysAsPublished | generateFallbackKey |
      forgetOldFallbackKey => exact h.congr rfl rfl rfl
  | generatePrekey random =>
    -- no prekey becomes one, and one or two become two
    rcases h.numPrekeys_cases with hnum | hnum | hnum
    · have hcurrent := h.current (by rw [hnum]; decide)
      exact ⟨by simp [hnum], fun hnot => absurd (by simp [hnum]) hnot, fun _ => hcurrent⟩
    · exact ⟨by simp [hnum], fun hnot => absurd (by simp [hnum]) hnot,
        fun hnot => absurd (by simp [hnum]) hnot⟩
    · exact ⟨by simp [hnum], fun hnot => absurd (by simp [hnum]) hnot,
        fun hnot => absurd (by simp [hnum]) hnot⟩
  | forgetOldPrekey hnum =>
    exact ⟨by simp, fun hnot => absurd (by simp) hnot, fun _ => rfl⟩

theorem LeftOverZero.newAccount {random : Bytes} {result : Option ℕ} (h : account.LeftOverZero)
    (hrun : account.newAccount curve ed25519 random = .ok (account', result)) :
    account'.LeftOverZero := by
  rcases newAccount_exits hrun with ⟨code, rfl, -⟩ | ⟨signing, identity, prekey, -, -, rfl⟩
  · exact h.congr rfl rfl rfl
  · -- the prekey is generated as on a later call
    have heffect : Effect curve ed25519 account _ := .generatePrekey prekey
    exact (h.effect heffect).congr rfl rfl rfl

/-- A call other than unpickling makes the account, or does what a call on a
made one does. -/
theorem Step.effect (h : Step curve ed25519 account account') :
    (∃ random result, account.newAccount curve ed25519 random = .ok (account', result)) ∨
      Effect curve ed25519 account account' := by
  cases h with
  | newAccount hrun => exact .inl ⟨_, _, hrun⟩
  | generatePrekey hrun => exact .inr (generatePrekey_effect hrun)
  | forgetOldPrekey => exact .inr forgetOldPrekey_effect
  | markPrekeyAsPublished now => exact .inr (markPrekeyAsPublished_effect now)
  | generateOneTimeKeys hrun => exact .inr (generateOneTimeKeys_effect hrun)
  | removeKey publicKey => exact .inr (removeKey_effect publicKey)
  | markKeysAsPublished => exact .inr .markKeysAsPublished
  | generateFallbackKey hrun => exact .inr (generateFallbackKey_effect hrun)
  | forgetOldFallbackKey => exact .inr forgetOldFallbackKey_effect

/-- **A call other than unpickling** leaves nothing in a slot it stops
using. -/
theorem LeftOverZero.step (h : account.LeftOverZero)
    (hstep : Step curve ed25519 account account') : account'.LeftOverZero := by
  rcases hstep.effect with ⟨random, result, hrun⟩ | heffect
  · exact h.newAccount hrun
  · exact h.effect heffect

/-! ## Reading a pickle -/

/-- The slots and their number. -/
def prekeySlots (account : Account) : UInt8 × PreKey × PreKey :=
  (account.numPrekeys, account.currentPrekey, account.prevPrekey)

/-- Two slots behind their count, read with success: those in use were read,
and there is no third. -/
theorem slots_eq_some {count : Account → UInt8} {current prev : Unpickler Account}
    {s s' : Account} {input rest : Bytes}
    (hcurrent : ∀ n, current.Preserves (fun s => count s = n))
    (hprev : ∀ n, prev.Preserves (fun s => count s = n))
    (h : Unpickler.onlyIf (fun s => count s ≥ 1) (current.andThen
      (.onlyIf (fun s => count s ≥ 2) (prev.andThen
        (.onlyIf (fun s => count s ≥ 3) corrupted)))) s input = (s', some rest)) :
    (count s = 0 ∧ s' = s) ∨ (count s = 1 ∧ current s input = (s', some rest)) ∨
      (count s = 2 ∧ ∃ s₁ rest₁, current s input = (s₁, some rest₁) ∧
        prev s₁ rest₁ = (s', some rest)) := by
  simp only [← UInt8.toNat_inj, UInt8.toNat_ofNat]
  rcases Unpickler.onlyIf_eq_some h with ⟨hone, h⟩ | ⟨hone, rfl, -⟩
  · obtain ⟨s₁, rest₁, h₁, h⟩ := Unpickler.andThen_eq_some.mp h
    have hcount₁ : count s₁ = count s := by
      have hkept := hcurrent (count s) s input rfl
      rwa [h₁] at hkept
    rcases Unpickler.onlyIf_eq_some h with ⟨htwo, h⟩ | ⟨htwo, rfl, rfl⟩
    · obtain ⟨s₂, rest₂, h₂, h⟩ := Unpickler.andThen_eq_some.mp h
      have hcount₂ : count s₂ = count s := by
        have hkept := hprev (count s) s₁ rest₁ hcount₁
        rwa [h₂] at hkept
      rcases Unpickler.onlyIf_eq_some h with ⟨-, h⟩ | ⟨hthree, rfl, rfl⟩
      · simp [corrupted, Unpickler.failWith] at h
      · rw [hcount₁] at htwo
        rw [hcount₂] at hthree
        simp only [ge_iff_le, decide_eq_true_eq, decide_eq_false_iff_not, UInt8.le_iff_toNat_le,
          UInt8.toNat_ofNat] at htwo hthree
        exact .inr (.inr ⟨by omega, s₁, rest₁, h₁, h₂⟩)
    · rw [hcount₁] at htwo
      simp only [ge_iff_le, decide_eq_true_eq, decide_eq_false_iff_not, UInt8.le_iff_toNat_le,
        UInt8.toNat_ofNat] at hone htwo
      exact .inr (.inl ⟨by omega, h₁⟩)
  · simp only [ge_iff_le, decide_eq_false_iff_not, UInt8.le_iff_toNat_le,
      UInt8.toNat_ofNat] at hone
    exact .inl ⟨by omega, rfl⟩

/-- Reading the prekeys writes only to the slots that are in use
afterwards. -/
theorem unpicklePrekeys_eq_some {input rest : Bytes}
    (h : unpicklePrekeys account input = (account', some rest)) :
    account'.numPrekeys ≤ 2 ∧
      (¬ account'.numPrekeys ≥ 1 → account'.currentPrekey = account.currentPrekey) ∧
      (¬ account'.numPrekeys = 2 → account'.prevPrekey = account.prevPrekey) := by
  obtain ⟨s₁, rest₁, h₁, h⟩ := Unpickler.andThen_eq_some.mp h
  obtain ⟨num, -, rfl⟩ := Unpickler.field_eq_some.mp h₁
  have hcurrent : ∀ n, (Unpickler.field (·.currentPrekey)
      (fun s a => { s with currentPrekey := a }) unpicklePreKey).Preserves
        (fun s : Account => s.numPrekeys = n) := fun n => .field _ (fun _ _ h => h)
  have hprev : ∀ n, (Unpickler.field (·.prevPrekey)
      (fun s a => { s with prevPrekey := a }) unpicklePreKey).Preserves
        (fun s : Account => s.numPrekeys = n) := fun n => .field _ (fun _ _ h => h)
  rcases slots_eq_some hcurrent hprev h with
    ⟨hnum, rfl⟩ | ⟨hnum, h⟩ | ⟨hnum, s₂, rest₂, h₂, h⟩
  · exact ⟨hnum ▸ by decide, fun _ => rfl, fun _ => rfl⟩
  · obtain ⟨current, -, rfl⟩ := Unpickler.field_eq_some.mp h
    dsimp only at hnum ⊢
    subst hnum
    exact ⟨by decide, fun hnot => absurd (by decide) hnot, fun _ => rfl⟩
  · obtain ⟨current, -, rfl⟩ := Unpickler.field_eq_some.mp h₂
    obtain ⟨prev, -, rfl⟩ := Unpickler.field_eq_some.mp h
    dsimp only at hnum ⊢
    subst hnum
    exact ⟨by decide, fun hnot => absurd (by decide) hnot, fun hnot => absurd rfl hnot⟩

/-- Nothing else that is read touches them. -/
theorem unpickleFallbackKeys_preserves (version : UInt32) (slots : UInt8 × PreKey × PreKey) :
    (unpickleFallbackKeys version).Preserves (fun s => s.prekeySlots = slots) := by
  have hcurrent : unpickleCurrentFallbackKey.Preserves (fun s => s.prekeySlots = slots) :=
    .field _ (fun _ _ h => h)
  have hprev : unpicklePrevFallbackKey.Preserves (fun s => s.prekeySlots = slots) :=
    .field _ (fun _ _ h => h)
  unfold unpickleFallbackKeys
  split
  · intro _ _ h
    exact h
  · split
    · exact hcurrent.andThen (hprev.andThen (fun _ _ h => h))
    · exact .andThen (.field _ (fun _ _ h => h))
        (.onlyIf _ (hcurrent.andThen (.onlyIf _ (hprev.andThen (.onlyIf _ (fun _ _ h => h))))))

/-- The one-time keys and fallback keys come after the prekeys. -/
theorem unpickleKeys_preserves (stale : ℕ → OneTimeKey) (version : UInt32)
    (slots : UInt8 × PreKey × PreKey) :
    ((Unpickler.field (·.oneTimeKeys) (fun s a => { s with oneTimeKeys := a })
      (unpickleList unpickleOneTimeKey stale)).andThen
    ((unpickleFallbackKeys version).andThen
    (.field (·.nextOneTimeKeyId) (fun s a => { s with nextOneTimeKeyId := a })
      unpickleUInt32))).Preserves (fun s : Account => s.prekeySlots = slots) :=
  .andThen (.field _ (fun _ _ h => h)) (.andThen (unpickleFallbackKeys_preserves version slots)
    (.field _ (fun _ _ h => h)))

section Body

variable {stale : ℕ → OneTimeKey} {version : UInt32} {pickled input rest : Bytes}

/-- What comes after the version leaves them as a new account has them, or
as the prekeys of the pickle left them. -/
theorem LeftOverZero.unpickleBody (h : account.LeftOverZero)
    (hzero : account.currentPrekey.key.publicKey = FixedBytes.zero _ ∧
      account.prevPrekey.key.publicKey = FixedBytes.zero _)
    (hrun : Account.unpickleBody stale version account input = (account', some rest)) :
    account'.LeftOverZero := by
  obtain ⟨s₁, rest₁, h₁, hrun⟩ := Unpickler.andThen_eq_some.mp hrun
  obtain ⟨identityKeys, -, rfl⟩ := Unpickler.field_eq_some.mp h₁
  obtain ⟨s₂, rest₂, h₂, hrun⟩ := Unpickler.andThen_eq_some.mp hrun
  have hs₂ : s₂.LeftOverZero := by
    rcases Unpickler.onlyIf_eq_some h₂ with ⟨-, h₂⟩ | ⟨-, rfl, -⟩
    · obtain ⟨s₃, rest₃, h₃, h₂⟩ := Unpickler.andThen_eq_some.mp h₂
      obtain ⟨hle, hcurrent, hprev⟩ := unpicklePrekeys_eq_some h₃
      have hs₃ : s₃.LeftOverZero :=
        ⟨hle, fun hnot => by rw [hcurrent hnot]; exact hzero.1,
          fun hnot => by rw [hprev hnot]; exact hzero.2⟩
      obtain ⟨s₄, rest₄, h₄, h₂⟩ := Unpickler.andThen_eq_some.mp h₂
      obtain ⟨nextPrekeyId, -, rfl⟩ := Unpickler.field_eq_some.mp h₄
      obtain ⟨lastPrekeyPublishTime, -, rfl⟩ := Unpickler.field_eq_some.mp h₂
      exact hs₃.congr rfl rfl rfl
    · exact h.congr rfl rfl rfl
  have hslots := unpickleKeys_preserves stale version s₂.prekeySlots s₂ rest₂ rfl
  rw [hrun] at hslots
  simp only [prekeySlots, Prod.mk.injEq] at hslots
  exact hs₂.congr hslots.1 (by rw [hslots.2.1]) (by rw [hslots.2.2])

/-- An old version has no prekeys to read. -/
theorem prekeySlots_unpickleBody (hversion : ¬ version ≥ 10005)
    (h : unpickleBody stale version account input = (account', some rest)) :
    account'.prekeySlots = account.prekeySlots := by
  have hskip : Unpickler.Preserves (.onlyIf (fun _ => version ≥ 10005) unpickleX3dh)
      (fun s : Account => s.prekeySlots = account.prekeySlots) := by
    intro s input hs
    unfold Unpickler.onlyIf
    rw [if_neg (by simpa using hversion)]
    exact hs
  have hpreserved : (Account.unpickleBody stale version).Preserves
      (fun s => s.prekeySlots = account.prekeySlots) :=
    .andThen (.field _ (fun _ _ h => h)) (.andThen hskip (unpickleKeys_preserves stale version _))
  have hslots := hpreserved account input rfl
  rwa [h] at hslots

/-- A pickle that is accepted is read to its end. -/
theorem unpickleAccount_eq_some
    (h : account.unpickleAccount stale pickled = (account', some ())) :
    ∃ version rest, unpickleUInt32 0 pickled = (version, some rest) ∧
      unpickleBody stale version account rest = (account', some []) := by
  unfold unpickleAccount at h
  split at h
  · split at h <;> simp [fail] at h
  · rename_i read hread
    simp only [Prod.mk.injEq, and_true] at h
    subst h
    unfold unpickle at hread
    split at hread
    · simp at hread
    · rename_i version rest hversion
      split at hread
      · exact ⟨version, rest, hversion, hread⟩
      · split at hread <;> simp at hread
  · simp [fail] at h

/-- A pickle that a new account accepts. -/
theorem leftOverZero_unpickleAccount
    (h : (Account.new.unpickleAccount stale pickled).2 = some ()) :
    (Account.new.unpickleAccount stale pickled).1.LeftOverZero := by
  obtain ⟨version, rest, -, hbody⟩ := unpickleAccount_eq_some (Prod.ext rfl h)
  exact leftOverZero_new.unpickleBody ⟨rfl, rfl⟩ hbody

end Body

/-! ## The runs -/

/-- **Where pickles are read into new accounts, a slot that is not in use
holds zeros**, throughout a run. -/
theorem Reachable.leftOverZero (h : Reachable curve ed25519 IntoNew account) :
    account.LeftOverZero := by
  induction h with
  | new => exact leftOverZero_new
  | step _ hstep ih => exact ih.step hstep
  | unpickle stale pickled _ hinto _ =>
    obtain ⟨rfl, haccepted⟩ := hinto
    exact leftOverZero_unpickleAccount haccepted

theorem LeftOverZero.isLeftOver_iff (h : account.LeftOverZero) :
    account.IsLeftOver publicKey ↔
      publicKey = FixedBytes.zero _ ∧ account.numPrekeys ≠ 2 := by
  constructor
  · rintro (⟨hnum, rfl⟩ | ⟨hnum, rfl⟩)
    · refine ⟨h.current hnum, ?_⟩
      intro htwo
      exact hnum (by rw [htwo]; decide)
    · exact ⟨h.prev hnum, hnum⟩
  · rintro ⟨rfl, hnum⟩
    exact .inr ⟨hnum, h.prev hnum⟩

end Olm.Account
