import Olm.Account.Bundle
import Olm.Account.JsonText
import Olm.Account.Prekeys
import Olm.Common.Run
import Olm.Session.Setup

/-!
# The prekeys an account publishes

What `get_prekey_json` and `get_unpublished_prekey_json` name, over whole
runs of an account. They read the slot of the current prekey and never
`num_prekeys`, so an account that has no prekey publishes the zeros the slot
holds. An account from a pickle of an old version is one: before version
10005 there were no prekeys. As soon as there is one, the key that is named
is the account's own, and its signature goes with it.
-/

namespace Olm

variable {K : Type}

namespace Account

/-! ## What the getters output -/

/-- A getter of the prekey wrote an object that names the key. -/
def OutputsPrekey (account : Account) (publicKey : Curve25519PublicKey) : Prop :=
  ∃ json account' buf length id,
    (account.getPrekeyJson json = .ok (account', some (buf, length)) ∨
      account.getUnpublishedPrekeyJson json = .ok (account', some (buf, length))) ∧
    buf.take length = singleKeyText id publicKey

/-- `get_prekey_signature` writes the code of the signature, where there is
room for it. -/
def OutputsSignature (account : Account) (signature : Ed25519Signature) : Prop :=
  ∀ room : Bytes, encodeBase64Length ED25519_SIGNATURE_LENGTH ≤ room.length →
    ∃ buf length, account.getPrekeySignature room = .ok (buf, length) ∧
      buf.take (encodeBase64Length ED25519_SIGNATURE_LENGTH) = Base64.encode signature.val

variable {account account' : Account} {publicKey : Curve25519PublicKey} {json buf : Bytes}
  {length : ℕ}

theorem getPrekeyJson_eq (hroom : account.getPrekeyJsonLength ≤ json.length) :
    account.getPrekeyJson json =
      .ok (account, some
        (singleKeyText account.currentPrekey.id account.currentPrekey.key.publicKey ++
          json.drop (singleKeyText account.currentPrekey.id
            account.currentPrekey.key.publicKey).length,
        (singleKeyText account.currentPrekey.id account.currentPrekey.key.publicKey).length)) := by
  unfold getPrekeyJsonLength at hroom
  unfold getPrekeyJson getSingleKeyJson
  rw [if_neg (Nat.not_lt.mpr hroom), prekeyEntry, writeSingleKeyJson_eq hroom, Checked.ok_bind]

theorem getPrekeyJson_eq_some
    (h : account.getPrekeyJson json = .ok (account', some (buf, length))) :
    buf.take length =
      singleKeyText account.currentPrekey.id account.currentPrekey.key.publicKey := by
  by_cases hroom : account.getPrekeyJsonLength ≤ json.length
  · rw [getPrekeyJson_eq hroom] at h
    simp only [Except.ok.injEq, Prod.mk.injEq, Option.some.injEq] at h
    obtain ⟨-, rfl, rfl⟩ := h
    exact List.take_left
  · unfold getPrekeyJsonLength at hroom
    unfold getPrekeyJson getSingleKeyJson at h
    rw [if_pos (Nat.lt_of_not_le hroom)] at h
    simp [fail] at h

/-- The other getter writes the same, or nothing. -/
theorem getUnpublishedPrekeyJson_eq_some
    (h : account.getUnpublishedPrekeyJson json = .ok (account', some (buf, length))) :
    length = 0 ∨ account.getPrekeyJson json = .ok (account', some (buf, length)) := by
  unfold getUnpublishedPrekeyJson getPrekeyJsonLength at h
  split at h
  · simp [fail] at h
  · rename_i hroom
    split at h
    · simp only [Except.ok.injEq, Prod.mk.injEq, Option.some.injEq] at h
      exact .inl h.2.2.symm
    · refine .inr ?_
      unfold getPrekeyJson getSingleKeyJson
      rwa [if_neg hroom]

/-- **The key that is named** is in the slot of the current prekey. -/
theorem OutputsPrekey.eq (h : account.OutputsPrekey publicKey) :
    account.currentPrekey.key.publicKey = publicKey := by
  obtain ⟨json, account', buf, length, id, hget, htext⟩ := h
  have hget : account.getPrekeyJson json = .ok (account', some (buf, length)) := by
    rcases hget with hget | hget
    · exact hget
    · rcases getUnpublishedPrekeyJson_eq_some hget with rfl | hget
      · cases htext
      · exact hget
  rw [getPrekeyJson_eq_some hget] at htext
  exact singleKeyText_inj htext

/-- **There always is one**, whatever `num_prekeys`. -/
theorem outputsPrekey_current (account : Account) :
    account.OutputsPrekey account.currentPrekey.key.publicKey := by
  have hroom : account.getPrekeyJsonLength ≤
      (List.replicate account.getPrekeyJsonLength (0 : UInt8)).length := by
    rw [List.length_replicate]
  exact ⟨_, _, _, _, account.currentPrekey.id, .inl (getPrekeyJson_eq hroom), List.take_left⟩

theorem outputsSignature_current (account : Account) :
    account.OutputsSignature account.currentPrekey.signature := by
  intro room hroom
  have hcode := encodeBase64_object_into account.currentPrekey.signature.property hroom
  refine ⟨_, _, by rw [getPrekeySignature, hcode, Checked.ok_bind], ?_⟩
  exact List.take_left' ((Base64.encode_length _).trans
    (congrArg encodeBase64Length account.currentPrekey.signature.property))

end Account

/-! ## Accounts and the prekeys they made -/

/-- An account, and the prekeys it generated, the last first. -/
structure Publisher where
  account : Account
  made : List Curve25519KeyPair

namespace Publisher

open Account

variable (curve : Curve25519) (ed25519 : Ed25519)

/-- What happens to an account. -/
inductive Event where
  | newAccount (random : Bytes)
  | call (request : Call)
  | pickle (stale : ℕ → OneTimeKey)

/-- One call, and what goes on record of it. A pickle is read into a new
account. -/
def step (s : Publisher) : Event → Checked Publisher
  | .newAccount random => do
    let (account, result) ← s.account.newAccount curve ed25519 random
    if result.isNone then .ok { s with account := account }
    else
      let key ← loadArray CURVE25519_KEY_LENGTH random
        (ED25519_RANDOM_LENGTH + CURVE25519_KEY_LENGTH)
      .ok { account := account, made := curve.generateKey key :: s.made }
  | .call (.generatePrekey random) => do
    let (account, result) ← s.account.generatePrekey curve ed25519 random
    if result.isNone then .ok { s with account := account }
    else
      let key ← loadArray CURVE25519_KEY_LENGTH random 0
      .ok { account := account, made := curve.generateKey key :: s.made }
  | .call request => do
    let (account, _) ← s.account.call curve ed25519 request
    .ok { s with account := account }
  | .pickle stale =>
    .ok { s with account := (Account.new.unpickleAccount stale s.account.pickle).1 }

/-- A pickle of a version that has no prekeys. -/
def IsOldPickle (pickled : Bytes) : Prop :=
  ∃ version rest, unpickleUInt32 0 pickled = (version, some rest) ∧
    (version = 4 ∨ version = 3 ∨ version = 2)

/-- **Where accounts come from**: they are made, or read from a pickle of an
old version that has the identity keys an account generated. A pickle of
version 10005 is one that such an account wrote. -/
inductive Starts : Publisher → Prop
  | newAccount {random : Bytes} {account : Account} {key : FixedBytes CURVE25519_KEY_LENGTH} :
      Account.new.newAccount curve ed25519 random = .ok (account, some 0) →
      loadArray CURVE25519_KEY_LENGTH random (ED25519_RANDOM_LENGTH + CURVE25519_KEY_LENGTH) =
        .ok key →
      Starts { account := account, made := [curve.generateKey key] }
  | unpickle {stale : ℕ → OneTimeKey} {pickled : Bytes} {account : Account}
      {random : FixedBytes ED25519_RANDOM_LENGTH} :
      IsOldPickle pickled → Account.new.unpickleAccount stale pickled = (account, some ()) →
      account.identityKeys.ed25519Key = ed25519.generateKey random →
      Starts { account := account, made := [] }

/-- **What publishing a prekey should mean.** -/
structure Publishes (prims : Primitives K) (s : Publisher) : Prop where
  /-- The key is a prekey in use that the account generated, and it has the
  private part. -/
  own : ∀ publicKey, s.account.OutputsPrekey publicKey →
    s.account.numPrekeys ≥ 1 ∧ ∃ prekey, s.account.HoldsPrekey prekey ∧
      prekey.key.publicKey = publicKey ∧ prekey.key ∈ s.made ∧ prims.curve.Generated prekey.key
  /-- The signature goes with it, and others accept the bundle. -/
  signed : ∀ publicKey, s.account.OutputsPrekey publicKey →
    ∃ signature, s.account.OutputsSignature signature ∧
      prims.ed25519.verify s.account.identityKeys.ed25519Key.publicKey publicKey.val signature =
        true ∧
      ∀ (session : Session K) (localAccount : Account) (random : Bytes)
        (oneTimeKey : Option Curve25519PublicKey),
        Session.newOutboundSessionRandomLength ≤ random.length →
        ∃ session', session.newOutboundSession prims localAccount
          s.account.identityKeys.curve25519Key.publicKey
          s.account.identityKeys.ed25519Key.publicKey publicKey signature random oneTimeKey =
            .ok (session', some ())
  /-- Without a prekey there is nothing to publish. -/
  none : s.account.numPrekeys = 0 → ∀ publicKey, ¬ s.account.OutputsPrekey publicKey

variable {curve ed25519} {prims : Primitives K} {start s s' : Publisher}

/-! ## What a run keeps -/

/-- The current prekey, where there is one, was generated and signed by the
account. -/
structure Ready (curve : Curve25519) (ed25519 : Ed25519) (s : Publisher) : Prop where
  signingKey : ∃ random, s.account.identityKeys.ed25519Key = ed25519.generateKey random
  made : ∀ pair ∈ s.made, curve.Generated pair
  current : s.account.numPrekeys ≥ 1 → s.account.currentPrekey.key ∈ s.made ∧
    s.account.currentPrekey.signature =
      s.account.sign ed25519 s.account.currentPrekey.key.publicKey.val
  leftOver : s.account.LeftOverZero
  numFallbackKeys_le : s.account.numFallbackKeys ≤ 2

theorem Ready.fail (h : s.Ready curve ed25519) (code : OlmErrorCode) :
    Ready curve ed25519 { s with account := { s.account with lastError := code } } :=
  ⟨h.signingKey, h.made, h.current, h.leftOver.congr rfl rfl rfl, h.numFallbackKeys_le⟩

/-- At most two fallback keys, whatever is called. -/
theorem numFallbackKeys_le_effect {account account' : Account} (h : account.numFallbackKeys ≤ 2)
    (heffect : Effect curve ed25519 account account') : account'.numFallbackKeys ≤ 2 := by
  cases heffect with
  | error | generatePrekey | forgetOldPrekey | markPrekeyAsPublished | oneTimeKeys
      | markKeysAsPublished => exact h
  | generateFallbackKey random =>
    dsimp only
    split
    · rename_i hlt
      simp only [UInt8.lt_iff_toNat_lt, UInt8.le_iff_toNat_le, UInt8.toNat_add,
        UInt8.toNat_ofNat] at hlt ⊢
      omega
    · exact h
  | forgetOldFallbackKey => exact show (1 : UInt8) ≤ 2 by decide

/-- A call that takes no new id for a prekey keeps the current one. -/
theorem Ready.effect {account' : Account} (h : s.Ready curve ed25519)
    (heffect : Effect curve ed25519 s.account account')
    (hid : account'.nextPrekeyId = s.account.nextPrekeyId) :
    Ready curve ed25519 { s with account := account' } := by
  have hleft := h.leftOver.effect heffect
  have hfallback := numFallbackKeys_le_effect h.numFallbackKeys_le heffect
  cases heffect with
  | generatePrekey random =>
    exact absurd hid (by simp)
  | forgetOldPrekey hnum =>
    exact ⟨h.signingKey, h.made, fun _ => h.current (by rw [hnum]; decide), hleft, hfallback⟩
  | error | markPrekeyAsPublished | oneTimeKeys | markKeysAsPublished | generateFallbackKey
      | forgetOldFallbackKey => exact ⟨h.signingKey, h.made, h.current, hleft, hfallback⟩

/-- Every call but the one that generates a prekey leaves the record as it
is. -/
theorem step_call {request : Call} (hne : ∀ random, request ≠ .generatePrekey random) :
    step curve ed25519 s (.call request) = (do
      let (account, _) ← s.account.call curve ed25519 request
      .ok { s with account := account }) := by
  cases request with
  | generatePrekey random => exact absurd rfl (hne random)
  | _ => rfl

/-- What is read over a new account. -/
theorem Ready.pickle (h : s.Ready curve ed25519) (stale : ℕ → OneTimeKey) :
    Ready curve ed25519
      { s with account := (Account.new.unpickleAccount stale s.account.pickle).1 } := by
  have hread := unpickleAccount_pickle stale (show Account.new.oneTimeKeys = .empty from rfl)
    h.leftOver.numPrekeys_le h.numFallbackKeys_le
  have hleft : (Account.new.unpickleAccount stale s.account.pickle).1.LeftOverZero :=
    leftOverZero_unpickleAccount (congrArg Prod.snd hread)
  rw [hread] at hleft ⊢
  refine ⟨h.signingKey, h.made, fun hone => ?_, hleft, h.numFallbackKeys_le⟩
  have hslot : (s.account.restoredOver .new).currentPrekey = s.account.currentPrekey := if_pos hone
  have hcurrent := h.current hone
  rw [← hslot] at hcurrent
  exact hcurrent

/-- **One step.** -/
theorem Ready.step {e : Event} (h : s.Ready curve ed25519)
    (hrun : Publisher.step curve ed25519 s e = .ok s') : s'.Ready curve ed25519 := by
  cases e with
  | newAccount random =>
    obtain ⟨⟨account, result⟩, hnew, hrun⟩ := Checked.bind_eq_ok.mp hrun
    have hleft := h.leftOver.newAccount hnew
    rcases newAccount_exits hnew with
      ⟨code, rfl, rfl⟩ | ⟨signing, identity, key, hkey, rfl, rfl⟩
    · obtain rfl := Except.ok.inj hrun
      exact h.fail code
    · obtain ⟨key', hkey', hrun⟩ := Checked.bind_eq_ok.mp hrun
      obtain rfl := Except.ok.inj (hkey.symm.trans hkey')
      obtain rfl := Except.ok.inj hrun
      exact ⟨⟨signing, rfl⟩,
        List.forall_mem_cons.mpr ⟨curve.generated_generateKey key, h.made⟩,
        fun _ => ⟨List.mem_cons_self, rfl⟩, hleft, h.numFallbackKeys_le⟩
  | call request =>
    by_cases hgenerate : ∃ random, request = .generatePrekey random
    · obtain ⟨random, rfl⟩ := hgenerate
      obtain ⟨⟨account, result⟩, hgenerate, hrun⟩ := Checked.bind_eq_ok.mp hrun
      have hleft := h.leftOver.effect (generatePrekey_effect hgenerate)
      rcases generatePrekey_exits hgenerate with ⟨code, rfl, rfl⟩ | ⟨key, hkey, rfl, rfl⟩
      · obtain rfl := Except.ok.inj hrun
        exact h.fail code
      · obtain ⟨key', hkey', hrun⟩ := Checked.bind_eq_ok.mp hrun
        obtain rfl := Except.ok.inj (hkey.symm.trans hkey')
        obtain rfl := Except.ok.inj hrun
        exact ⟨h.signingKey,
          List.forall_mem_cons.mpr ⟨curve.generated_generateKey key, h.made⟩,
          fun _ => ⟨List.mem_cons_self, rfl⟩, hleft, h.numFallbackKeys_le⟩
    · have hne := not_exists.mp hgenerate
      rw [step_call hne] at hrun
      obtain ⟨⟨account, reply⟩, hcall, hrun⟩ := Checked.bind_eq_ok.mp hrun
      obtain rfl := Except.ok.inj hrun
      exact h.effect (call_effect hcall) (nextPrekeyId_call hne hcall)
  | pickle stale =>
    obtain rfl := Except.ok.inj hrun
    exact h.pickle stale

end Publisher

/-! ## Pickles of old versions -/

namespace Account

variable {account account' : Account} {stale : ℕ → OneTimeKey} {version : UInt32}
  {pickled input rest : Bytes}

/-- At most two fallback keys are read. -/
theorem numFallbackKeys_unpickleFallbackKeys
    (h : unpickleFallbackKeys version account input = (account', some rest)) :
    account'.numFallbackKeys ≤ 2 := by
  unfold unpickleFallbackKeys at h
  split at h
  · obtain ⟨rfl, -⟩ := Prod.mk.inj h
    exact show (0 : UInt8) ≤ 2 by decide
  · split at h
    · obtain ⟨s₁, rest₁, -, h⟩ := Unpickler.andThen_eq_some.mp h
      obtain ⟨s₂, rest₂, -, h⟩ := Unpickler.andThen_eq_some.mp h
      obtain ⟨rfl, -⟩ := Prod.mk.inj h
      dsimp only
      split
      · split <;> decide
      · decide
    · obtain ⟨s₁, rest₁, h₁, h⟩ := Unpickler.andThen_eq_some.mp h
      obtain ⟨num, -, rfl⟩ := Unpickler.field_eq_some.mp h₁
      have hcurrent : ∀ n, unpickleCurrentFallbackKey.Preserves
          (fun s : Account => s.numFallbackKeys = n) := fun n => .field _ (fun _ _ h => h)
      have hprev : ∀ n, unpicklePrevFallbackKey.Preserves
          (fun s : Account => s.numFallbackKeys = n) := fun n => .field _ (fun _ _ h => h)
      rcases slots_eq_some hcurrent hprev h with
        ⟨hnum, rfl⟩ | ⟨hnum, h⟩ | ⟨hnum, s₂, rest₂, h₂, h⟩
      · dsimp only at hnum ⊢
        subst hnum
        decide
      · obtain ⟨current, -, rfl⟩ := Unpickler.field_eq_some.mp h
        dsimp only at hnum ⊢
        subst hnum
        decide
      · obtain ⟨current, -, rfl⟩ := Unpickler.field_eq_some.mp h₂
        obtain ⟨prev, -, rfl⟩ := Unpickler.field_eq_some.mp h
        dsimp only at hnum ⊢
        subst hnum
        decide

theorem numFallbackKeys_unpickleBody
    (h : unpickleBody stale version account input = (account', some rest)) :
    account'.numFallbackKeys ≤ 2 := by
  obtain ⟨s₁, rest₁, -, h⟩ := Unpickler.andThen_eq_some.mp h
  obtain ⟨s₂, rest₂, -, h⟩ := Unpickler.andThen_eq_some.mp h
  obtain ⟨s₃, rest₃, -, h⟩ := Unpickler.andThen_eq_some.mp h
  obtain ⟨s₄, rest₄, h₄, h⟩ := Unpickler.andThen_eq_some.mp h
  obtain ⟨id, -, rfl⟩ := Unpickler.field_eq_some.mp h
  have hle := numFallbackKeys_unpickleFallbackKeys h₄
  exact hle

end Account

namespace Publisher

open Account

variable {prims : Primitives K} {curve : Curve25519} {ed25519 : Ed25519} {start s : Publisher}

theorem Starts.ready (h : Starts curve ed25519 start) : start.Ready curve ed25519 := by
  cases h with
  | newAccount hnew hkey =>
    have hleft := leftOverZero_new.newAccount hnew
    rcases newAccount_exits hnew with ⟨code, -, hnone⟩ | ⟨signing, identity, key, hkey', -, rfl⟩
    · cases hnone
    · obtain rfl := Except.ok.inj (hkey'.symm.trans hkey)
      exact ⟨⟨signing, rfl⟩, List.forall_mem_singleton.mpr (curve.generated_generateKey key),
        fun _ => ⟨List.mem_singleton_self _, rfl⟩, hleft, show (0 : UInt8) ≤ 2 by decide⟩
  | @unpickle stale pickled account random hold hread hsigning =>
    have hleft := leftOverZero_unpickleAccount (congrArg Prod.snd hread)
    rw [hread] at hleft
    obtain ⟨version, rest, hversion, hbody⟩ := unpickleAccount_eq_some hread
    obtain ⟨version', rest', hversion', hold⟩ := hold
    obtain ⟨rfl, -⟩ := Prod.mk.inj (hversion.symm.trans hversion')
    have hslots := prekeySlots_unpickleBody (by rcases hold with rfl | rfl | rfl <;> decide) hbody
    have hnone : ¬ account.numPrekeys ≥ 1 := by
      have hnum : account.numPrekeys = 0 := congrArg Prod.fst hslots
      rw [hnum]
      decide
    exact ⟨⟨random, hsigning⟩, nofun, fun hone => absurd hone hnone, hleft,
      numFallbackKeys_unpickleBody hbody⟩

/-- Where there is a prekey, it is the one that is published. -/
theorem Ready.publishes (h : s.Ready prims.curve prims.ed25519)
    (haccepts : prims.ed25519.Accepts) (hone : s.account.numPrekeys ≥ 1) : s.Publishes prims := by
  obtain ⟨hmade, hsignature⟩ := h.current hone
  refine ⟨?_, ?_, ?_⟩
  · intro publicKey houtput
    exact ⟨hone, s.account.currentPrekey, .inl rfl, houtput.eq, hmade, h.made _ hmade⟩
  · intro publicKey houtput
    obtain rfl := houtput.eq
    have hverify : prims.ed25519.verify s.account.identityKeys.ed25519Key.publicKey
        s.account.currentPrekey.key.publicKey.val s.account.currentPrekey.signature = true := by
      obtain ⟨random, hsigning⟩ := h.signingKey
      rw [hsignature, sign, hsigning]
      exact haccepts random _
    exact ⟨s.account.currentPrekey.signature, outputsSignature_current s.account, hverify,
      fun session localAccount random oneTimeKey hrandom =>
        Session.exists_newOutboundSession hverify hrandom oneTimeKey⟩
  · intro hzero
    rw [hzero] at hone
    exact absurd hone (by decide)

/-- **An account publishes its own prekeys** exactly while it has one. -/
theorem publishes_iff (haccepts : prims.ed25519.Accepts)
    (hstart : Starts prims.curve prims.ed25519 start)
    (hrun : Run (step prims.curve prims.ed25519) (fun _ _ => True) start s) :
    s.Publishes prims ↔ s.account.numPrekeys ≥ 1 := by
  have hready : s.Ready prims.curve prims.ed25519 :=
    hrun.invariant hstart.ready (fun _ _ _ h _ hstep => h.step hstep)
  constructor
  · intro hpublishes
    by_contra hnone
    have hzero : s.account.numPrekeys = 0 := by
      simp only [ge_iff_le, UInt8.le_iff_toNat_le, UInt8.toNat_ofNat] at hnone
      exact UInt8.toNat_inj.mp (by simpa using hnone)
    exact hpublishes.none hzero _ (outputsPrekey_current s.account)
  · exact hready.publishes haccepts

/-- A pickle of version 4 that is all zeros after the version: it has no keys
but the identity keys. -/
def oldPickle : Bytes := [0, 0, 0, 4] ++ List.replicate 169 0

/-- The account it is read into. -/
def ofOldPickle : Publisher where
  account := (Account.new.unpickleAccount (fun _ => .zero) oldPickle).1
  made := []

theorem starts_ofOldPickle : Starts .xor .accepting ofOldPickle :=
  @Starts.unpickle .xor .accepting (fun _ => .zero) oldPickle _ (FixedBytes.zero _)
    ⟨4, List.replicate 169 0, by decide +kernel, .inl rfl⟩ (by decide +kernel) (by decide +kernel)

/-- It publishes a key of zeros, that it never made; and once it has made a
prekey, it publishes that one. -/
theorem publishes_iff_ofOldPickle : ∃ s : Publisher,
    ofOldPickle.account.OutputsPrekey (FixedBytes.zero _) ∧ ofOldPickle.account.numPrekeys = 0 ∧
    (ofOldPickle.Publishes Primitives.symbolic ↔ ofOldPickle.account.numPrekeys ≥ 1) ∧
    s.account.numPrekeys = 1 ∧
    (s.Publishes Primitives.symbolic ↔ s.account.numPrekeys ≥ 1) := by
  have h₀ : Run (step .xor .accepting) (fun _ _ => True) ofOldPickle ofOldPickle := .start
  have h₁ := h₀.extend (.call (.generatePrekey (List.replicate 32 5))) trivial (by decide +kernel)
  have hzero : ofOldPickle.account.currentPrekey.key.publicKey = FixedBytes.zero _ := by
    decide +kernel
  exact ⟨_, hzero ▸ outputsPrekey_current _, by decide +kernel,
    publishes_iff Ed25519.accepting_accepts starts_ofOldPickle h₀, by decide +kernel,
    publishes_iff Ed25519.accepting_accepts starts_ofOldPickle h₁⟩

/-- **A key that is no prekey is published**, by an account that has none. -/
theorem not_publishes : ¬ ∀ start s : Publisher, Starts .xor .accepting start →
    Run (step .xor .accepting) (fun _ _ => True) start s → s.Publishes Primitives.symbolic := by
  intro hall
  have hpublishes := hall ofOldPickle ofOldPickle starts_ofOldPickle .start
  exact hpublishes.none (by decide +kernel) _ (outputsPrekey_current _)

end Publisher

end Olm
