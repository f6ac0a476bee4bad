import Olm.Account.Model
import Olm.Pickle

/-!
# Pickling an account

The end of `src/account.cpp`. Only the prekeys and fallback keys in use are
written, and only what was written is read: a slot that is not in use keeps
what it held. The one-time keys that are read go after those the account
has. `Account.reads_unpickle` is the round trip.
-/

namespace Olm

/-- `ACCOUNT_PICKLE_VERSION`. -/
def ACCOUNT_PICKLE_VERSION : UInt32 := 10005

/-! ## The parts -/

/-- `pickle_length` of `IdentityKeys`. -/
def pickleLengthIdentityKeys (value : IdentityKeys) : ℕ :=
  pickleLengthEd25519KeyPair value.ed25519Key + pickleLengthCurve25519KeyPair value.curve25519Key

/-- `pickle` of `IdentityKeys`. -/
def pickleIdentityKeys (value : IdentityKeys) : Bytes :=
  pickleEd25519KeyPair value.ed25519Key ++ pickleCurve25519KeyPair value.curve25519Key

/-- `unpickle` of `IdentityKeys`. -/
def unpickleIdentityKeys : Unpickler IdentityKeys :=
  (Unpickler.field (·.ed25519Key) (fun s a => { s with ed25519Key := a })
    unpickleEd25519KeyPair).andThen
  (.field (·.curve25519Key) (fun s a => { s with curve25519Key := a }) unpickleCurve25519KeyPair)

/-- `pickle_length` of a `PreKey`. -/
def pickleLengthPreKey (value : PreKey) : ℕ :=
  pickleLengthUInt32 value.id + pickleLengthBool value.published +
    pickleLengthCurve25519KeyPair value.key + ED25519_SIGNATURE_LENGTH

/-- `pickle` of a `PreKey`. -/
def picklePreKey (value : PreKey) : Bytes :=
  pickleUInt32 value.id ++ (pickleBool value.published ++
    (pickleCurve25519KeyPair value.key ++ value.signature.val))

/-- `unpickle` of a `PreKey`. -/
def unpicklePreKey : Unpickler PreKey :=
  (Unpickler.field (·.id) (fun s a => { s with id := a }) unpickleUInt32).andThen
  ((Unpickler.field (·.published) (fun s a => { s with published := a }) unpickleBool).andThen
  ((Unpickler.field (·.key) (fun s a => { s with key := a }) unpickleCurve25519KeyPair).andThen
  (.field (·.signature) (fun s a => { s with signature := a }) (unpickleBytes _))))

/-- `pickle_length` of a `OneTimeKey`. -/
def pickleLengthOneTimeKey (value : OneTimeKey) : ℕ :=
  pickleLengthUInt32 value.id + pickleLengthBool value.published +
    pickleLengthCurve25519KeyPair value.key

/-- `pickle` of a `OneTimeKey`. -/
def pickleOneTimeKey (value : OneTimeKey) : Bytes :=
  pickleUInt32 value.id ++ (pickleBool value.published ++ pickleCurve25519KeyPair value.key)

/-- `unpickle` of a `OneTimeKey`. -/
def unpickleOneTimeKey : Unpickler OneTimeKey :=
  (Unpickler.field (·.id) (fun s a => { s with id := a }) unpickleUInt32).andThen
  ((Unpickler.field (·.published) (fun s a => { s with published := a }) unpickleBool).andThen
  (.field (·.key) (fun s a => { s with key := a }) unpickleCurve25519KeyPair))

namespace Account

/-! ## The account -/

/-- `pickle_length`. -/
def pickleLength (account : Account) : ℕ :=
  pickleLengthUInt32 ACCOUNT_PICKLE_VERSION + pickleLengthIdentityKeys account.identityKeys +
    pickleLengthUInt8 account.numPrekeys +
    (if account.numPrekeys ≥ 1 then
      pickleLengthPreKey account.currentPrekey +
        (if account.numPrekeys ≥ 2 then pickleLengthPreKey account.prevPrekey else 0)
    else 0) +
    pickleLengthUInt32 account.nextPrekeyId + pickleLengthUInt64 account.lastPrekeyPublishTime +
    pickleLengthList pickleLengthOneTimeKey account.oneTimeKeys +
    pickleLengthUInt8 account.numFallbackKeys +
    (if account.numFallbackKeys ≥ 1 then
      pickleLengthOneTimeKey account.currentFallbackKey +
        (if account.numFallbackKeys ≥ 2 then pickleLengthOneTimeKey account.prevFallbackKey else 0)
    else 0) +
    pickleLengthUInt32 account.nextOneTimeKeyId

/-- The prekeys in use. -/
def picklePrekeys (account : Account) : Bytes :=
  pickleUInt8 account.numPrekeys ++
    (if account.numPrekeys ≥ 1 then
      picklePreKey account.currentPrekey ++
        (if account.numPrekeys ≥ 2 then picklePreKey account.prevPrekey else [])
    else [])

/-- The fallback keys in use. -/
def pickleFallbackKeys (account : Account) : Bytes :=
  pickleUInt8 account.numFallbackKeys ++
    (if account.numFallbackKeys ≥ 1 then
      pickleOneTimeKey account.currentFallbackKey ++
        (if account.numFallbackKeys ≥ 2 then pickleOneTimeKey account.prevFallbackKey else [])
    else [])

/-- `pickle`. -/
def pickle (account : Account) : Bytes :=
  pickleUInt32 ACCOUNT_PICKLE_VERSION ++ (pickleIdentityKeys account.identityKeys ++
    ((account.picklePrekeys ++
      (pickleUInt32 account.nextPrekeyId ++ pickleUInt64 account.lastPrekeyPublishTime)) ++
    (pickleList pickleOneTimeKey account.oneTimeKeys ++
    (account.pickleFallbackKeys ++ pickleUInt32 account.nextOneTimeKeyId))))

/-- `value.last_error = CORRUPTED_PICKLE; return nullptr;` -/
def corrupted : Unpickler Account := .failWith (fun s => { s with lastError := .CORRUPTED_PICKLE })

/-- The prekeys of a pickle: as many as it says, and at most two. -/
def unpicklePrekeys : Unpickler Account :=
  (Unpickler.field (·.numPrekeys) (fun s a => { s with numPrekeys := a }) unpickleUInt8).andThen
  (.onlyIf (fun s => s.numPrekeys ≥ 1)
    ((Unpickler.field (·.currentPrekey) (fun s a => { s with currentPrekey := a })
      unpicklePreKey).andThen
    (.onlyIf (fun s => s.numPrekeys ≥ 2)
      ((Unpickler.field (·.prevPrekey) (fun s a => { s with prevPrekey := a })
        unpicklePreKey).andThen
      (.onlyIf (fun s => s.numPrekeys ≥ 3) corrupted)))))

/-- What version 10005 has in front of the one-time keys. -/
def unpickleX3dh : Unpickler Account :=
  unpicklePrekeys.andThen
  ((Unpickler.field (·.nextPrekeyId) (fun s a => { s with nextPrekeyId := a })
    unpickleUInt32).andThen
  (.field (·.lastPrekeyPublishTime) (fun s a => { s with lastPrekeyPublishTime := a })
    unpickleUInt64))

/-- `value.current_fallback_key`. -/
def unpickleCurrentFallbackKey : Unpickler Account :=
  .field (·.currentFallbackKey) (fun s a => { s with currentFallbackKey := a }) unpickleOneTimeKey

/-- `value.prev_fallback_key`. -/
def unpicklePrevFallbackKey : Unpickler Account :=
  .field (·.prevFallbackKey) (fun s a => { s with prevFallbackKey := a }) unpickleOneTimeKey

/-- The fallback keys of a pickle. Version 2 has none, and version 3 has two
with the number of them in their `published` flags. -/
def unpickleFallbackKeys (version : UInt32) : Unpickler Account :=
  if version ≤ 2 then fun s input => ({ s with numFallbackKeys := 0 }, some input)
  else if version = 3 then
    unpickleCurrentFallbackKey.andThen (unpicklePrevFallbackKey.andThen
      (fun s input =>
        ({ s with
          numFallbackKeys :=
            if s.currentFallbackKey.published then
              if s.prevFallbackKey.published then 2 else 1
            else 0 }, some input)))
  else
    (Unpickler.field (·.numFallbackKeys) (fun s a => { s with numFallbackKeys := a })
      unpickleUInt8).andThen
    (.onlyIf (fun s => s.numFallbackKeys ≥ 1)
      (unpickleCurrentFallbackKey.andThen
      (.onlyIf (fun s => s.numFallbackKeys ≥ 2)
        (unpicklePrevFallbackKey.andThen
        (.onlyIf (fun s => s.numFallbackKeys ≥ 3) corrupted)))))

/-- What comes after the version. `stale` is what the memory of the one-time
keys held. -/
def unpickleBody (stale : ℕ → OneTimeKey) (version : UInt32) : Unpickler Account :=
  (Unpickler.field (·.identityKeys) (fun s a => { s with identityKeys := a })
    unpickleIdentityKeys).andThen
  ((Unpickler.onlyIf (fun _ => version ≥ 10005) unpickleX3dh).andThen
  ((Unpickler.field (·.oneTimeKeys) (fun s a => { s with oneTimeKeys := a })
    (unpickleList unpickleOneTimeKey stale)).andThen
  ((unpickleFallbackKeys version).andThen
  (.field (·.nextOneTimeKeyId) (fun s a => { s with nextOneTimeKeyId := a }) unpickleUInt32))))

/-- `unpickle`. -/
def unpickle (stale : ℕ → OneTimeKey) : Unpickler Account := fun account input =>
  match unpickleUInt32 0 input with
  | (_, none) => (account, none)
  | (version, some input) =>
    if version = ACCOUNT_PICKLE_VERSION ∨ version = 4 ∨ version = 3 ∨ version = 2 then
      unpickleBody stale version account input
    else if version = 1 then ({ account with lastError := .BAD_LEGACY_ACCOUNT_PICKLE }, none)
    else ({ account with lastError := .UNKNOWN_PICKLE_VERSION }, none)

/-- `olm_unpickle_account`, of a pickle that has been decrypted. -/
def unpickleAccount (account : Account) (stale : ℕ → OneTimeKey) (pickled : Bytes) :
    Account × Option Unit :=
  match unpickle stale account pickled with
  | (account, none) =>
    if account.lastError = .SUCCESS then account.fail .CORRUPTED_PICKLE else (account, none)
  | (account, some []) => (account, some ())
  | (account, some (_ :: _)) => account.fail .PICKLE_EXTRA_DATA

end Account

/-! ## As many bytes as the length says -/

theorem length_pickleIdentityKeys (value : IdentityKeys) :
    (pickleIdentityKeys value).length = pickleLengthIdentityKeys value := by
  rw [pickleIdentityKeys, List.length_append, length_pickleEd25519KeyPair,
    length_pickleCurve25519KeyPair]
  rfl

theorem length_picklePreKey (value : PreKey) :
    (picklePreKey value).length = pickleLengthPreKey value := by
  simp only [picklePreKey, pickleLengthPreKey, List.length_append, length_pickleUInt32,
    length_pickleBool, length_pickleCurve25519KeyPair, FixedBytes.length_val, Nat.add_assoc]

theorem length_pickleOneTimeKey (value : OneTimeKey) :
    (pickleOneTimeKey value).length = pickleLengthOneTimeKey value := by
  simp only [pickleOneTimeKey, pickleLengthOneTimeKey, List.length_append, length_pickleUInt32,
    length_pickleBool, length_pickleCurve25519KeyPair, Nat.add_assoc]

/-- Two slots, as many of them as are in use. -/
theorem length_slots {α : Type} {pickle : α → Bytes} {pickleLength : α → ℕ}
    (h : ∀ value, (pickle value).length = pickleLength value) (n : UInt8) (current prev : α) :
    (if n ≥ 1 then pickle current ++ (if n ≥ 2 then pickle prev else []) else []).length =
      if n ≥ 1 then pickleLength current + (if n ≥ 2 then pickleLength prev else 0) else 0 := by
  split
  · split
    · rw [List.length_append, h, h]
    · rw [List.length_append, h]
      rfl
  · rfl

theorem Account.length_picklePrekeys (account : Account) :
    account.picklePrekeys.length = pickleLengthUInt8 account.numPrekeys +
      (if account.numPrekeys ≥ 1 then
        pickleLengthPreKey account.currentPrekey +
          (if account.numPrekeys ≥ 2 then pickleLengthPreKey account.prevPrekey else 0)
      else 0) := by
  rw [picklePrekeys, List.length_append, length_pickleUInt8, length_slots length_picklePreKey]

theorem Account.length_pickleFallbackKeys (account : Account) :
    account.pickleFallbackKeys.length = pickleLengthUInt8 account.numFallbackKeys +
      (if account.numFallbackKeys ≥ 1 then
        pickleLengthOneTimeKey account.currentFallbackKey +
          (if account.numFallbackKeys ≥ 2 then pickleLengthOneTimeKey account.prevFallbackKey
          else 0)
      else 0) := by
  rw [pickleFallbackKeys, List.length_append, length_pickleUInt8,
    length_slots length_pickleOneTimeKey]

theorem Account.length_pickle (account : Account) :
    account.pickle.length = account.pickleLength := by
  simp only [pickle, pickleLength, List.length_append, length_pickleUInt32, length_pickleUInt64,
    length_pickleIdentityKeys, length_picklePrekeys, length_pickleFallbackKeys,
    length_pickleList length_pickleOneTimeKey, Nat.add_assoc]

/-! ## What was pickled is unpickled -/

theorem reads_unpickleIdentityKeys (old value : IdentityKeys) :
    unpickleIdentityKeys.Reads old (pickleIdentityKeys value) value :=
  (Unpickler.Reads.field _ (reads_unpickleEd25519KeyPair _ value.ed25519Key)).andThen
    (.field _ (reads_unpickleCurve25519KeyPair _ value.curve25519Key))

theorem reads_unpicklePreKey (old value : PreKey) :
    unpicklePreKey.Reads old (picklePreKey value) value :=
  (Unpickler.Reads.field _ (reads_unpickleUInt32 _ value.id)).andThen
    ((Unpickler.Reads.field _ (reads_unpickleBool _ value.published)).andThen
    ((Unpickler.Reads.field _ (reads_unpickleCurve25519KeyPair _ value.key)).andThen
    (.field _ (reads_unpickleBytes _ value.signature))))

theorem reads_unpickleOneTimeKey (old value : OneTimeKey) :
    unpickleOneTimeKey.Reads old (pickleOneTimeKey value) value :=
  (Unpickler.Reads.field _ (reads_unpickleUInt32 _ value.id)).andThen
    ((Unpickler.Reads.field _ (reads_unpickleBool _ value.published)).andThen
    (.field _ (reads_unpickleCurve25519KeyPair _ value.key)))

theorem pickleOneTimeKey_ne_nil (value : OneTimeKey) : pickleOneTimeKey value ≠ [] := by
  refine List.length_pos_iff.mp ?_
  rw [length_pickleOneTimeKey]
  exact Nat.zero_lt_succ _

namespace Account

/-- What unpickling the account over `target` makes of it: the slots that
are not in use keep what they held. -/
def restoredOver (account target : Account) : Account :=
  { account with
    currentPrekey :=
      if account.numPrekeys ≥ 1 then account.currentPrekey else target.currentPrekey
    prevPrekey := if account.numPrekeys ≥ 2 then account.prevPrekey else target.prevPrekey
    currentFallbackKey :=
      if account.numFallbackKeys ≥ 1 then account.currentFallbackKey
      else target.currentFallbackKey
    prevFallbackKey :=
      if account.numFallbackKeys ≥ 2 then account.prevFallbackKey else target.prevFallbackKey
    lastError := target.lastError }

/-- Two slots behind their count: those in use are read, and the third, which
would be refused, is not asked for. -/
theorem reads_slots {count : Account → UInt8} {current prev refuse : Unpickler Account}
    {target target₁ target₂ result : Account} {bytes bytes' : Bytes} {n : UInt8} (hn : n ≤ 2)
    (hcurrent : current.Reads target bytes target₁) (hprev : prev.Reads target₁ bytes' target₂)
    (hcount : count target = n) (hcount₁ : count target₁ = n) (hcount₂ : count target₂ = n)
    (hnone : ¬ n ≥ 1 → ¬ n ≥ 2 → result = target) (hone : n ≥ 1 → ¬ n ≥ 2 → result = target₁)
    (htwo : n ≥ 1 → n ≥ 2 → result = target₂) :
    (Unpickler.onlyIf (fun s => count s ≥ 1) (current.andThen
      (.onlyIf (fun s => count s ≥ 2) (prev.andThen
        (.onlyIf (fun s => count s ≥ 3) refuse))))).Reads target
      (if n ≥ 1 then bytes ++ (if n ≥ 2 then bytes' else []) else []) result := by
  have h3 : ¬ n ≥ 3 := fun h3 => absurd (UInt8.le_trans h3 hn) (by decide)
  by_cases h1 : n ≥ 1
  · rw [if_pos h1]
    refine .onlyIf (by rw [hcount]; exact decide_eq_true h1) (.andThen hcurrent ?_)
    by_cases h2 : n ≥ 2
    · rw [if_pos h2, htwo h1 h2, ← List.append_nil bytes']
      exact .onlyIf (by rw [hcount₁]; exact decide_eq_true h2)
        (.andThen hprev (Unpickler.reads_onlyIf_nil (by rw [hcount₂]; exact decide_eq_false h3)))
    · rw [if_neg h2, hone h1 h2]
      exact Unpickler.reads_onlyIf_nil (by rw [hcount₁]; exact decide_eq_false h2)
  · have h2 : ¬ n ≥ 2 := fun h2 => h1 (UInt8.le_trans (by decide) h2)
    rw [if_neg h1, hnone h1 h2]
    exact Unpickler.reads_onlyIf_nil (by rw [hcount]; exact decide_eq_false h1)

theorem reads_unpicklePrekeys (target : Account) {account : Account}
    (h : account.numPrekeys ≤ 2) :
    unpicklePrekeys.Reads target account.picklePrekeys
      { target with
        numPrekeys := account.numPrekeys
        currentPrekey :=
          if account.numPrekeys ≥ 1 then account.currentPrekey else target.currentPrekey
        prevPrekey := if account.numPrekeys ≥ 2 then account.prevPrekey else target.prevPrekey } := by
  refine Unpickler.Reads.andThen (.field _ (reads_unpickleUInt8 _ account.numPrekeys))
    (reads_slots h (.field _ (reads_unpicklePreKey _ account.currentPrekey))
      (.field _ (reads_unpicklePreKey _ account.prevPrekey)) rfl rfl rfl ?_ ?_ ?_)
  · intro h1 h2
    simp only [h1, h2, if_false]
  · intro h1 h2
    simp only [h1, h2, if_true, if_false]
  · intro h1 h2
    simp only [h1, h2, if_true]

theorem reads_unpickleFallbackKeys (target : Account) {account : Account}
    (h : account.numFallbackKeys ≤ 2) :
    (unpickleFallbackKeys ACCOUNT_PICKLE_VERSION).Reads target account.pickleFallbackKeys
      { target with
        numFallbackKeys := account.numFallbackKeys
        currentFallbackKey :=
          if account.numFallbackKeys ≥ 1 then account.currentFallbackKey
          else target.currentFallbackKey
        prevFallbackKey :=
          if account.numFallbackKeys ≥ 2 then account.prevFallbackKey
          else target.prevFallbackKey } := by
  rw [unpickleFallbackKeys, if_neg (by decide), if_neg (by decide)]
  refine Unpickler.Reads.andThen (.field _ (reads_unpickleUInt8 _ account.numFallbackKeys))
    (reads_slots h (.field _ (reads_unpickleOneTimeKey _ account.currentFallbackKey))
      (.field _ (reads_unpickleOneTimeKey _ account.prevFallbackKey)) rfl rfl rfl ?_ ?_ ?_)
  · intro h1 h2
    simp only [h1, h2, if_false]
  · intro h1 h2
    simp only [h1, h2, if_true, if_false]
  · intro h1 h2
    simp only [h1, h2, if_true]

/-- **What was pickled is unpickled**, over an account without one-time
keys. -/
theorem reads_unpickle (stale : ℕ → OneTimeKey) {target account : Account}
    (htarget : target.oneTimeKeys = .empty) (hprekeys : account.numPrekeys ≤ 2)
    (hfallback : account.numFallbackKeys ≤ 2) :
    (unpickle stale).Reads target account.pickle (account.restoredOver target) := by
  have hbody : (unpickleBody stale ACCOUNT_PICKLE_VERSION).Reads target
      (pickleIdentityKeys account.identityKeys ++
        ((account.picklePrekeys ++
          (pickleUInt32 account.nextPrekeyId ++ pickleUInt64 account.lastPrekeyPublishTime)) ++
        (pickleList pickleOneTimeKey account.oneTimeKeys ++
        (account.pickleFallbackKeys ++ pickleUInt32 account.nextOneTimeKeyId))))
      (account.restoredOver target) := by
    refine .andThen (.field _ (reads_unpickleIdentityKeys _ account.identityKeys))
      (.andThen (.onlyIf (by decide) (.andThen (reads_unpicklePrekeys _ hprekeys)
        (.andThen (.field _ (reads_unpickleUInt32 _ account.nextPrekeyId))
          (.field _ (reads_unpickleUInt64 _ account.lastPrekeyPublishTime)))))
      (.andThen (.field _ ?_) (.andThen (reads_unpickleFallbackKeys _ hfallback)
        (.field _ (reads_unpickleUInt32 _ account.nextOneTimeKeyId)))))
    simp only [htarget]
    exact reads_unpickleList stale pickleOneTimeKey_ne_nil (by decide) account.oneTimeKeys
      (fun value _ old => reads_unpickleOneTimeKey old value)
  intro rest
  rw [unpickle, pickle, List.append_assoc, reads_unpickleUInt32]
  exact hbody rest

/-- Nothing is left over. -/
theorem unpickleAccount_pickle (stale : ℕ → OneTimeKey) {target account : Account}
    (htarget : target.oneTimeKeys = .empty) (hprekeys : account.numPrekeys ≤ 2)
    (hfallback : account.numFallbackKeys ≤ 2) :
    target.unpickleAccount stale account.pickle = (account.restoredOver target, some ()) := by
  have hreads := reads_unpickle stale htarget hprekeys hfallback []
  rw [List.append_nil] at hreads
  rw [unpickleAccount, hreads]

end Account

end Olm
