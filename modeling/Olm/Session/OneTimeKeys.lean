import Olm.Account.Prekeys
import Olm.Account.Reload
import Olm.Common.Lists
import Olm.Common.Run
import Olm.Common.Shelf
import Olm.Session.Setup
import Olm.Symbolic

/-!
# A one-time key is used once

Which keys `lookup_key` finds, over whole runs of an account. The one-time
keys are a shelf with room for 100: new ones push the oldest off, and
`olm_remove_one_time_keys` takes one out when a session was set up with it.
The fallback keys are in two slots, and are never taken out.

`Keyring` is an account with a record of the keys it generated and of what
was done to them, which the calls never look at. `Keyring.Available` says
from the record alone which keys can be used.
-/

namespace Olm

variable {K : Type}

/-- `olm_remove_one_time_keys`. -/
def Account.removeOneTimeKeys (account : Account) (session : Session K) : Account × Option ℕ :=
  if session.bobOneTimeKey = session.bobPrekey then (account, some 0)
  else
    match account.removeKey session.bobOneTimeKey with
    | (account, some id) => (account, some id)
    | (account, none) => ({ account with lastError := .BAD_MESSAGE_KEY_ID }, none)

/-- A one-time key that is found nowhere is refused, whatever prekey comes
with it. -/
theorem Session.newInboundSessionFromKeys_of_none {prims : Primitives K} {session : Session K}
    {localAccount : Account} {ratchetKey : Curve25519PublicKey}
    (hkey : localAccount.lookupKey session.bobOneTimeKey = none)
    (hprekey : localAccount.lookupPrekey session.bobOneTimeKey = none) :
    session.newInboundSessionFromKeys prims localAccount ratchetKey =
      session.fail .BAD_MESSAGE_KEY_ID := by
  unfold newInboundSessionFromKeys
  by_cases husing : session.bobPrekey = session.bobOneTimeKey
  · simp [husing, hprekey]
  · simp [husing, hkey]

/-! ## Fallback keys -/

/-- What is done to the fallback keys. -/
inductive FallbackEvent where
  | generate (publicKey : Curve25519PublicKey)
  | forget

namespace FallbackEvent

/-- The key that is generated. -/
def key? : FallbackEvent → Option Curve25519PublicKey
  | .generate publicKey => some publicKey
  | .forget => none

/-- The fallback keys in use after some events, which are given the last
first. -/
def inUse : List FallbackEvent → List Curve25519PublicKey
  | [] => []
  | .generate publicKey :: events => (publicKey :: inUse events).take 2
  | .forget :: events => (inUse events).take 1

/-- The current fallback key is the last that was generated. -/
def IsCurrent (events : List FallbackEvent) (publicKey : Curve25519PublicKey) : Prop :=
  ∃ later earlier, events = later ++ .generate publicKey :: earlier ∧ ∀ event ∈ later, event = .forget

/-- The previous fallback key was the current one when the last one was
generated, and nothing was done since. -/
def IsPrevious (events : List FallbackEvent) (publicKey : Curve25519PublicKey) : Prop :=
  ∃ newer earlier, events = .generate newer :: earlier ∧ IsCurrent earlier publicKey

variable {events : List FallbackEvent} {publicKey : Curve25519PublicKey}

/-- The first of the keys in use is the current one. -/
theorem head?_inUse : (inUse events).head? = some publicKey ↔ IsCurrent events publicKey := by
  induction events with
  | nil => simp [inUse, IsCurrent]
  | cons event events ih =>
    cases event with
    | generate newer =>
      constructor
      · intro h
        obtain rfl : newer = publicKey := Option.some.inj h
        exact ⟨[], events, rfl, nofun⟩
      · rintro ⟨later, earlier, heq, hforget⟩
        cases later with
        | nil =>
          obtain ⟨⟨⟩, rfl⟩ := List.cons.inj heq
          rfl
        | cons event later =>
          obtain ⟨rfl, -⟩ := List.cons.inj heq
          cases hforget _ List.mem_cons_self
    | forget =>
      have hhead : (inUse (.forget :: events)).head? = (inUse events).head? := by
        rw [inUse, List.head?_take, if_neg Nat.one_ne_zero]
      rw [hhead, ih]
      constructor
      · rintro ⟨later, earlier, rfl, hforget⟩
        exact ⟨.forget :: later, earlier, rfl, List.forall_mem_cons.mpr ⟨rfl, hforget⟩⟩
      · rintro ⟨later, earlier, heq, hforget⟩
        cases later with
        | nil => cases (List.cons.inj heq).1
        | cons event later =>
          exact ⟨later, earlier, (List.cons.inj heq).2,
            fun e he => hforget e (List.mem_cons_of_mem _ he)⟩

theorem mem_take_one {α : Type} {l : List α} {a : α} : a ∈ l.take 1 ↔ l.head? = some a := by
  cases l <;> simp [eq_comm]

/-- **The fallback keys in use**: the current and the previous one. -/
theorem mem_inUse : publicKey ∈ inUse events ↔
    IsCurrent events publicKey ∨ IsPrevious events publicKey := by
  cases events with
  | nil => simp [inUse, IsCurrent, IsPrevious]
  | cons event events =>
    cases event with
    | generate newer =>
      have hprevious : IsPrevious (.generate newer :: events) publicKey ↔
          IsCurrent events publicKey := by
        constructor
        · rintro ⟨newer', earlier, heq, hcurrent⟩
          obtain ⟨-, rfl⟩ := List.cons.inj heq
          exact hcurrent
        · intro hcurrent
          exact ⟨newer, events, rfl, hcurrent⟩
      rw [hprevious, ← head?_inUse, ← head?_inUse, inUse, List.take_succ_cons, List.mem_cons,
        mem_take_one, List.head?_cons, Option.some.injEq, eq_comm]
    | forget =>
      have hprevious : ¬ IsPrevious (.forget :: events) publicKey := by
        rintro ⟨newer, earlier, heq, -⟩
        cases (List.cons.inj heq).1
      have hhead : (inUse (.forget :: events)).head? = (inUse events).head? := by
        rw [inUse, List.head?_take, if_neg Nat.one_ne_zero]
      rw [← head?_inUse, hhead, inUse, mem_take_one]
      exact (or_iff_left hprevious).symm

end FallbackEvent

/-! ## Keyrings -/

/-- An account, and what was done to its keys: the one-time keys, the
fallback keys and the prekeys it generated, and what was taken from them,
each the last first. -/
structure Keyring where
  account : Account
  oneTimeKeys : List (Shelf.Event Curve25519PublicKey)
  fallbackKeys : List FallbackEvent
  prekeys : List Curve25519PublicKey

namespace Keyring

/-- The public keys that were generated. -/
def generated (s : Keyring) : List Curve25519PublicKey :=
  Shelf.puts s.oneTimeKeys ++ (s.fallbackKeys.filterMap FallbackEvent.key? ++ s.prekeys)

/-- **The keys that can be used**: the one-time keys that were not removed and
not pushed out by 100 newer ones, and the current and the previous fallback
key. -/
def Available (s : Keyring) (publicKey : Curve25519PublicKey) : Prop :=
  (∃ later earlier, s.oneTimeKeys = later ++ .put publicKey :: earlier ∧
    Shelf.Stays MAX_ONE_TIME_KEYS later publicKey) ∨
  FallbackEvent.IsCurrent s.fallbackKeys publicKey ∨
  FallbackEvent.IsPrevious s.fallbackKeys publicKey

/-- What happens to an account. A session is set up with it, and its one-time
key is removed. -/
inductive Event (K : Type) where
  | generateOneTimeKeys (numberOfKeys : ℕ) (random : Bytes)
  | generateFallbackKey (random : Bytes)
  | forgetOldFallbackKey
  | markKeysAsPublished
  | generatePrekey (random : Bytes)
  | forgetOldPrekey
  | markPrekeyAsPublished (now : UInt64)
  | pickle (stale : ℕ → OneTimeKey)
  | newInboundSession (session : Session K) (theirIdentityKey : Option Curve25519PublicKey)
      (oneTimeKeyMessage : Bytes)
  | removeOneTimeKeys (session : Session K)

/-- The public keys of `generate_one_time_keys`, the last first. -/
def oneTimeKeysOf (curve : Curve25519) (random : Bytes) :
    (numberOfKeys pos : ℕ) → Checked (List Curve25519PublicKey)
  | 0, _ => .ok []
  | numberOfKeys + 1, pos => do
    let key ← loadArray CURVE25519_KEY_LENGTH random pos
    let keys ← oneTimeKeysOf curve random numberOfKeys (pos + CURVE25519_KEY_LENGTH)
    .ok (keys ++ [(curve.generateKey key).publicKey])

variable (prims : Primitives K)

/-- One call, and what goes on record of it. A pickle is read into a new
account. -/
def step (s : Keyring) : Event K → Checked Keyring
  | .generateOneTimeKeys numberOfKeys random => do
    let (account, result) ← s.account.generateOneTimeKeys prims.curve numberOfKeys random
    if result.isNone then .ok { s with account := account }
    else
      let keys ← oneTimeKeysOf prims.curve random numberOfKeys 0
      .ok { s with account := account, oneTimeKeys := keys.map .put ++ s.oneTimeKeys }
  | .generateFallbackKey random => do
    let (account, result) ← s.account.generateFallbackKey prims.curve random
    if result.isNone then .ok { s with account := account }
    else
      let key ← loadArray CURVE25519_KEY_LENGTH random 0
      .ok { s with
        account := account
        fallbackKeys := .generate (prims.curve.generateKey key).publicKey :: s.fallbackKeys }
  | .forgetOldFallbackKey =>
    .ok { s with
      account := s.account.forgetOldFallbackKey, fallbackKeys := .forget :: s.fallbackKeys }
  | .markKeysAsPublished => .ok { s with account := s.account.markKeysAsPublished.1 }
  | .generatePrekey random => do
    let (account, result) ← s.account.generatePrekey prims.curve prims.ed25519 random
    if result.isNone then .ok { s with account := account }
    else
      let key ← loadArray CURVE25519_KEY_LENGTH random 0
      .ok { s with
        account := account, prekeys := (prims.curve.generateKey key).publicKey :: s.prekeys }
  | .forgetOldPrekey => .ok { s with account := s.account.forgetOldPrekey }
  | .markPrekeyAsPublished now => .ok { s with account := (s.account.markPrekeyAsPublished now).1 }
  | .pickle stale =>
    .ok { s with account := (Account.new.unpickleAccount stale s.account.pickle).1 }
  | .newInboundSession session theirIdentityKey oneTimeKeyMessage => do
    let _ ← session.newInboundSession prims s.account theirIdentityKey oneTimeKeyMessage
    .ok s
  | .removeOneTimeKeys session =>
    .ok { s with
      account := (s.account.removeOneTimeKeys session).1
      oneTimeKeys :=
        if session.bobOneTimeKey = session.bobPrekey then s.oneTimeKeys
        else .take session.bobOneTimeKey :: s.oneTimeKeys }

/-- A new account. -/
def Starts (start : Keyring) : Prop :=
  ∃ random account, Account.new.newAccount prims.curve prims.ed25519 random = .ok (account, some 0) ∧
    start = { account := account, oneTimeKeys := [], fallbackKeys := []
              prekeys := [account.currentPrekey.key.publicKey] }

end Keyring

/-! ## The account and its record -/

namespace Account

/-- The public keys of the one-time keys. -/
def oneTimePublicKeys (account : Account) : List Curve25519PublicKey :=
  account.oneTimeKeys.toList.map (·.key.publicKey)

/-- The public keys in the fallback slots that are in use. -/
def fallbackKeysInUse (account : Account) : List Curve25519PublicKey :=
  [account.currentFallbackKey.key.publicKey, account.prevFallbackKey.key.publicKey].take
    account.numFallbackKeys.toNat

variable {account : Account} {publicKey : Curve25519PublicKey}

theorem mem_fallbackKeysInUse (h : account.numFallbackKeys ≤ 2) :
    publicKey ∈ account.fallbackKeysInUse ↔
      (account.numFallbackKeys ≥ 1 ∧ account.currentFallbackKey.key.publicKey = publicKey) ∨
      (account.numFallbackKeys ≥ 2 ∧ account.prevFallbackKey.key.publicKey = publicKey) := by
  unfold fallbackKeysInUse
  simp only [ge_iff_le, UInt8.le_iff_toNat_le, UInt8.toNat_ofNat] at h ⊢
  match account.numFallbackKeys.toNat, h with
  | 0, _ => simp
  | 1, _ => simp [eq_comm]
  | 2, _ => simp [eq_comm]

/-- **What `lookup_key` looks at.** -/
theorem lookupKey_isSome (h : account.numFallbackKeys ≤ 2) :
    (account.lookupKey publicKey).isSome = true ↔
      publicKey ∈ account.oneTimePublicKeys ∨ publicKey ∈ account.fallbackKeysInUse := by
  rw [mem_fallbackKeysInUse h]
  unfold lookupKey oneTimePublicKeys
  cases hfind : account.oneTimeKeys.toList.find? (fun key => key.key.publicKey = publicKey) with
  | some key =>
    have hmem := List.mem_of_find?_eq_some hfind
    have hkey : key.key.publicKey = publicKey := by simpa using List.find?_some hfind
    exact iff_of_true rfl (.inl (hkey ▸ List.mem_map_of_mem hmem))
  | none =>
    have hnone : publicKey ∉ account.oneTimeKeys.toList.map (·.key.publicKey) := by
      intro hmem
      obtain ⟨key, hkey, heq⟩ := List.mem_map.mp hmem
      simpa [heq] using List.find?_eq_none.mp hfind key hkey
    dsimp only
    rw [or_iff_right hnone]
    split
    · rename_i hcurrent
      exact iff_of_true rfl (.inl hcurrent)
    · rename_i hcurrent
      split
      · rename_i hprev
        exact iff_of_true rfl (.inr hprev)
      · rename_i hprev
        exact iff_of_false nofun (not_or.mpr ⟨hcurrent, hprev⟩)

/-- The key that is looked for is taken out of the list, where it is there. -/
theorem oneTimeKeys_removeKey (account : Account) (publicKey : Curve25519PublicKey) :
    (account.removeKey publicKey).1.oneTimeKeys.toList =
      account.oneTimeKeys.toList.eraseP (fun key => key.key.publicKey = publicKey) := by
  unfold removeKey
  rw [List.eraseP_eq_eraseIdx, List.findIdx?_eq_map_findFinIdx?_val]
  cases account.oneTimeKeys.toList.findFinIdx? (fun key => key.key.publicKey = publicKey) with
  | some place => rfl
  | none =>
    dsimp only [Option.map_none]
    split_ifs <;> rfl

/-- **Nothing else is changed by `remove_key`.** -/
theorem eq_of_removeKey (account : Account) (publicKey : Curve25519PublicKey) :
    ∃ keys, (account.removeKey publicKey).1 = { account with oneTimeKeys := keys } ∧
      keys.toList =
        account.oneTimeKeys.toList.eraseP (fun key => key.key.publicKey = publicKey) := by
  obtain ⟨keys, hkeys⟩ : ∃ keys, (account.removeKey publicKey).1 =
      { account with oneTimeKeys := keys } := by
    unfold removeKey
    split
    · exact ⟨_, rfl⟩
    · split_ifs <;> exact ⟨_, rfl⟩
  have hlist := oneTimeKeys_removeKey account publicKey
  rw [hkeys] at hlist
  exact ⟨keys, hkeys, hlist⟩

/-- The account without a one-time key with this public key. -/
structure Without (account account' : Account) (publicKey : Curve25519PublicKey) : Prop where
  /-- The others keep their order. -/
  oneTimeKeys : account'.oneTimeKeys.toList =
    account.oneTimeKeys.toList.eraseP (fun key => key.key.publicKey = publicKey)
  numFallbackKeys : account'.numFallbackKeys = account.numFallbackKeys
  currentFallbackKey : account'.currentFallbackKey = account.currentFallbackKey
  prevFallbackKey : account'.prevFallbackKey = account.prevFallbackKey

/-- **Every other key is found as before.** -/
theorem Without.lookupKey_eq {account' : Account} (h : account.Without account' publicKey)
    {other : Curve25519PublicKey} (hne : other ≠ publicKey) :
    account'.lookupKey other = account.lookupKey other := by
  have hfind : account'.oneTimeKeys.toList.find? (fun key => key.key.publicKey = other) =
      account.oneTimeKeys.toList.find? (fun key => key.key.publicKey = other) := by
    rw [h.oneTimeKeys]
    refine List.find?_eraseP_of_ne fun key hkey => ?_
    rw [decide_eq_true_eq] at hkey
    exact decide_eq_false fun hother => hne (hother.symm.trans hkey)
  unfold lookupKey
  rw [hfind, h.numFallbackKeys, h.currentFallbackKey, h.prevFallbackKey]

variable {session : Session K}

/-- A session that was set up with the prekey alone. -/
theorem removeOneTimeKeys_of_eq (h : session.bobOneTimeKey = session.bobPrekey) :
    account.removeOneTimeKeys session = (account, some 0) :=
  if_pos h

theorem eq_of_removeOneTimeKeys (account : Account)
    (h : session.bobOneTimeKey ≠ session.bobPrekey) :
    ∃ keys code, (account.removeOneTimeKeys session).1 =
        { account with oneTimeKeys := keys, lastError := code } ∧
      keys.toList = account.oneTimeKeys.toList.eraseP
        (fun key => key.key.publicKey = session.bobOneTimeKey) := by
  obtain ⟨keys, hkeys, hlist⟩ := eq_of_removeKey account session.bobOneTimeKey
  unfold removeOneTimeKeys
  rw [if_neg h]
  cases hremove : account.removeKey session.bobOneTimeKey with
  | mk removed result =>
    rw [hremove] at hkeys
    obtain rfl := hkeys
    cases result with
    | some id => exact ⟨keys, _, rfl, hlist⟩
    | none => exact ⟨keys, _, rfl, hlist⟩

/-- **What `olm_remove_one_time_keys` does.** -/
theorem without_removeOneTimeKeys (h : session.bobOneTimeKey ≠ session.bobPrekey) :
    account.Without (account.removeOneTimeKeys session).1 session.bobOneTimeKey := by
  obtain ⟨keys, code, heq, hlist⟩ := eq_of_removeOneTimeKeys account h
  rw [heq]
  exact ⟨hlist, rfl, rfl, rfl⟩

/-! ## What the calls put in the account -/

section Calls

variable {curve : Curve25519} {account' : Account} {random : Bytes}

/-- **Each key that is generated is put on the shelf.** -/
theorem oneTimePublicKeys_addOneTimeKeys {slices : List (FixedBytes CURVE25519_KEY_LENGTH)}
    {pos : ℕ} {events : List (Shelf.Event Curve25519PublicKey)} {keys : List Curve25519PublicKey}
    (hshelf : account.oneTimePublicKeys = Shelf.shelf MAX_ONE_TIME_KEYS events)
    (hslices : (slices.map Subtype.val).flatten <+: random.drop pos)
    (hkeys : Keyring.oneTimeKeysOf curve random slices.length pos = .ok keys) :
    (account.addOneTimeKeys curve slices).oneTimePublicKeys =
      Shelf.shelf MAX_ONE_TIME_KEYS (keys.map .put ++ events) := by
  induction slices generalizing pos account events keys with
  | nil =>
    obtain rfl := Except.ok.inj hkeys
    exact hshelf
  | cons slice slices ih =>
    obtain ⟨hload, hrest⟩ := loadArray_of_slices hslices
    rw [List.length_cons, Keyring.oneTimeKeysOf, hload, Checked.ok_bind] at hkeys
    obtain ⟨keys, hlater, hkeys⟩ := Checked.bind_eq_ok.mp hkeys
    obtain rfl := Except.ok.inj hkeys
    -- the new key is in front of those that are there
    have hpushed : (account.addOneTimeKey curve slice).oneTimePublicKeys =
        Shelf.shelf MAX_ONE_TIME_KEYS (.put (curve.generateKey slice).publicKey :: events) := by
      rw [Shelf.shelf, ← hshelf]
      exact List.map_take
    have hall := ih hpushed hrest hlater
    rw [List.map_append, List.append_assoc]
    exact hall

/-- What is in the slots that are not in use does not count. -/
theorem fallbackKeysInUse_replaced {current prev : OneTimeKey} {code : OlmErrorCode}
    (h : account.Counted) (hinUse : account.InUse current prev) :
    (account.replaced current prev code).fallbackKeysInUse = account.fallbackKeysInUse := by
  unfold fallbackKeysInUse replaced
  rcases h.fallbackKeys with hnum | hnum | hnum
  · simp [hnum]
  · have hcurrent := hinUse.current (by rw [hnum]; decide)
    simp [hnum, hcurrent]
  · have hcurrent := hinUse.current (by rw [hnum]; decide)
    have hprev := hinUse.prev (by rw [hnum]; decide)
    simp [hcurrent, hprev]

theorem fallbackKeysInUse_forgetOldFallbackKey (h : account.Counted) :
    account.forgetOldFallbackKey.fallbackKeysInUse = account.fallbackKeysInUse.take 1 := by
  unfold forgetOldFallbackKey fallbackKeysInUse
  rcases h.fallbackKeys with hnum | hnum | hnum
  · simp [hnum]
  · simp [hnum]
  · simp [hnum]

end Calls

end Account

/-! ## Over whole runs -/

namespace Keyring

/-- The account holds what its record says it does. -/
structure Mirrors (s : Keyring) : Prop where
  counted : s.account.Counted
  oneTimeKeys : s.account.oneTimePublicKeys = Shelf.shelf MAX_ONE_TIME_KEYS s.oneTimeKeys
  fallbackKeys : s.account.fallbackKeysInUse = FallbackEvent.inUse s.fallbackKeys
  currentPrekey : s.account.currentPrekey.key.publicKey ∈ FixedBytes.zero _ :: s.prekeys
  prevPrekey : s.account.prevPrekey.key.publicKey ∈ FixedBytes.zero _ :: s.prekeys

variable {prims : Primitives K} {start s s' later : Keyring}

theorem Starts.mirrors (h : Starts prims start) : start.Mirrors := by
  obtain ⟨random, account, hnew, rfl⟩ := h
  have hcounted := (Account.Created.newAccount hnew).counted
  obtain ⟨signing, identity, prekey, rfl⟩ := Account.newAccount_eq_some hnew
  exact ⟨hcounted, rfl, rfl, List.mem_cons_of_mem _ List.mem_cons_self, List.mem_cons_self⟩

/-- **One call.** -/
theorem Mirrors.step {e : Event K} (h : s.Mirrors) (hrun : Keyring.step prims s e = .ok s') :
    s'.Mirrors := by
  obtain ⟨hcounted, hone, hfallback, hcurrent, hprev⟩ := h
  cases e with
  | generateOneTimeKeys numberOfKeys random =>
    obtain ⟨⟨account, result⟩, hgenerate, hrun⟩ := Checked.bind_eq_ok.mp hrun
    have heffect : Account.Effect prims.curve prims.ed25519 s.account account :=
      Account.generateOneTimeKeys_effect hgenerate
    have hcounted' := hcounted.effect heffect
    rcases Account.generateOneTimeKeys_exits hgenerate with
      ⟨code, rfl, rfl⟩ | ⟨slices, rfl, hslices, rfl, rfl⟩
    · obtain rfl := Except.ok.inj hrun
      exact ⟨hcounted', hone, hfallback, hcurrent, hprev⟩
    · obtain ⟨keys, hkeys, hrun⟩ := Checked.bind_eq_ok.mp hrun
      obtain rfl := Except.ok.inj hrun
      have hshelf := Account.oneTimePublicKeys_addOneTimeKeys hone hslices hkeys
      obtain ⟨id, list, heq, -⟩ := Account.eq_of_addOneTimeKeys prims.curve s.account slices
      rw [heq] at hshelf hcounted' ⊢
      exact ⟨hcounted', hshelf, hfallback, hcurrent, hprev⟩
  | generateFallbackKey random =>
    obtain ⟨⟨account, result⟩, hgenerate, hrun⟩ := Checked.bind_eq_ok.mp hrun
    have heffect : Account.Effect prims.curve prims.ed25519 s.account account :=
      Account.generateFallbackKey_effect hgenerate
    have hcounted' := hcounted.effect heffect
    rcases Account.generateFallbackKey_exits hgenerate with ⟨code, rfl, rfl⟩ | ⟨key, hkey, rfl, rfl⟩
    · obtain rfl := Except.ok.inj hrun
      exact ⟨hcounted', hone, hfallback, hcurrent, hprev⟩
    · obtain ⟨key', hkey', hrun⟩ := Checked.bind_eq_ok.mp hrun
      obtain rfl := Except.ok.inj (hkey.symm.trans hkey')
      obtain rfl := Except.ok.inj hrun
      refine ⟨hcounted', hone, ?_, hcurrent, hprev⟩
      rw [FallbackEvent.inUse, ← hfallback]
      exact Account.take_slots_generate hcounted.fallbackKeys
  | forgetOldFallbackKey =>
    obtain rfl := Except.ok.inj hrun
    have heffect : Account.Effect prims.curve prims.ed25519 s.account
        s.account.forgetOldFallbackKey := Account.forgetOldFallbackKey_effect
    have hinUse := Account.fallbackKeysInUse_forgetOldFallbackKey hcounted
    rw [hfallback] at hinUse
    have hother : s.account.forgetOldFallbackKey.oneTimeKeys = s.account.oneTimeKeys ∧
        s.account.forgetOldFallbackKey.currentPrekey = s.account.currentPrekey ∧
        s.account.forgetOldFallbackKey.prevPrekey = s.account.prevPrekey := by
      unfold Account.forgetOldFallbackKey
      split <;> exact ⟨rfl, rfl, rfl⟩
    exact ⟨hcounted.effect heffect, by rw [Account.oneTimePublicKeys, hother.1]; exact hone, hinUse,
      by rw [hother.2.1]; exact hcurrent, by rw [hother.2.2]; exact hprev⟩
  | markKeysAsPublished =>
    obtain rfl := Except.ok.inj hrun
    refine ⟨⟨hcounted.prekeys, hcounted.fallbackKeys⟩, ?_, hfallback, hcurrent, hprev⟩
    rw [← hone]
    exact List.map_map
  | generatePrekey random =>
    obtain ⟨⟨account, result⟩, hgenerate, hrun⟩ := Checked.bind_eq_ok.mp hrun
    have hcounted' := hcounted.effect (Account.generatePrekey_effect hgenerate)
    rcases Account.generatePrekey_exits hgenerate with
      ⟨code, rfl, rfl⟩ | ⟨key, hkey, rfl, rfl⟩
    · obtain rfl := Except.ok.inj hrun
      exact ⟨hcounted', hone, hfallback, hcurrent, hprev⟩
    · obtain ⟨key', hkey', hrun⟩ := Checked.bind_eq_ok.mp hrun
      obtain rfl := Except.ok.inj (hkey.symm.trans hkey')
      obtain rfl := Except.ok.inj hrun
      exact ⟨hcounted', hone, hfallback, List.mem_cons_of_mem _ List.mem_cons_self,
        List.cons_subset_cons _ (List.subset_cons_self _ _) hcurrent⟩
  | forgetOldPrekey =>
    obtain rfl := Except.ok.inj hrun
    have heffect : Account.Effect prims.curve prims.ed25519 s.account
        s.account.forgetOldPrekey := Account.forgetOldPrekey_effect
    have hcounted' := hcounted.effect heffect
    unfold Account.forgetOldPrekey at hcounted' ⊢
    split at hcounted'
    · rename_i hnum
      rw [if_pos hnum]
      exact ⟨hcounted', hone, hfallback, hcurrent, List.mem_cons_self⟩
    · rename_i hnum
      rw [if_neg hnum]
      exact ⟨hcounted, hone, hfallback, hcurrent, hprev⟩
  | markPrekeyAsPublished now =>
    obtain rfl := Except.ok.inj hrun
    unfold Account.markPrekeyAsPublished
    split
    · exact ⟨hcounted, hone, hfallback, hcurrent, hprev⟩
    · exact ⟨⟨hcounted.prekeys, hcounted.fallbackKeys⟩, hone, hfallback, hcurrent, hprev⟩
  | pickle stale =>
    obtain rfl := Except.ok.inj hrun
    rw [Account.unpickleAccount_pickle stale rfl hcounted.numPrekeys_le
      hcounted.numFallbackKeys_le, hcounted.restoredOver_new]
    refine ⟨⟨hcounted.prekeys, hcounted.fallbackKeys⟩, hone, ?_, hcurrent, hprev⟩
    rw [← hfallback]
    exact Account.fallbackKeysInUse_replaced hcounted
      ⟨fun hone => if_pos hone, fun htwo => if_pos htwo⟩
  | newInboundSession session theirIdentityKey oneTimeKeyMessage =>
    obtain ⟨created, -, hrun⟩ := Checked.bind_eq_ok.mp hrun
    obtain rfl := Except.ok.inj hrun
    exact ⟨hcounted, hone, hfallback, hcurrent, hprev⟩
  | removeOneTimeKeys session =>
    obtain rfl := Except.ok.inj hrun
    by_cases hsame : session.bobOneTimeKey = session.bobPrekey
    · rw [if_pos hsame, Account.removeOneTimeKeys_of_eq hsame]
      exact ⟨hcounted, hone, hfallback, hcurrent, hprev⟩
    · rw [if_neg hsame]
      obtain ⟨keys, code, heq, hlist⟩ :=
        Account.eq_of_removeOneTimeKeys s.account hsame
      rw [heq]
      refine ⟨⟨hcounted.prekeys, hcounted.fallbackKeys⟩, ?_, hfallback, hcurrent, hprev⟩
      rw [Shelf.shelf, ← hone]
      exact (congrArg (List.map _) hlist).trans (List.map_eraseP_eq_erase _ _ _)

theorem mirrors_of_run (hstart : Starts prims start)
    (hrun : Run (step prims) (fun _ _ => True) start s) : s.Mirrors :=
  hrun.invariant hstart.mirrors (fun _ _ _ h _ hstep => h.step hstep)

/-! ## What is on record stays there -/

/-- Everything that is put on the shelf was generated. -/
theorem mem_oneTimeKeysOf {curve : Curve25519} {random : Bytes} {numberOfKeys pos : ℕ}
    {keys : List Curve25519PublicKey} (h : oneTimeKeysOf curve random numberOfKeys pos = .ok keys)
    {publicKey : Curve25519PublicKey} (hmem : publicKey ∈ keys) :
    ∃ key, publicKey = (curve.generateKey key).publicKey := by
  induction numberOfKeys generalizing pos keys with
  | zero =>
    obtain rfl := Except.ok.inj h
    cases hmem
  | succ numberOfKeys ih =>
    obtain ⟨key, -, h⟩ := Checked.bind_eq_ok.mp h
    obtain ⟨rest, hrest, h⟩ := Checked.bind_eq_ok.mp h
    obtain rfl := Except.ok.inj h
    rcases List.mem_append.mp hmem with hmem | hmem
    · exact ih hrest hmem
    · exact ⟨key, List.mem_singleton.mp hmem⟩

/-- A call adds to the record. -/
theorem oneTimeKeys_step {e : Event K} (hrun : Keyring.step prims s e = .ok s') :
    ∃ events, s'.oneTimeKeys = events ++ s.oneTimeKeys ∧
      ∀ publicKey, .put publicKey ∈ events →
        ∃ key, publicKey = (prims.curve.generateKey key).publicKey := by
  cases e with
  | generateOneTimeKeys numberOfKeys random =>
    obtain ⟨⟨account, result⟩, -, hrun⟩ := Checked.bind_eq_ok.mp hrun
    dsimp only at hrun
    split at hrun
    · obtain rfl := Except.ok.inj hrun
      exact ⟨[], rfl, nofun⟩
    · obtain ⟨keys, hkeys, hrun⟩ := Checked.bind_eq_ok.mp hrun
      obtain rfl := Except.ok.inj hrun
      refine ⟨keys.map .put, rfl, fun publicKey hput => ?_⟩
      obtain ⟨_, hmem, ⟨⟩⟩ := List.mem_map.mp hput
      exact mem_oneTimeKeysOf hkeys hmem
  | generateFallbackKey random | generatePrekey random =>
    obtain ⟨⟨account, result⟩, -, hrun⟩ := Checked.bind_eq_ok.mp hrun
    dsimp only at hrun
    split at hrun
    · obtain rfl := Except.ok.inj hrun
      exact ⟨[], rfl, nofun⟩
    · obtain ⟨key, -, hrun⟩ := Checked.bind_eq_ok.mp hrun
      obtain rfl := Except.ok.inj hrun
      exact ⟨[], rfl, nofun⟩
  | forgetOldFallbackKey | markKeysAsPublished | forgetOldPrekey | markPrekeyAsPublished now
      | pickle stale =>
    obtain rfl := Except.ok.inj hrun
    exact ⟨[], rfl, nofun⟩
  | newInboundSession session theirIdentityKey oneTimeKeyMessage =>
    obtain ⟨created, -, hrun⟩ := Checked.bind_eq_ok.mp hrun
    obtain rfl := Except.ok.inj hrun
    exact ⟨[], rfl, nofun⟩
  | removeOneTimeKeys session =>
    obtain rfl := Except.ok.inj hrun
    dsimp only
    split
    · exact ⟨[], rfl, nofun⟩
    · exact ⟨[.take session.bobOneTimeKey], rfl, by simp⟩

theorem suffix_of_run (hrun : Run (step prims) (fun _ _ => True) s later) :
    s.oneTimeKeys <:+ later.oneTimeKeys := by
  refine hrun.invariant (P := fun s' => s.oneTimeKeys <:+ s'.oneTimeKeys) (List.suffix_refl _)
    (fun s₁ e s₂ h _ hstep => ?_)
  obtain ⟨events, heq, -⟩ := oneTimeKeys_step hstep
  rw [heq]
  exact h.trans (List.suffix_append _ _)

theorem ne_zero_of_put (hzero : prims.curve.NeverZero) (hstart : Starts prims start)
    (hrun : Run (step prims) (fun _ _ => True) start s) {publicKey : Curve25519PublicKey}
    (hput : .put publicKey ∈ s.oneTimeKeys) : publicKey ≠ FixedBytes.zero _ := by
  have hgenerated := hrun.invariant
    (P := fun s => ∀ publicKey, .put publicKey ∈ s.oneTimeKeys →
      ∃ key, publicKey = (prims.curve.generateKey key).publicKey)
    (by
      obtain ⟨random, account, -, rfl⟩ := hstart
      exact nofun)
    (fun s₁ e s₂ h _ hstep publicKey hput => by
      obtain ⟨events, heq, hevents⟩ := oneTimeKeys_step hstep
      rw [heq] at hput
      rcases List.mem_append.mp hput with hput | hput
      · exact hevents publicKey hput
      · exact h publicKey hput)
  obtain ⟨key, rfl⟩ := hgenerated publicKey hput
  exact hzero key

/-! ## The keys that are found -/

theorem mem_generated_of_mem_inUse {events : List FallbackEvent} {publicKey : Curve25519PublicKey}
    (h : publicKey ∈ FallbackEvent.inUse events) :
    publicKey ∈ events.filterMap FallbackEvent.key? := by
  induction events with
  | nil => cases h
  | cons event events ih =>
    cases event with
    | generate newer =>
      rcases List.mem_cons.mp (List.mem_of_mem_take h) with rfl | h
      · exact List.mem_cons_self
      · exact List.mem_cons_of_mem _ (ih h)
    | forget => exact ih (List.mem_of_mem_take h)

/-- **The keys that are found are the ones that can be used.** -/
theorem Mirrors.lookupKey_isSome (h : s.Mirrors) (hnodup : s.generated.Nodup)
    (publicKey : Curve25519PublicKey) :
    (s.account.lookupKey publicKey).isSome = true ↔ s.Available publicKey := by
  have hputs : (Shelf.puts s.oneTimeKeys).Nodup := (List.nodup_append.mp hnodup).1
  rw [Account.lookupKey_isSome h.counted.numFallbackKeys_le, h.oneTimeKeys, h.fallbackKeys,
    Shelf.mem_shelf_iff hputs, FallbackEvent.mem_inUse]
  rfl

/-- A one-time key that was removed is in none of the places where keys are
looked for. -/
theorem Mirrors.not_found_of_take (h : s.Mirrors) (hnodup : s.generated.Nodup)
    {publicKey : Curve25519PublicKey} {after before : List (Shelf.Event Curve25519PublicKey)}
    (hevents : s.oneTimeKeys = after ++ .put publicKey :: before) (htake : .take publicKey ∈ after)
    (hzero : publicKey ≠ FixedBytes.zero _) :
    s.account.lookupKey publicKey = none ∧ s.account.lookupPrekey publicKey = none := by
  obtain ⟨hputs, -, hdisjoint⟩ := List.nodup_append.mp hnodup
  have hmem : publicKey ∈ Shelf.puts s.oneTimeKeys := by
    rw [hevents]
    exact Shelf.mem_puts.mpr (List.mem_append_right _ List.mem_cons_self)
  constructor
  · rw [← Option.not_isSome_iff_eq_none, Account.lookupKey_isSome h.counted.numFallbackKeys_le,
      h.oneTimeKeys, h.fallbackKeys, not_or]
    constructor
    · rw [hevents] at hputs ⊢
      exact Shelf.not_mem_shelf_of_take hputs htake
    · intro hinUse
      exact hdisjoint _ hmem _ (List.mem_append_left _ (mem_generated_of_mem_inUse hinUse)) rfl
  · rw [← Option.not_isSome_iff_eq_none, Account.lookupPrekey_isSome, not_or]
    have hprekey : ∀ prekey ∈ FixedBytes.zero _ :: s.prekeys, prekey ≠ publicKey := by
      rintro prekey hprekey rfl
      rcases List.mem_cons.mp hprekey with hprekey | hprekey
      · exact hzero hprekey
      · exact hdisjoint _ hmem _ (List.mem_append_right _ hprekey) rfl
    exact ⟨hprekey _ h.currentPrekey, hprekey _ h.prevPrekey⟩

/-! ## A one-time key is used once -/

/-- **Which keys can be used, and how often**: what is found in the account,
what removing a one-time key changes, and that the key is gone for good. -/
structure UsesOnce (prims : Primitives K) (s : Keyring) : Prop where
  /-- The keys that are found are the ones that can be used. -/
  found : ∀ publicKey, (s.account.lookupKey publicKey).isSome = true ↔ s.Available publicKey
  /-- A session is set up with such a key, or with a prekey alone. -/
  created : ∀ (session session' : Session K) (theirIdentityKey : Option Curve25519PublicKey)
    (message : Bytes), session.newInboundSession prims s.account theirIdentityKey message =
      .ok (session', some ()) →
    session'.bobOneTimeKey = session'.bobPrekey ∨ s.Available session'.bobOneTimeKey
  /-- Nothing is removed for the prekey. -/
  prekey : ∀ session : Session K, session.bobOneTimeKey = session.bobPrekey →
    s.account.removeOneTimeKeys session = (s.account, some 0)
  /-- The one-time key is removed, if it is one, and nothing else: the others
  keep their order, and the fallback keys stay. -/
  removed : ∀ session : Session K, session.bobOneTimeKey ≠ session.bobPrekey →
    s.account.Without (s.account.removeOneTimeKeys session).1 session.bobOneTimeKey
  /-- Every other key is found as before. -/
  others : ∀ (session : Session K) (publicKey : Curve25519PublicKey),
    publicKey ≠ session.bobOneTimeKey →
    (s.account.removeOneTimeKeys session).1.lookupKey publicKey = s.account.lookupKey publicKey
  /-- **No session is set up with it again**, however long the run goes on. -/
  gone : ∀ (session : Session K) (removed later : Keyring),
    session.bobOneTimeKey ≠ session.bobPrekey → .put session.bobOneTimeKey ∈ s.oneTimeKeys →
    step prims s (.removeOneTimeKeys session) = .ok removed →
    Run (step prims) (fun _ _ => True) removed later → later.generated.Nodup →
    ∀ (theirIdentityKey : Option Curve25519PublicKey) (message : Bytes)
      (reading : Session.Reading prims.cipher.macLength theirIdentityKey message),
      reading.bobOneTimeKey = session.bobOneTimeKey →
      ∀ receiver : Session K, ∃ failed,
        receiver.newInboundSession prims later.account theirIdentityKey message =
          .ok (failed, none) ∧ failed.lastError = .BAD_MESSAGE_KEY_ID

/-- **A one-time key is used once.** -/
theorem usesOnce_of_run (hzero : prims.curve.NeverZero) (hstart : Starts prims start)
    (hrun : Run (step prims) (fun _ _ => True) start s) (hnodup : s.generated.Nodup) :
    s.UsesOnce prims := by
  have hmirrors := mirrors_of_run hstart hrun
  refine ⟨hmirrors.lookupKey_isSome hnodup, ?_, fun session => Account.removeOneTimeKeys_of_eq,
    fun session => Account.without_removeOneTimeKeys, ?_, ?_⟩
  · intro session session' theirIdentityKey message hcreated
    obtain ⟨reading, hkeys⟩ := Session.newInboundSession_eq_some hcreated
    obtain ⟨ourPrekey, bobOneTimeKey, -, hkey, rfl⟩ :=
      Session.newInboundSessionFromKeys_eq_some hkeys
    split at hkey
    · rename_i hsame
      exact .inl hsame.symm
    · obtain ⟨key, hlookup, -⟩ := hkey
      exact .inr ((hmirrors.lookupKey_isSome hnodup _).mp (by rw [hlookup]; rfl))
  · intro session publicKey hne
    by_cases hsame : session.bobOneTimeKey = session.bobPrekey
    · rw [Account.removeOneTimeKeys_of_eq hsame]
    · exact (Account.without_removeOneTimeKeys hsame).lookupKey_eq hne
  · intro session removed later hne hput hremove hlater hnodup' theirIdentityKey message reading
      heq receiver
    have hrun' := (Run.step _ hrun trivial hremove).trans hlater
    have hmirrors' := mirrors_of_run hstart hrun'
    -- the removal is on record, after the key was generated
    obtain ⟨newer, hnewer⟩ := suffix_of_run hlater
    obtain rfl := Except.ok.inj hremove
    dsimp only at hnewer
    rw [if_neg hne] at hnewer
    obtain ⟨after, before, hbefore⟩ := List.append_of_mem hput
    have hevents : later.oneTimeKeys = (newer ++ .take session.bobOneTimeKey :: after) ++
        .put session.bobOneTimeKey :: before := by
      rw [← hnewer, hbefore, List.append_assoc, List.cons_append]
    obtain ⟨hlookup, hprekey⟩ := hmirrors'.not_found_of_take hnodup' hevents
      (List.mem_append_right _ List.mem_cons_self) (ne_zero_of_put hzero hstart hrun hput)
    refine ⟨{ reading.store receiver with lastError := .BAD_MESSAGE_KEY_ID }, ?_, rfl⟩
    rw [← heq] at hlookup hprekey
    rw [reading.newInboundSession_eq]
    exact Session.newInboundSessionFromKeys_of_none hlookup hprekey

/-- A new account made of bytes that are all 7. -/
def sevens : Keyring :=
  match Account.new.newAccount .clamped .accepting (List.replicate 96 7) with
  | .ok (account, _) =>
    { account := account, oneTimeKeys := [], fallbackKeys := []
      prekeys := [account.currentPrekey.key.publicKey] }
  | .error _ => { account := .new, oneTimeKeys := [], fallbackKeys := [], prekeys := [] }

/-- A session on the one-time key of bytes that are all 16. -/
def onSixteens : Session SymbolicKey :=
  { Session.new .zero with
    bobOneTimeKey := (Curve25519.clamped.generateKey ⟨List.replicate 32 16, rfl⟩).publicKey }

/-- Two one-time keys and a fallback key, where one of the two is removed. -/
theorem usesOnce_of_run_sixteens : ∃ s : Keyring, s.UsesOnce Primitives.clamped ∧
    s.account.oneTimePublicKeys.length = 2 ∧ s.account.fallbackKeysInUse.length = 1 ∧
    onSixteens.bobOneTimeKey ≠ onSixteens.bobPrekey ∧
    .put onSixteens.bobOneTimeKey ∈ s.oneTimeKeys ∧
    ∃ removed, step Primitives.clamped s (.removeOneTimeKeys onSixteens) = .ok removed ∧
      removed.account.oneTimePublicKeys.length = 1 ∧ removed.generated.Nodup := by
  have hstart : Starts Primitives.clamped sevens := ⟨List.replicate 96 7, _, rfl, rfl⟩
  have h₀ : Run (step Primitives.clamped) (fun _ _ => True) sevens sevens := .start
  have h₁ := h₀.extend (.generateOneTimeKeys 2 (List.replicate 32 16 ++ List.replicate 32 32))
    trivial (by decide +kernel)
  have h₂ := h₁.extend (.generateFallbackKey (List.replicate 32 48)) trivial (by decide +kernel)
  exact ⟨_, usesOnce_of_run Curve25519.clamped_neverZero hstart h₂ (by decide +kernel),
    by decide +kernel, by decide +kernel, by decide +kernel, by decide +kernel, _, rfl,
    by decide +kernel, by decide +kernel⟩

end Keyring

end Olm
