import Olm.Common.BoundedList
import Olm.Crypto

/-!
# Accounts

`src/account.cpp` and `include/olm/account.hh`: the identity keys of a
device, and the prekeys, one-time keys and fallback keys it hands out.

An account has two slots for prekeys and a counter, `num_prekeys`, that
says how many of them are in use, and the same for fallback keys. A slot
is a plain structure and holds a value whether it is in use or not.
-/

namespace Olm

/-- `IdentityKeys`. -/
structure IdentityKeys where
  ed25519Key : Ed25519KeyPair
  curve25519Key : Curve25519KeyPair
  deriving DecidableEq

/-- `PreKey`. -/
structure PreKey where
  id : UInt32
  published : Bool
  key : Curve25519KeyPair
  signature : Ed25519Signature
  deriving DecidableEq

/-- `OneTimeKey`. -/
structure OneTimeKey where
  id : UInt32
  published : Bool
  key : Curve25519KeyPair
  deriving DecidableEq

/-- `MAX_ONE_TIME_KEYS`. -/
abbrev MAX_ONE_TIME_KEYS : ℕ := 100

/-- `Account`. -/
structure Account where
  identityKeys : IdentityKeys
  oneTimeKeys : BoundedList OneTimeKey MAX_ONE_TIME_KEYS
  currentPrekey : PreKey
  prevPrekey : PreKey
  nextPrekeyId : UInt32
  lastPrekeyPublishTime : UInt64
  numPrekeys : UInt8
  numFallbackKeys : UInt8
  currentFallbackKey : OneTimeKey
  prevFallbackKey : OneTimeKey
  nextOneTimeKeyId : UInt32
  lastError : OlmErrorCode
  deriving DecidableEq

/-! ## Zeroed values -/

/-- A key pair of zero bytes. -/
def Curve25519KeyPair.zero : Curve25519KeyPair where
  publicKey := FixedBytes.zero _
  privateKey := FixedBytes.zero _

/-- `unset` of a prekey. -/
def PreKey.zero : PreKey where
  id := 0
  published := false
  key := .zero
  signature := FixedBytes.zero _

/-- `unset` of a one-time key. -/
def OneTimeKey.zero : OneTimeKey where
  id := 0
  published := false
  key := .zero

namespace Account

/-- `olm_account`: the constructor, on memory that was zeroed. -/
def new : Account where
  identityKeys :=
    { ed25519Key := { publicKey := FixedBytes.zero _, privateKey := FixedBytes.zero _ }
      curve25519Key := .zero }
  oneTimeKeys := .empty
  currentPrekey := .zero
  prevPrekey := .zero
  nextPrekeyId := 0
  lastPrekeyPublishTime := 0
  numPrekeys := 0
  numFallbackKeys := 0
  currentFallbackKey := .zero
  prevFallbackKey := .zero
  nextOneTimeKeyId := 0
  lastError := .SUCCESS

/-- `last_error = code; return std::size_t(-1);` -/
def fail {α : Type} (account : Account) (code : OlmErrorCode) : Account × Option α :=
  ({ account with lastError := code }, none)

/-! ## Looking keys up -/

/-- `lookup_key`. -/
def lookupKey (account : Account) (publicKey : Curve25519PublicKey) : Option OneTimeKey :=
  match account.oneTimeKeys.toList.find? (fun key => key.key.publicKey = publicKey) with
  | some key => some key
  | none =>
    if account.numFallbackKeys ≥ 1 ∧ account.currentFallbackKey.key.publicKey = publicKey then
      some account.currentFallbackKey
    else if account.numFallbackKeys ≥ 2 ∧ account.prevFallbackKey.key.publicKey = publicKey then
      some account.prevFallbackKey
    else none

/-- `lookup_prekey`. -/
def lookupPrekey (account : Account) (publicKey : Curve25519PublicKey) : Option PreKey :=
  if account.currentPrekey.key.publicKey = publicKey then some account.currentPrekey
  else if account.prevPrekey.key.publicKey = publicKey then some account.prevPrekey
  else none

/-- `remove_key`: the id of the key. A fallback key stays. -/
def removeKey (account : Account) (publicKey : Curve25519PublicKey) : Account × Option ℕ :=
  match account.oneTimeKeys.toList.findFinIdx? (fun key => key.key.publicKey = publicKey) with
  | some place =>
    ({ account with oneTimeKeys := account.oneTimeKeys.eraseIdx place },
      some account.oneTimeKeys.toList[place].id.toNat)
  | none =>
    if account.numFallbackKeys ≥ 1 ∧ account.currentFallbackKey.key.publicKey = publicKey then
      (account, some account.currentFallbackKey.id.toNat)
    else if account.numFallbackKeys ≥ 2 ∧ account.prevFallbackKey.key.publicKey = publicKey then
      (account, some account.prevFallbackKey.id.toNat)
    else (account, none)

/-! ## Making keys -/

section

variable (curve : Curve25519) (ed25519 : Ed25519)

/-- `sign`, into a buffer of `signatureLength` bytes. -/
def sign (account : Account) (message : Bytes) : Ed25519Signature :=
  ed25519.sign account.identityKeys.ed25519Key message

/-- `generate_prekey_random_length`. -/
def generatePrekeyRandomLength : ℕ := CURVE25519_KEY_LENGTH

/-- `generate_prekey`. The signature covers the public key alone. -/
def generatePrekey (account : Account) (random : Bytes) : Checked (Account × Option ℕ) :=
  if random.length < generatePrekeyRandomLength then .ok (account.fail .NOT_ENOUGH_RANDOM)
  else do
    let random ← loadArray CURVE25519_KEY_LENGTH random 0
    let key := curve.generateKey random
    let id := account.nextPrekeyId + 1
    .ok ({ account with
      numPrekeys := if account.numPrekeys < 2 then account.numPrekeys + 1 else account.numPrekeys
      prevPrekey := account.currentPrekey
      nextPrekeyId := id
      currentPrekey :=
        { id := id, published := false, key := key
          signature := account.sign ed25519 key.publicKey.val } }, some 1)

/-- `new_account_random_length`. -/
def newAccountRandomLength : ℕ :=
  ED25519_RANDOM_LENGTH + CURVE25519_KEY_LENGTH + generatePrekeyRandomLength

/-- `new_account`. -/
def newAccount (account : Account) (random : Bytes) : Checked (Account × Option ℕ) :=
  if random.length < newAccountRandomLength then .ok (account.fail .NOT_ENOUGH_RANDOM)
  else do
    let signing ← loadArray ED25519_RANDOM_LENGTH random 0
    let identity ← loadArray CURVE25519_KEY_LENGTH random ED25519_RANDOM_LENGTH
    let account := { account with
      identityKeys :=
        { ed25519Key := ed25519.generateKey signing
          curve25519Key := curve.generateKey identity } }
    -- what generating the prekey returns is not looked at
    let (account, _) ← account.generatePrekey curve ed25519
      ((random.drop (ED25519_RANDOM_LENGTH + CURVE25519_KEY_LENGTH)).take generatePrekeyRandomLength)
    .ok (account, some 0)

/-- `forget_old_prekey`. -/
def forgetOldPrekey (account : Account) : Account :=
  if account.numPrekeys = 2 then
    { account with prevPrekey := .zero, numPrekeys := account.numPrekeys - 1 }
  else account

/-- `mark_prekey_as_published`, at the time `now`. -/
def markPrekeyAsPublished (account : Account) (now : UInt64) : Account × Option ℕ :=
  if account.currentPrekey.published then (account, none)
  else
    ({ account with
      lastPrekeyPublishTime := now
      currentPrekey := { account.currentPrekey with published := true } }, some 0)

/-- `mark_keys_as_published`: how many one-time keys were not. -/
def markKeysAsPublished (account : Account) : Account × ℕ :=
  let keys := account.oneTimeKeys.toList
  ({ account with
      oneTimeKeys :=
        ⟨keys.map (fun key => { key with published := true }), by
          rw [List.length_map]; exact account.oneTimeKeys.length_le⟩
      currentFallbackKey := { account.currentFallbackKey with published := true } },
    (keys.filter (fun key => !key.published)).length)

/-- `generate_one_time_keys_random_length`: a product of `size_t`. -/
def generateOneTimeKeysRandomLength (numberOfKeys : ℕ) : ℕ :=
  CURVE25519_KEY_LENGTH * numberOfKeys % 2 ^ 64

/-- One round of the loop of `generate_one_time_keys`: a key with the next
id, in front of the others. -/
def addOneTimeKey (account : Account) (random : FixedBytes CURVE25519_KEY_LENGTH) : Account :=
  let id := account.nextOneTimeKeyId + 1
  { account with
    nextOneTimeKeyId := id
    oneTimeKeys := account.oneTimeKeys.push
      { id := id, published := false, key := curve.generateKey random } }

/-- The loop of `generate_one_time_keys`, with `random` at `pos`. The counter
`i` is an `unsigned`, the number of keys a `size_t`. -/
def generateOneTimeKeysLoop (random : Bytes) (numberOfKeys : ℕ) :
    (fuel : ℕ) → (i : UInt32) → (pos : ℕ) → Account → Checked Account
  | 0, i, _, account => if i.toNat < numberOfKeys then .error .diverges else .ok account
  | fuel + 1, i, pos, account =>
    if i.toNat < numberOfKeys then do
      let key ← loadArray CURVE25519_KEY_LENGTH random pos
      generateOneTimeKeysLoop random numberOfKeys fuel (i + 1) (pos + CURVE25519_KEY_LENGTH)
        (account.addOneTimeKey curve key)
    else .ok account

/-- `generate_one_time_keys`. There is no more than a round for each 32 bytes
of `random`, and one that reads past its end. -/
def generateOneTimeKeys (account : Account) (numberOfKeys : ℕ) (random : Bytes) :
    Checked (Account × Option ℕ) :=
  if random.length < generateOneTimeKeysRandomLength numberOfKeys then
    .ok (account.fail .NOT_ENOUGH_RANDOM)
  else do
    let account ← generateOneTimeKeysLoop curve random numberOfKeys
      (random.length / CURVE25519_KEY_LENGTH + 1) 0 0 account
    .ok (account, some numberOfKeys)

/-- `generate_fallback_key`. -/
def generateFallbackKey (account : Account) (random : Bytes) : Checked (Account × Option ℕ) :=
  if random.length < CURVE25519_KEY_LENGTH then .ok (account.fail .NOT_ENOUGH_RANDOM)
  else do
    let random ← loadArray CURVE25519_KEY_LENGTH random 0
    let id := account.nextOneTimeKeyId + 1
    .ok ({ account with
      numFallbackKeys :=
        if account.numFallbackKeys < 2 then account.numFallbackKeys + 1
        else account.numFallbackKeys
      prevFallbackKey := account.currentFallbackKey
      nextOneTimeKeyId := id
      currentFallbackKey :=
        { id := id, published := false, key := curve.generateKey random } }, some 1)

/-- `forget_old_fallback_key`. -/
def forgetOldFallbackKey (account : Account) : Account :=
  if account.numFallbackKeys ≥ 2 then
    { account with numFallbackKeys := 1, prevFallbackKey := .zero }
  else account

end

end Account

end Olm
