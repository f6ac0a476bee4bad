import Olm.Account.Model
import Olm.Base64.Model
import Olm.Pickle

/-!
# The keys of an account as JSON

The getters of `src/account.cpp`. They write into a buffer of the caller
and return how much they wrote; a buffer that is too small is refused
before anything is written.
-/

namespace Olm

/-! ## Writing -/

/-- A buffer, and where the next byte goes. -/
structure JsonOutput where
  buf : Bytes
  pos : ℕ

namespace JsonOutput

/-- `*(pos++) = ...` and `write_string`. -/
def write (out : JsonOutput) (bytes : Bytes) : Checked JsonOutput := do
  let buf ← writeAt out.buf out.pos bytes
  .ok { buf := buf, pos := out.pos + bytes.length }

/-- `pos = olm::encode_base64(...)`. -/
def writeBase64 (out : JsonOutput) (bytes : Bytes) : Checked JsonOutput := do
  let (buf, length) ← encodeBase64 (.object bytes) bytes.length out.buf out.pos
  .ok { buf := buf, pos := out.pos + length }

/-- The id of a key and the key, each in base64. -/
def writeKey (out : JsonOutput) (id : UInt32) (publicKey : Curve25519PublicKey) :
    Checked JsonOutput := do
  let out ← out.write (asciiBytes "\"")
  let out ← out.writeBase64 (pickleUInt32 id)
  let out ← out.write (asciiBytes "\":\"")
  let out ← out.writeBase64 publicKey.val
  out.write (asciiBytes "\"")

end JsonOutput

/-- `KEY_JSON_ED25519`. -/
def KEY_JSON_ED25519 : Bytes := asciiBytes "\"ed25519\":"

/-- `KEY_JSON_CURVE25519`. -/
def KEY_JSON_CURVE25519 : Bytes := asciiBytes "\"curve25519\":"

/-- What an entry for a key takes. -/
def keyEntryLength (id : UInt32) : ℕ :=
  1 + encodeBase64Length (pickleLengthUInt32 id) + 3 + encodeBase64Length CURVE25519_KEY_LENGTH + 1

namespace Account

variable (account : Account)

/-! ## One key at most -/

/-- The length of an object that names one key, or none. -/
def singleKeyJsonLength (key : Option (UInt32 × Curve25519PublicKey)) : ℕ :=
  4 + KEY_JSON_CURVE25519.length + (key.map (fun key => keyEntryLength key.1)).getD 0

/-- An object that names one key, or none. -/
def writeSingleKeyJson (key : Option (UInt32 × Curve25519PublicKey)) (json : Bytes) :
    Checked (Bytes × ℕ) := do
  let out ← JsonOutput.write { buf := json, pos := 0 } (asciiBytes "\x7b")
  let out ← out.write KEY_JSON_CURVE25519
  let out ← out.write (asciiBytes "\x7b")
  let out ← match key with
    | some (id, publicKey) => out.writeKey id publicKey
    | none => .ok out
  let out ← out.write (asciiBytes "\x7d")
  let out ← out.write (asciiBytes "\x7d")
  .ok (out.buf, out.pos)

/-- The getters of one key: they refuse a buffer that is too small. -/
def getSingleKeyJson (key : Option (UInt32 × Curve25519PublicKey)) (json : Bytes) :
    Checked (Account × Option (Bytes × ℕ)) :=
  if json.length < singleKeyJsonLength key then .ok (account.fail .OUTPUT_BUFFER_TOO_SMALL)
  else do
    let written ← writeSingleKeyJson key json
    .ok (account, some written)

/-- The prekey that the getters name, whatever `num_prekeys`. -/
def prekeyEntry : UInt32 × Curve25519PublicKey :=
  (account.currentPrekey.id, account.currentPrekey.key.publicKey)

/-- `get_prekey_json_length`. -/
def getPrekeyJsonLength : ℕ := singleKeyJsonLength (some account.prekeyEntry)

/-- `get_prekey_json`. -/
def getPrekeyJson (json : Bytes) : Checked (Account × Option (Bytes × ℕ)) :=
  account.getSingleKeyJson (some account.prekeyEntry) json

/-- `get_unpublished_prekey_json`: nothing is written where the prekey is
published. -/
def getUnpublishedPrekeyJson (json : Bytes) : Checked (Account × Option (Bytes × ℕ)) :=
  if json.length < account.getPrekeyJsonLength then .ok (account.fail .OUTPUT_BUFFER_TOO_SMALL)
  else if account.currentPrekey.published then .ok (account, some (json, 0))
  else do
    let written ← writeSingleKeyJson (some account.prekeyEntry) json
    .ok (account, some written)

/-- `get_prekey_signature`: the buffer is not checked, and the length is that
of the signature before it is encoded. -/
def getPrekeySignature (signature : Bytes) : Checked (Bytes × ℕ) := do
  let (buf, _) ← encodeBase64 (.object account.currentPrekey.signature.val) ED25519_SIGNATURE_LENGTH
    signature 0
  .ok (buf, ED25519_SIGNATURE_LENGTH)

/-- The fallback key of an account that has one. -/
def fallbackKeyEntry : Option (UInt32 × Curve25519PublicKey) :=
  if account.numFallbackKeys ≥ 1 then
    some (account.currentFallbackKey.id, account.currentFallbackKey.key.publicKey)
  else none

/-- `get_fallback_key_json`. -/
def getFallbackKeyJson (json : Bytes) : Checked (Account × Option (Bytes × ℕ)) :=
  account.getSingleKeyJson account.fallbackKeyEntry json

/-- The fallback key of an account that has one that is not published. -/
def unpublishedFallbackKeyEntry : Option (UInt32 × Curve25519PublicKey) :=
  if account.numFallbackKeys ≥ 1 ∧ !account.currentFallbackKey.published then
    some (account.currentFallbackKey.id, account.currentFallbackKey.key.publicKey)
  else none

/-- `get_unpublished_fallback_key_json`. -/
def getUnpublishedFallbackKeyJson (json : Bytes) : Checked (Account × Option (Bytes × ℕ)) :=
  account.getSingleKeyJson account.unpublishedFallbackKeyEntry json

/-! ## The identity keys -/

/-- `get_identity_json_length`. -/
def getIdentityJsonLength : ℕ :=
  1 + KEY_JSON_CURVE25519.length + 1 + encodeBase64Length CURVE25519_KEY_LENGTH + 2 +
    KEY_JSON_ED25519.length + 1 + encodeBase64Length ED25519_PUBLIC_KEY_LENGTH + 2

/-- `get_identity_json`. -/
def getIdentityJson (json : Bytes) : Checked (Account × Option (Bytes × ℕ)) :=
  if json.length < getIdentityJsonLength then .ok (account.fail .OUTPUT_BUFFER_TOO_SMALL)
  else do
    let out ← JsonOutput.write { buf := json, pos := 0 } (asciiBytes "\x7b")
    let out ← out.write KEY_JSON_CURVE25519
    let out ← out.write (asciiBytes "\"")
    let out ← out.writeBase64 account.identityKeys.curve25519Key.publicKey.val
    let out ← out.write (asciiBytes "\",")
    let out ← out.write KEY_JSON_ED25519
    let out ← out.write (asciiBytes "\"")
    let out ← out.writeBase64 account.identityKeys.ed25519Key.publicKey.val
    let out ← out.write (asciiBytes "\"\x7d")
    .ok (account, some (out.buf, out.pos))

/-! ## The one-time keys -/

/-- The keys that are not published. -/
def unpublishedOneTimeKeys : List OneTimeKey :=
  account.oneTimeKeys.toList.filter (fun key => !key.published)

/-- The loop of `get_one_time_keys_json_length`: the length, and whether there
was no key to count. -/
def oneTimeKeysJsonLengthLoop : List OneTimeKey → (length : ℕ) → (isEmpty : Bool) → ℕ × Bool
  | [], length, isEmpty => (length, isEmpty)
  | key :: keys, length, isEmpty =>
    if key.published then oneTimeKeysJsonLengthLoop keys length isEmpty
    else
      oneTimeKeysJsonLengthLoop keys
        (length + 2 + encodeBase64Length (pickleLengthUInt32 key.id) + 3 +
          encodeBase64Length CURVE25519_KEY_LENGTH + 1) false

/-- `get_one_time_keys_json_length`. -/
def getOneTimeKeysJsonLength : ℕ :=
  let (length, isEmpty) := oneTimeKeysJsonLengthLoop account.oneTimeKeys.toList 0 true
  (if isEmpty then length + 1 else length) + 3 + KEY_JSON_CURVE25519.length

/-- The loop of `get_one_time_keys_json`: the separator that comes before the
next key, and what was written. -/
def writeOneTimeKeys : List OneTimeKey → (sep : Bytes) → JsonOutput → Checked (Bytes × JsonOutput)
  | [], sep, out => .ok (sep, out)
  | key :: keys, sep, out =>
    if key.published then writeOneTimeKeys keys sep out
    else do
      let out ← out.write sep
      let out ← out.writeKey key.id key.key.publicKey
      writeOneTimeKeys keys (asciiBytes ",") out

/-- `get_one_time_keys_json`. -/
def getOneTimeKeysJson (json : Bytes) : Checked (Account × Option (Bytes × ℕ)) :=
  if json.length < account.getOneTimeKeysJsonLength then
    .ok (account.fail .OUTPUT_BUFFER_TOO_SMALL)
  else do
    let out ← JsonOutput.write { buf := json, pos := 0 } (asciiBytes "\x7b")
    let out ← out.write KEY_JSON_CURVE25519
    let (sep, out) ← writeOneTimeKeys account.oneTimeKeys.toList (asciiBytes "\x7b") out
    let out ← (if sep ≠ asciiBytes "," then out.write sep else .ok out)
    let out ← out.write (asciiBytes "\x7d\x7d")
    .ok (account, some (out.buf, out.pos))

end Account

end Olm
