import Olm.Base64.Model
import Olm.Common.Calls
import Olm.Crypto

/-!
# Short authentication strings

`src/sas.c`: two parties exchange public keys and derive bytes and codes
from the secret that they share. Whether there is one is a flag beside it,
which `olm_create_sas` takes back and `olm_sas_set_their_key` sets. The
peer's key is decoded over itself, and two of the three functions for a
code encode it over itself.
-/

namespace Olm

/-- `OlmSAS`. -/
structure OlmSAS where
  lastError : OlmErrorCode
  curve25519Key : Curve25519KeyPair
  secret : Curve25519SharedSecret
  theirKeySet : Bool
  deriving DecidableEq

namespace OlmSAS

variable (curve : Curve25519) (hashes : Hashes)

/-- `sas->last_error = code; return (size_t)-1;` -/
def fail {α : Type} (sas : OlmSAS) (code : OlmErrorCode) : Checked (OlmSAS × Option α) :=
  .ok ({ sas with lastError := code }, none)

/-- `_olm_unset(memory, sizeof(OlmSAS))`. -/
def unset : OlmSAS where
  lastError := .SUCCESS
  curve25519Key := { publicKey := .zero _, privateKey := .zero _ }
  secret := .zero _
  theirKeySet := false

/-- `olm_sas`. -/
def olmSas : OlmSAS := unset

/-- `olm_clear_sas`. -/
def clearSas (_sas : OlmSAS) : OlmSAS := unset

/-- `olm_create_sas_random_length`. -/
def createSasRandomLength : ℕ := CURVE25519_KEY_LENGTH

/-- `olm_create_sas`. -/
def createSas (sas : OlmSAS) (random : Bytes) : Checked (OlmSAS × Option Unit) :=
  if random.length < createSasRandomLength then sas.fail .NOT_ENOUGH_RANDOM
  else do
    let curve25519Key := curve.generateKey (← loadArray CURVE25519_KEY_LENGTH random 0)
    .ok ({ sas with curve25519Key := curve25519Key, theirKeySet := false }, some ())

/-- `olm_sas_pubkey_length`. -/
def pubkeyLength : ℕ := encodeBase64Length CURVE25519_KEY_LENGTH

/-- `olm_sas_get_pubkey`, into the buffer `pubkey`. -/
def getPubkey (sas : OlmSAS) (pubkey : Bytes) : Checked (OlmSAS × Option Bytes) :=
  if pubkey.length < pubkeyLength then sas.fail .OUTPUT_BUFFER_TOO_SMALL
  else do
    let (pubkey, _) ← encodeBase64 (.object sas.curve25519Key.publicKey.val) CURVE25519_KEY_LENGTH
      pubkey 0
    .ok (sas, some pubkey)

/-- `olm_sas_set_their_key`. The key is decoded over itself. -/
def setTheirKey (sas : OlmSAS) (theirKey : Bytes) : Checked (OlmSAS × Option Unit) :=
  if theirKey.length < pubkeyLength then sas.fail .INPUT_BUFFER_TOO_SMALL
  else do
    match ← decodeBase64 (.within 0) theirKey.length theirKey 0 with
    | (_, none) => sas.fail .INVALID_BASE64
    | (theirKey, some _) => do
      let theirKey ← loadArray CURVE25519_KEY_LENGTH theirKey 0
      .ok ({ sas with
        secret := curve.sharedSecret sas.curve25519Key theirKey
        theirKeySet := true }, some ())

/-- `olm_sas_generate_bytes`: the bytes of its output. -/
def generateBytes (sas : OlmSAS) (info : Bytes) (outputLength : ℕ) :
    Checked (OlmSAS × Option Bytes) :=
  if !sas.theirKeySet then sas.fail .SAS_THEIR_KEY_NOT_SET
  else .ok (sas, some (hashes.hkdfSha256 sas.secret.val none info outputLength).val)

/-! ## Codes -/

/-- `olm_sas_mac_length`. -/
def macLength : ℕ := encodeBase64Length SHA256_OUTPUT_LENGTH

/-- What the three functions for a code do, with a key of `keyLength` bytes;
`put` stores the code in the buffer. -/
def calculateMacWith (keyLength : ℕ)
    (put : FixedBytes SHA256_OUTPUT_LENGTH → Bytes → Checked Bytes) (sas : OlmSAS)
    (input info mac : Bytes) : Checked (OlmSAS × Option Bytes) :=
  if mac.length < macLength then sas.fail .OUTPUT_BUFFER_TOO_SMALL
  else if !sas.theirKeySet then sas.fail .SAS_THEIR_KEY_NOT_SET
  else do
    let key := hashes.hkdfSha256 sas.secret.val none info keyLength
    let mac ← put (hashes.hmacSha256 key.val input) mac
    .ok (sas, some mac)

/-- The code is encoded from `temp_mac`. -/
def putFromTemp (tempMac : FixedBytes SHA256_OUTPUT_LENGTH) (mac : Bytes) : Checked Bytes := do
  let (mac, _) ← encodeBase64 (.object tempMac.val) SHA256_OUTPUT_LENGTH mac 0
  .ok mac

/-- The code is written to the buffer, and encoded over itself from its
first byte on. -/
def putInPlace (code : FixedBytes SHA256_OUTPUT_LENGTH) (mac : Bytes) : Checked Bytes := do
  let mac ← writeAt mac 0 code.val
  let (mac, _) ← encodeBase64 (.within 0) SHA256_OUTPUT_LENGTH mac 0
  .ok mac

/-- `olm_sas_calculate_mac_fixed_base64`. -/
def calculateMacFixedBase64 : OlmSAS → Bytes → Bytes → Bytes → Checked (OlmSAS × Option Bytes) :=
  calculateMacWith hashes 32 putFromTemp

/-- `olm_sas_calculate_mac`. -/
def calculateMac : OlmSAS → Bytes → Bytes → Bytes → Checked (OlmSAS × Option Bytes) :=
  calculateMacWith hashes 32 putInPlace

/-- `olm_sas_calculate_mac_long_kdf`. -/
def calculateMacLongKdf : OlmSAS → Bytes → Bytes → Bytes → Checked (OlmSAS × Option Bytes) :=
  calculateMacWith hashes 256 putInPlace

/-- The three functions for a code. -/
inductive MacFunction where
  | fixedBase64
  | plain
  | longKdf
  deriving DecidableEq

/-- The function of that name. -/
def MacFunction.calculate :
    MacFunction → OlmSAS → Bytes → Bytes → Bytes → Checked (OlmSAS × Option Bytes)
  | .fixedBase64 => calculateMacFixedBase64 hashes
  | .plain => calculateMac hashes
  | .longKdf => calculateMacLongKdf hashes

/-! ## Calls -/

/-- A call of the library on an object. -/
inductive Call where
  | olmSas
  | clearSas
  | createSas (random : Bytes)
  | getPubkey (pubkey : Bytes)
  | setTheirKey (theirKey : Bytes)
  | generateBytes (info : Bytes) (outputLength : ℕ)
  | calculateMac (mac : MacFunction) (input info room : Bytes)
  deriving DecidableEq

/-- A call, and what its caller sees of it. -/
def call (sas : OlmSAS) : Call → Checked (OlmSAS × Except OlmErrorCode Bytes)
  | .olmSas => .ok (olmSas, .ok [])
  | .clearSas => .ok (sas.clearSas, .ok [])
  | .createSas random => report lastError (fun _ => []) (sas.createSas curve random)
  | .getPubkey pubkey => report lastError id (sas.getPubkey pubkey)
  | .setTheirKey theirKey => report lastError (fun _ => []) (sas.setTheirKey curve theirKey)
  | .generateBytes info outputLength =>
    report lastError id (sas.generateBytes hashes info outputLength)
  | .calculateMac mac input info room =>
    report lastError id (mac.calculate hashes sas input info room)

end OlmSAS

end Olm
