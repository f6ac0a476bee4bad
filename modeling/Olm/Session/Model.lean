import Olm.Account.Model
import Olm.Ratchet.Model

/-!
# Sessions

`src/session.cpp`: the set-up of a session by triple Diffie–Hellman, with
a fourth step where a one-time key is used, and the messages of a session
over its ratchet. The messages of a session that has not received anything
yet are pre-key messages, which embed the ratchet's.
-/

namespace Olm

/-- `OLM_KDF_INFO`. -/
def OLM_KDF_INFO : KdfInfo where
  rootInfo := asciiBytes "OLM_ROOT"
  ratchetInfo := asciiBytes "OLM_RATCHET"

/-- `CIPHER_KDF_INFO`. -/
def CIPHER_KDF_INFO : Bytes := asciiBytes "OLM_KEYS"

/-- `MessageType`. -/
inductive MessageType where
  | PRE_KEY
  | MESSAGE
  deriving DecidableEq, Repr

/-- What the library computes with: the primitives, and the cipher of its
sessions. -/
structure Primitives (K : Type) where
  curve : Curve25519
  ed25519 : Ed25519
  kdf : Kdf K
  cipher : Cipher K

/-- The library's own: keys of bytes, and `OLM_CIPHER`. -/
def Primitives.ofHashes (curve : Curve25519) (ed25519 : Ed25519) (hashes : Hashes) (aes : Aes256) :
    Primitives SharedKey where
  curve := curve
  ed25519 := ed25519
  kdf := .ofHashes hashes
  cipher := (aesSha256 hashes aes CIPHER_KDF_INFO).comap Subtype.val

/-- `ratchet(OLM_KDF_INFO, OLM_CIPHER_BASE(&OLM_CIPHER))`. -/
def Primitives.ratchetConfig {K : Type} (prims : Primitives K) : RatchetConfig K where
  curve := prims.curve
  kdf := prims.kdf
  kdfInfo := OLM_KDF_INFO
  ratchetCipher := prims.cipher

/-- `Session`. -/
structure Session (K : Type) where
  ratchet : Ratchet K
  lastError : OlmErrorCode
  receivedMessage : Bool
  aliceIdentityKey : Curve25519PublicKey
  aliceBaseKey : Curve25519PublicKey
  bobOneTimeKey : Curve25519PublicKey
  bobPrekey : Curve25519PublicKey
  deriving DecidableEq

variable {K : Type} (prims : Primitives K)

namespace Session

/-- `olm_session`: the constructor, on memory that was zeroed. `zeroKey` is
what a zeroed root key is. -/
def new (zeroKey : K) : Session K where
  ratchet := .new zeroKey
  lastError := .SUCCESS
  receivedMessage := false
  aliceIdentityKey := FixedBytes.zero _
  aliceBaseKey := FixedBytes.zero _
  bobOneTimeKey := FixedBytes.zero _
  bobPrekey := FixedBytes.zero _

/-- `last_error = code; return std::size_t(-1);` -/
def fail {α : Type} (session : Session K) (code : OlmErrorCode) : Checked (Session K × Option α) :=
  .ok ({ session with lastError := code }, none)

/-- What a session does with an error of its ratchet: it takes it over. -/
def failRatchet {α : Type} (session : Session K) (ratchet : Ratchet K) :
    Checked (Session K × Option α) :=
  .ok ({ session with
    lastError := ratchet.lastError, ratchet := { ratchet with lastError := .SUCCESS } }, none)

theorem eq_of_fail {α : Type} {session session' : Session K} {code : OlmErrorCode}
    {result : Option α} (h : session.fail code = .ok (session', result)) :
    session' = { session with lastError := code } ∧ result = none := by
  cases h
  exact ⟨rfl, rfl⟩

theorem eq_of_failRatchet {α : Type} {session session' : Session K} {ratchet : Ratchet K}
    {result : Option α} (h : session.failRatchet ratchet = .ok (session', result)) :
    session' = { session with
      lastError := ratchet.lastError, ratchet := { ratchet with lastError := .SUCCESS } } ∧
    result = none := by
  cases h
  exact ⟨rfl, rfl⟩

/-! ## Setting up -/

/-- `new_outbound_session_random_length`. -/
def newOutboundSessionRandomLength : ℕ := CURVE25519_KEY_LENGTH * 2

/-- `sizeof(std::uint8_t)`. -/
def SIZEOF_UINT8 : ℕ := 1

/-- The secret of the side that has the private parts of an identity, a
base and a one-time key: the outputs it stores one after another. -/
def concatSecrets (secrets : List Curve25519SharedSecret) : Bytes :=
  (secrets.map Subtype.val).flatten

/-- The Diffie–Hellman outputs `new_outbound_session` computes, in order. -/
def outboundSecrets (localAccount : Account) (baseKey : Curve25519KeyPair)
    (identityKey preKey : Curve25519PublicKey) (oneTimeKey : Option Curve25519PublicKey) :
    List Curve25519SharedSecret :=
  let aliceIdentityKeyPair := localAccount.identityKeys.curve25519Key
  let bobOneTimeKey := oneTimeKey.getD preKey
  [prims.curve.sharedSecret aliceIdentityKeyPair bobOneTimeKey,
    prims.curve.sharedSecret baseKey identityKey,
    prims.curve.sharedSecret baseKey bobOneTimeKey] ++
  if oneTimeKey.isSome then [prims.curve.sharedSecret baseKey preKey] else []

/-- `new_outbound_session`. -/
def newOutboundSession (session : Session K) (localAccount : Account)
    (identityKey : Curve25519PublicKey) (signingKey : Ed25519PublicKey)
    (preKey : Curve25519PublicKey) (preKeySignature : Ed25519Signature) (random : Bytes)
    (oneTimeKey : Option Curve25519PublicKey) : Checked (Session K × Option Unit) :=
  if random.length < newOutboundSessionRandomLength then session.fail .NOT_ENOUGH_RANDOM
  else do
    let baseKey := prims.curve.generateKey (← loadArray CURVE25519_KEY_LENGTH random 0)
    let ratchetKey := prims.curve.generateKey
      (← loadArray CURVE25519_KEY_LENGTH random CURVE25519_KEY_LENGTH)
    let session := { session with
      receivedMessage := false
      aliceIdentityKey := localAccount.identityKeys.curve25519Key.publicKey
      aliceBaseKey := baseKey.publicKey
      bobOneTimeKey := oneTimeKey.getD preKey
      bobPrekey := preKey }
    if !prims.ed25519.verify signingKey preKey.val preKeySignature then session.fail .BAD_SIGNATURE
    else
      let secret := concatSecrets
        (outboundSecrets prims localAccount baseKey identityKey preKey oneTimeKey)
      let sharedSecretSteps := if oneTimeKey.isSome then 4 else 3
      let sharedSecretLength := SIZEOF_UINT8 * sharedSecretSteps
      .ok ({ session with
        ratchet := session.ratchet.initialiseAsAlice prims.ratchetConfig
          (secret.take sharedSecretLength) ratchetKey }, some ())

/-- `check_message_fields`. -/
def checkMessageFields (reader : PreKeyMessageReader) (haveTheirIdentityKey : Bool) : Bool :=
  (haveTheirIdentityKey || reader.identityKey.value.isSome) &&
  (reader.identityKey.value.isNone || reader.identityKey.length == CURVE25519_KEY_LENGTH) &&
  reader.message.value.isSome &&
  reader.baseKey.value.isSome &&
  reader.baseKey.length == CURVE25519_KEY_LENGTH &&
  reader.oneTimeKey.value.isSome &&
  reader.oneTimeKey.length == CURVE25519_KEY_LENGTH

/-- `load_array` of a key a reader points at. -/
def loadKey (buf : Bytes) (field : StringField) : Checked Curve25519PublicKey := do
  loadArray CURVE25519_KEY_LENGTH buf (← nonNull field.value)

/-- `reader.identity_key && their_identity_key` and the two differ. -/
def identityKeyDiffers (buf : Bytes) (field : StringField)
    (theirIdentityKey : Option Curve25519PublicKey) : Checked Bool :=
  match field.value, theirIdentityKey with
  | some pos, some key => do
    let identityKey ← loadArray CURVE25519_KEY_LENGTH buf pos
    .ok (decide (key ≠ identityKey))
  | _, _ => .ok false

/-- The Diffie–Hellman outputs `new_inbound_session` computes, in order. -/
def inboundSecrets (identityKey oneTimeKey prekey : Curve25519KeyPair)
    (aliceIdentityKey aliceBaseKey : Curve25519PublicKey) (usingPrekeyAsOtk : Bool) :
    List Curve25519SharedSecret :=
  [prims.curve.sharedSecret oneTimeKey aliceIdentityKey,
    prims.curve.sharedSecret identityKey aliceBaseKey,
    prims.curve.sharedSecret oneTimeKey aliceBaseKey] ++
  if usingPrekeyAsOtk then [] else [prims.curve.sharedSecret prekey aliceBaseKey]

/-- The end of `new_inbound_session`, once the keys have been read from the
message: they are looked up in the account. -/
def newInboundSessionFromKeys (session : Session K) (localAccount : Account)
    (ratchetKey : Curve25519PublicKey) : Checked (Session K × Option Unit) :=
  let ourOneTimeKey := localAccount.lookupKey session.bobOneTimeKey
  let usingPrekeyAsOtk := decide (session.bobPrekey = session.bobOneTimeKey)
  if ourOneTimeKey.isNone && !usingPrekeyAsOtk then session.fail .BAD_MESSAGE_KEY_ID
  else
    match localAccount.lookupPrekey session.bobPrekey with
    | none => session.fail .BAD_MESSAGE_KEY_ID
    | some ourPrekey =>
      let bobOneTimeKey := if usingPrekeyAsOtk then ourPrekey.key
        else (ourOneTimeKey.map OneTimeKey.key).getD ourPrekey.key
      let secret := concatSecrets (inboundSecrets prims localAccount.identityKeys.curve25519Key
        bobOneTimeKey ourPrekey.key session.aliceIdentityKey session.aliceBaseKey usingPrekeyAsOtk)
      let sharedSecretSteps := if usingPrekeyAsOtk then 3 else 4
      let sharedSecretLength := SIZEOF_UINT8 * sharedSecretSteps
      .ok ({ session with
        ratchet := session.ratchet.initialiseAsBob prims.ratchetConfig
          (secret.take sharedSecretLength) ratchetKey }, some ())

/-- `new_inbound_session`. -/
def newInboundSession (session : Session K) (localAccount : Account)
    (theirIdentityKey : Option Curve25519PublicKey) (oneTimeKeyMessage : Bytes) :
    Checked (Session K × Option Unit) := do
  let buf := oneTimeKeyMessage
  let reader ← decodeOneTimeKeyMessage buf 0 buf.length
  if !checkMessageFields reader theirIdentityKey.isSome then session.fail .BAD_MESSAGE_FORMAT
  else if ← identityKeyDiffers buf reader.identityKey theirIdentityKey then
    session.fail .BAD_MESSAGE_KEY_ID
  else
    let aliceIdentityKey ← loadKey buf reader.identityKey
    let aliceBaseKey ← loadKey buf reader.baseKey
    let bobOneTimeKey ← loadKey buf reader.oneTimeKey
    let bobPrekey ← loadKey buf reader.prekey
    let session := { session with
      aliceIdentityKey := aliceIdentityKey, aliceBaseKey := aliceBaseKey
      bobOneTimeKey := bobOneTimeKey, bobPrekey := bobPrekey }
    let messageReader ← decodeMessage buf (← nonNull reader.message.value) reader.message.length
      prims.cipher.macLength
    if messageReader.ratchetKey.value.isNone ||
        messageReader.ratchetKey.length != CURVE25519_KEY_LENGTH then
      session.fail .BAD_MESSAGE_FORMAT
    else
      let ratchetKey ← loadKey buf messageReader.ratchetKey
      newInboundSessionFromKeys prims session localAccount ratchetKey

/-- `memcmp(field, key, CURVE25519_KEY_LENGTH) == 0`. -/
def fieldIsKey (buf : Bytes) (field : StringField) (key : Curve25519PublicKey) : Checked Bool := do
  let bytes ← loadKey buf field
  .ok (decide (bytes = key))

/-- `matches_inbound_session`. A comparison is made only while all before
it came out equal. -/
def matchesInboundSession (session : Session K) (theirIdentityKey : Option Curve25519PublicKey)
    (oneTimeKeyMessage : Bytes) : Checked Bool := do
  let buf := oneTimeKeyMessage
  let reader ← decodeOneTimeKeyMessage buf 0 buf.length
  if !checkMessageFields reader theirIdentityKey.isSome then .ok false
  else
    let same ← if reader.identityKey.value.isSome then
      fieldIsKey buf reader.identityKey session.aliceIdentityKey else .ok true
    let same := same && theirIdentityKey.all (fun key => key = session.aliceIdentityKey)
    let same ← if same then fieldIsKey buf reader.baseKey session.aliceBaseKey else .ok false
    if same then fieldIsKey buf reader.oneTimeKey session.bobOneTimeKey else .ok false

/-! ## Messages -/

/-- `encrypt_message_type`. -/
def encryptMessageType (session : Session K) : MessageType :=
  if session.receivedMessage then .MESSAGE else .PRE_KEY

/-- `encrypt_message_length`. -/
def encryptMessageLength (session : Session K) (plaintextLength : ℕ) : ℕ :=
  let messageLength := session.ratchet.encryptOutputLength prims.ratchetConfig plaintextLength
  if session.receivedMessage then messageLength
  else encodeOneTimeKeyMessageLength CURVE25519_KEY_LENGTH CURVE25519_KEY_LENGTH
    CURVE25519_KEY_LENGTH CURVE25519_KEY_LENGTH messageLength

/-- `encrypt_random_length`. -/
def encryptRandomLength (session : Session K) : ℕ := session.ratchet.encryptRandomLength

/-- The header of a message: the buffer and where the ratchet's message goes.
A pre-key message names the four keys of the set-up. -/
def encryptHeader (session : Session K) (message : Bytes) (messageBodyLength : ℕ) :
    Checked (Bytes × ℕ) :=
  if session.receivedMessage then .ok (message, 0)
  else do
    let writer ← encodeOneTimeKeyMessage PROTOCOL_VERSION CURVE25519_KEY_LENGTH
      CURVE25519_KEY_LENGTH CURVE25519_KEY_LENGTH CURVE25519_KEY_LENGTH messageBodyLength message 0
    let buf ← writeAt writer.buf writer.oneTimeKey session.bobOneTimeKey.val
    let buf ← writeAt buf writer.prekey session.bobPrekey.val
    let buf ← writeAt buf writer.identityKey session.aliceIdentityKey.val
    let buf ← writeAt buf writer.baseKey session.aliceBaseKey.val
    .ok (buf, writer.message)

/-- `encrypt`, into the buffer `message`: the buffer, and the length that
`ratchet.encrypt` returned. -/
def encrypt (session : Session K) (plaintext random message : Bytes) :
    Checked (Session K × Option (Bytes × ℕ)) :=
  if message.length < session.encryptMessageLength prims plaintext.length then
    session.fail .OUTPUT_BUFFER_TOO_SMALL
  else do
    let messageBodyLength :=
      session.ratchet.encryptOutputLength prims.ratchetConfig plaintext.length
    let (message, messageBody) ← session.encryptHeader message messageBodyLength
    let (ratchet, result) ← session.ratchet.encrypt prims.ratchetConfig plaintext random message
      messageBody messageBodyLength
    match result with
    | none => session.failRatchet ratchet
    | some result => .ok ({ session with ratchet := ratchet }, some result)

/-- The ratchet's message in a message: where it starts and its length. -/
def messageBody (messageType : MessageType) (message : Bytes) : Checked (Option (ℕ × ℕ)) :=
  match messageType with
  | .MESSAGE => .ok (some (0, message.length))
  | .PRE_KEY => do
    let reader ← decodeOneTimeKeyMessage message 0 message.length
    .ok (reader.message.value.map (fun pos => (pos, reader.message.length)))

/-- `decrypt_max_plaintext_length`. -/
def decryptMaxPlaintextLength (session : Session K) (messageType : MessageType)
    (message : Bytes) : Checked (Session K × Option ℕ) := do
  match ← messageBody messageType message with
  | none => session.fail .BAD_MESSAGE_FORMAT
  | some (body, bodyLength) =>
    let (ratchet, result) ← session.ratchet.decryptMaxPlaintextLength prims.ratchetConfig message
      body bodyLength
    match result with
    | none => session.failRatchet ratchet
    | some length => .ok ({ session with ratchet := ratchet }, some length)

/-- `decrypt`. -/
def decrypt (session : Session K) (messageType : MessageType) (message : Bytes)
    (maxPlaintextLength : ℕ) (isSequential : Bool) : Checked (Session K × Option Bytes) := do
  match ← messageBody messageType message with
  | none => session.fail .BAD_MESSAGE_FORMAT
  | some (body, bodyLength) =>
    let (ratchet, result) ← session.ratchet.decrypt prims.ratchetConfig message body bodyLength
      maxPlaintextLength isSequential
    match result with
    | none => session.failRatchet ratchet
    | some plaintext =>
      .ok ({ session with ratchet := ratchet, receivedMessage := true }, some plaintext)

end Session

end Olm
