import Olm.Base64.Model
import Olm.Cipher.Model
import Olm.Megolm.Model
import Olm.Message.Model

/-!
# Group sessions

`src/outbound_group_session.c` and `src/inbound_group_session.c`. The
sender of a group has a Megolm ratchet and a signing key, and shares both
in a session key. A receiver keeps the ratchet it was given and the latest
it has used.

Messages and session keys are built at the end of the buffer they are
returned in and encoded towards its front, and a message is decoded where
it lies.
-/

namespace Olm

/-- `OLM_PROTOCOL_VERSION` of the group messages. -/
def OLM_PROTOCOL_VERSION : UInt8 := 3

/-- `SESSION_KEY_VERSION`. -/
def SESSION_KEY_VERSION : UInt8 := 2

/-- `SESSION_EXPORT_VERSION`. -/
def SESSION_EXPORT_VERSION : UInt8 := 1

/-- `GROUP_SESSION_ID_LENGTH`. -/
abbrev GROUP_SESSION_ID_LENGTH : ℕ := ED25519_PUBLIC_KEY_LENGTH

/-- `SESSION_EXPORT_RAW_LENGTH`. -/
abbrev SESSION_EXPORT_RAW_LENGTH : ℕ := 1 + 4 + MEGOLM_RATCHET_LENGTH + ED25519_PUBLIC_KEY_LENGTH

/-- `SESSION_KEY_RAW_LENGTH`. -/
abbrev SESSION_KEY_RAW_LENGTH : ℕ :=
  1 + 4 + MEGOLM_RATCHET_LENGTH + ED25519_PUBLIC_KEY_LENGTH + ED25519_SIGNATURE_LENGTH

/-- The primitives of a group session. -/
structure GroupPrimitives where
  ed25519 : Ed25519
  hashes : Hashes
  aes : Aes256

/-- `megolm_cipher`. -/
def GroupPrimitives.megolmCipher (prims : GroupPrimitives) : Cipher Bytes :=
  aesSha256 prims.hashes prims.aes (asciiBytes "MEGOLM_KEYS")

/-! ## Parts of a session key -/

/-- The loop that writes a counter as `n` bytes: its top byte, and then the
bytes below, shifted up. -/
def encodeCounter : (n : ℕ) → (counter : UInt32) → Bytes
  | 0, _ => []
  | n + 1, counter => ((0xFF : UInt32) &&& counter >>> 24).toUInt8 :: encodeCounter n (counter <<< 8)

/-- The loop that reads it back: `counter <<= 8; counter |= *ptr++;`. -/
def decodeCounter (bs : Bytes) : UInt32 := bs.foldl (fun counter b => counter <<< 8 ||| b.toUInt32) 0

/-- The four parts of a ratchet, as `megolm_init` copies them. -/
def loadRatchet (buf : Bytes) (pos : ℕ) : Checked (Fin MEGOLM_RATCHET_PARTS → RatchetPart) := do
  let part0 ← loadArray MEGOLM_RATCHET_PART_LENGTH buf pos
  let part1 ← loadArray MEGOLM_RATCHET_PART_LENGTH buf (pos + MEGOLM_RATCHET_PART_LENGTH)
  let part2 ← loadArray MEGOLM_RATCHET_PART_LENGTH buf (pos + MEGOLM_RATCHET_PART_LENGTH * 2)
  let part3 ← loadArray MEGOLM_RATCHET_PART_LENGTH buf (pos + MEGOLM_RATCHET_PART_LENGTH * 3)
  .ok (fun part => match part with
    | 0 => part0
    | 1 => part1
    | 2 => part2
    | 3 => part3)

/-! ## The sender -/

/-- `struct OlmOutboundGroupSession`. -/
structure OutboundGroupSession where
  ratchet : Megolm
  signingKey : Ed25519KeyPair
  lastError : OlmErrorCode

namespace OutboundGroupSession

variable (prims : GroupPrimitives)

/-- `last_error = code; return (size_t)-1;` -/
def fail {α : Type} (session : OutboundGroupSession) (code : OlmErrorCode) :
    Checked (OutboundGroupSession × Option α) :=
  .ok ({ session with lastError := code }, none)

/-- `olm_init_outbound_group_session_random_length`. -/
def initOutboundGroupSessionRandomLength : ℕ := MEGOLM_RATCHET_LENGTH + ED25519_RANDOM_LENGTH

/-- `olm_init_outbound_group_session`. -/
def initOutboundGroupSession (session : OutboundGroupSession) (random : Bytes) :
    Checked (OutboundGroupSession × Option Unit) :=
  if random.length < initOutboundGroupSessionRandomLength then session.fail .NOT_ENOUGH_RANDOM
  else do
    let ratchet := Megolm.init (← loadRatchet random 0) 0
    let signingKey := prims.ed25519.generateKey
      (← loadArray ED25519_RANDOM_LENGTH random MEGOLM_RATCHET_LENGTH)
    .ok ({ session with ratchet := ratchet, signingKey := signingKey }, some ())

/-- `raw_message_length`. -/
def rawMessageLength (session : OutboundGroupSession) (plaintextLength : ℕ) : ℕ :=
  encodeGroupMessageLength session.ratchet.counter.toNat
    (prims.megolmCipher.encryptCiphertextLength plaintextLength) prims.megolmCipher.macLength
    ED25519_SIGNATURE_LENGTH

/-- `olm_group_encrypt_message_length`. -/
def groupEncryptMessageLength (session : OutboundGroupSession) (plaintextLength : ℕ) : ℕ :=
  encodeBase64Length (session.rawMessageLength prims plaintextLength)

/-- `_encrypt`, into the bytes of `message` from `buffer` on. -/
def encrypt (session : OutboundGroupSession) (plaintext message : Bytes) (buffer : ℕ) :
    Checked (OutboundGroupSession × Option Bytes) := do
  let ciphertextLength := prims.megolmCipher.encryptCiphertextLength plaintext.length
  let writer ← encodeGroupMessage OLM_PROTOCOL_VERSION session.ratchet.counter.toNat
    ciphertextLength message buffer
  let messageLength := writer.length + prims.megolmCipher.macLength
  match ← prims.megolmCipher.encrypt session.ratchet.getData plaintext writer.buf
      writer.ciphertext ciphertextLength buffer messageLength with
  | none => .ok (session, none)
  | some message => do
    let session := { session with ratchet := session.ratchet.advance prims.hashes.hmacSha256 }
    let input ← readBytes message buffer messageLength
    let message ← writeAt message (buffer + messageLength)
      (prims.ed25519.sign session.signingKey input).val
    .ok (session, some message)

/-- `olm_group_encrypt`, into the buffer `message`: the buffer, and the
length it returns. -/
def groupEncrypt (session : OutboundGroupSession) (plaintext message : Bytes) :
    Checked (OutboundGroupSession × Option (Bytes × ℕ)) :=
  let rawmsglen := session.rawMessageLength prims plaintext.length
  if message.length < encodeBase64Length rawmsglen then session.fail .OUTPUT_BUFFER_TOO_SMALL
  else do
    let messagePos := encodeBase64Length rawmsglen - rawmsglen
    let (session, result) ← session.encrypt prims plaintext message messagePos
    match result with
    | none => .ok (session, none)
    | some message => do
      let result ← encodeBase64 (.within messagePos) rawmsglen message 0
      .ok (session, some result)

/-- `olm_outbound_group_session_id`. -/
def outboundGroupSessionId (session : OutboundGroupSession) (id : Bytes) :
    Checked (OutboundGroupSession × Option (Bytes × ℕ)) :=
  if id.length < encodeBase64Length GROUP_SESSION_ID_LENGTH then
    session.fail .OUTPUT_BUFFER_TOO_SMALL
  else do
    let result ← encodeBase64 (.object session.signingKey.publicKey.val) GROUP_SESSION_ID_LENGTH id 0
    .ok (session, some result)

/-- `olm_outbound_group_session_message_index`. -/
def outboundGroupSessionMessageIndex (session : OutboundGroupSession) : UInt32 :=
  session.ratchet.counter

/-- `olm_outbound_group_session_key`, into the buffer `key`. -/
def outboundGroupSessionKey (session : OutboundGroupSession) (key : Bytes) :
    Checked (OutboundGroupSession × Option (Bytes × ℕ)) :=
  let encodedLength := encodeBase64Length SESSION_KEY_RAW_LENGTH
  if key.length < encodedLength then session.fail .OUTPUT_BUFFER_TOO_SMALL
  else do
    let raw := encodedLength - SESSION_KEY_RAW_LENGTH
    let key ← writeAt key raw [SESSION_KEY_VERSION]
    let ptr := raw + 1
    let key ← writeAt key ptr (encodeCounter 4 session.ratchet.counter)
    let ptr := ptr + 4
    let key ← writeAt key ptr session.ratchet.getData
    let ptr := ptr + MEGOLM_RATCHET_LENGTH
    let key ← writeAt key ptr session.signingKey.publicKey.val
    let ptr := ptr + ED25519_PUBLIC_KEY_LENGTH
    let input ← readBytes key raw (ptr - raw)
    let key ← writeAt key ptr (prims.ed25519.sign session.signingKey input).val
    let result ← encodeBase64 (.within raw) SESSION_KEY_RAW_LENGTH key 0
    .ok (session, some result)

end OutboundGroupSession

/-! ## The receiver -/

/-- `struct OlmInboundGroupSession`. -/
structure InboundGroupSession where
  initialRatchet : Megolm
  latestRatchet : Megolm
  signingKey : Ed25519PublicKey
  signingKeyVerified : Bool
  lastError : OlmErrorCode

/-- `olm_inbound_group_session`: the memory is cleared. -/
def InboundGroupSession.new : InboundGroupSession where
  initialRatchet := .init (fun _ => FixedBytes.zero _) 0
  latestRatchet := .init (fun _ => FixedBytes.zero _) 0
  signingKey := FixedBytes.zero _
  signingKeyVerified := false
  lastError := .SUCCESS

/-- What `olm_group_decrypt` leaves: the session, the index it stored
through `message_index`, if it did, and the plain text, or `none` for
`(size_t)-1`. -/
structure GroupDecryption where
  session : InboundGroupSession
  messageIndex : Option UInt32
  plaintext : Option Bytes

namespace InboundGroupSession

variable (prims : GroupPrimitives)

/-- `last_error = code; return (size_t)-1;` -/
def fail {α : Type} (session : InboundGroupSession) (code : OlmErrorCode) :
    Checked (InboundGroupSession × Option α) :=
  .ok ({ session with lastError := code }, none)

/-- `_init_group_session_keys`. -/
def initGroupSessionKeys (session : InboundGroupSession) (keyBuf : Bytes) (exportFormat : Bool) :
    Checked (InboundGroupSession × Option Unit) := do
  let expectedVersion := if exportFormat then SESSION_EXPORT_VERSION else SESSION_KEY_VERSION
  let version ← readByte keyBuf 0
  let ptr := 1
  if version ≠ expectedVersion then session.fail .BAD_SESSION_KEY
  else do
    let counter := decodeCounter (← readBytes keyBuf ptr 4)
    let ptr := ptr + 4
    let ratchet := Megolm.init (← loadRatchet keyBuf ptr) counter
    let ptr := ptr + MEGOLM_RATCHET_LENGTH
    let signingKey ← loadArray ED25519_PUBLIC_KEY_LENGTH keyBuf ptr
    let ptr := ptr + ED25519_PUBLIC_KEY_LENGTH
    let session := { session with
      initialRatchet := ratchet, latestRatchet := ratchet, signingKey := signingKey }
    if exportFormat then .ok (session, some ())
    else do
      let message ← readBytes keyBuf 0 ptr
      let signature ← loadArray ED25519_SIGNATURE_LENGTH keyBuf ptr
      if !prims.ed25519.verify session.signingKey message signature then session.fail .BAD_SIGNATURE
      else .ok ({ session with signingKeyVerified := true }, some ())

/-- `olm_init_inbound_group_session` and `olm_import_inbound_group_session`,
which differ in the format and so in the length of the key. The array the
key is decoded to is overwritten as a whole. -/
def initFromSessionKey (session : InboundGroupSession) (sessionKey : Bytes) (keyRawLength : ℕ)
    (exportFormat : Bool) : Checked (InboundGroupSession × Option Unit) :=
  match decodeBase64Length sessionKey.length with
  | none => session.fail .INVALID_BASE64
  | some rawLength =>
    if rawLength ≠ keyRawLength then session.fail .BAD_SESSION_KEY
    else do
      let (keyBuf, _) ← decodeBase64 (.object sessionKey) sessionKey.length
        (List.replicate keyRawLength 0) 0
      session.initGroupSessionKeys prims keyBuf exportFormat

/-- `olm_init_inbound_group_session`. -/
def initInboundGroupSession (session : InboundGroupSession) (sessionKey : Bytes) :
    Checked (InboundGroupSession × Option Unit) :=
  session.initFromSessionKey prims sessionKey SESSION_KEY_RAW_LENGTH false

/-- `olm_import_inbound_group_session`. -/
def importInboundGroupSession (session : InboundGroupSession) (sessionKey : Bytes) :
    Checked (InboundGroupSession × Option Unit) :=
  session.initFromSessionKey prims sessionKey SESSION_EXPORT_RAW_LENGTH true

/-- `_get_megolm`: a copy of the ratchet, advanced to the index. -/
def getMegolm (session : InboundGroupSession) (messageIndex : UInt32) :
    InboundGroupSession × Option Megolm :=
  if messageIndex - session.latestRatchet.counter < (1 : UInt32) <<< 31 then
    let latestRatchet := session.latestRatchet.advanceTo prims.hashes.hmacSha256 messageIndex
    ({ session with latestRatchet := latestRatchet }, some latestRatchet)
  else if (1 : UInt32) <<< 31 ≤ messageIndex - session.initialRatchet.counter then
    ({ session with lastError := .UNKNOWN_MESSAGE_INDEX }, none)
  else (session, some (session.initialRatchet.advanceTo prims.hashes.hmacSha256 messageIndex))

/-- The end of `_decrypt`, once the message has been decoded. -/
def decryptDecoded (session : InboundGroupSession) (message : Bytes) (messageLength : ℕ)
    (messageIndex : UInt32) (ciphertext ciphertextLength maxPlaintextLength : ℕ) :
    Checked (InboundGroupSession × Option Bytes) := do
  let messageLength := messageLength - ED25519_SIGNATURE_LENGTH
  let signature ← loadArray ED25519_SIGNATURE_LENGTH message messageLength
  if !prims.ed25519.verify session.signingKey (← readBytes message 0 messageLength) signature then
    session.fail .BAD_SIGNATURE
  else if maxPlaintextLength < prims.megolmCipher.decryptMaxPlaintextLength ciphertextLength then
    session.fail .OUTPUT_BUFFER_TOO_SMALL
  else
    match session.getMegolm prims messageIndex with
    | (session, none) => .ok (session, none)
    | (session, some megolm) => do
      match ← prims.megolmCipher.decrypt megolm.getData message 0 messageLength ciphertext
          ciphertextLength maxPlaintextLength with
      | none => session.fail .BAD_MESSAGE_MAC
      | some plaintext => .ok ({ session with signingKeyVerified := true }, some plaintext)

/-- `_decrypt`. -/
def decrypt (session : InboundGroupSession) (message : Bytes)
    (messageLength maxPlaintextLength : ℕ) : Checked GroupDecryption := do
  let decodedResults ← decodeGroupMessage message messageLength prims.megolmCipher.macLength
    ED25519_SIGNATURE_LENGTH
  if decodedResults.version ≠ OLM_PROTOCOL_VERSION then
    .ok ⟨{ session with lastError := .BAD_MESSAGE_VERSION }, none, none⟩
  else
    match decodedResults.messageIndex.hasValue, decodedResults.ciphertext.value with
    | true, some ciphertext => do
      let messageIndex := UInt32.ofNat decodedResults.messageIndex.value
      let (session, plaintext) ← session.decryptDecoded prims message messageLength messageIndex
        ciphertext decodedResults.ciphertext.length maxPlaintextLength
      .ok ⟨session, some messageIndex, plaintext⟩
    | _, _ => .ok ⟨{ session with lastError := .BAD_MESSAGE_FORMAT }, none, none⟩

/-- `_decrypt_max_plaintext_length`. -/
def decryptMaxPlaintextLength (session : InboundGroupSession) (message : Bytes)
    (messageLength : ℕ) : Checked (InboundGroupSession × Option ℕ) := do
  let decodedResults ← decodeGroupMessage message messageLength prims.megolmCipher.macLength
    ED25519_SIGNATURE_LENGTH
  if decodedResults.version ≠ OLM_PROTOCOL_VERSION then session.fail .BAD_MESSAGE_VERSION
  else if decodedResults.ciphertext.value.isNone then session.fail .BAD_MESSAGE_FORMAT
  else .ok (session,
    some (prims.megolmCipher.decryptMaxPlaintextLength decodedResults.ciphertext.length))

/-- `olm_group_decrypt_max_plaintext_length`. The message is decoded over
itself. -/
def groupDecryptMaxPlaintextLength (session : InboundGroupSession) (message : Bytes) :
    Checked (InboundGroupSession × Option ℕ) := do
  match ← decodeBase64 (.within 0) message.length message 0 with
  | (_, none) => session.fail .INVALID_BASE64
  | (message, some rawMessageLength) =>
    session.decryptMaxPlaintextLength prims message rawMessageLength

/-- `olm_group_decrypt`. The message is decoded over itself. -/
def groupDecrypt (session : InboundGroupSession) (message : Bytes) (maxPlaintextLength : ℕ) :
    Checked GroupDecryption := do
  match ← decodeBase64 (.within 0) message.length message 0 with
  | (_, none) => .ok ⟨{ session with lastError := .INVALID_BASE64 }, none, none⟩
  | (message, some rawMessageLength) =>
    session.decrypt prims message rawMessageLength maxPlaintextLength

/-- `olm_inbound_group_session_id`. -/
def inboundGroupSessionId (session : InboundGroupSession) (id : Bytes) :
    Checked (InboundGroupSession × Option (Bytes × ℕ)) :=
  if id.length < encodeBase64Length GROUP_SESSION_ID_LENGTH then
    session.fail .OUTPUT_BUFFER_TOO_SMALL
  else do
    let result ← encodeBase64 (.object session.signingKey.val) GROUP_SESSION_ID_LENGTH id 0
    .ok (session, some result)

/-- `olm_inbound_group_session_first_known_index`. -/
def inboundGroupSessionFirstKnownIndex (session : InboundGroupSession) : UInt32 :=
  session.initialRatchet.counter

/-- `olm_inbound_group_session_is_verified`. -/
def inboundGroupSessionIsVerified (session : InboundGroupSession) : Bool :=
  session.signingKeyVerified

/-- `olm_export_inbound_group_session`, into the buffer `key`. -/
def exportInboundGroupSession (session : InboundGroupSession) (key : Bytes)
    (messageIndex : UInt32) : Checked (InboundGroupSession × Option (Bytes × ℕ)) :=
  let encodedLength := encodeBase64Length SESSION_EXPORT_RAW_LENGTH
  if key.length < encodedLength then session.fail .OUTPUT_BUFFER_TOO_SMALL
  else
    match session.getMegolm prims messageIndex with
    | (session, none) => .ok (session, none)
    | (session, some megolm) => do
      let raw := encodedLength - SESSION_EXPORT_RAW_LENGTH
      let key ← writeAt key raw [SESSION_EXPORT_VERSION]
      let ptr := raw + 1
      let key ← writeAt key ptr (encodeCounter 4 messageIndex)
      let ptr := ptr + 4
      let key ← writeAt key ptr megolm.getData
      let ptr := ptr + MEGOLM_RATCHET_LENGTH
      let key ← writeAt key ptr session.signingKey.val
      let result ← encodeBase64 (.within raw) SESSION_EXPORT_RAW_LENGTH key 0
      .ok (session, some result)

end InboundGroupSession

end Olm
