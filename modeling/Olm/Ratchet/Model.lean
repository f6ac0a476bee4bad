import Olm.Common.BoundedList
import Olm.Cipher.Model
import Olm.Message.Model

/-!
# The ratchet

`src/ratchet.cpp` and `include/olm/ratchet.hh`. A ratchet is a root key, a
sender chain, the last receiver chains, and the keys of messages that were
skipped over.

The type `K` of root, chain and message keys is a parameter: all the code
does with a key is hand it to the key derivation or to the cipher. The 64
bytes that `_olm_crypto_hkdf_sha256` derives are always taken apart into
two keys, so that is what `Kdf.hkdfSha256` returns. `Kdf.ofHashes` is the
instance with keys of `OLM_SHARED_KEY_LENGTH` bytes.
-/

namespace Olm

/-- `OLM_SHARED_KEY_LENGTH`. -/
abbrev OLM_SHARED_KEY_LENGTH : ℕ := SHA256_OUTPUT_LENGTH

/-- `SharedKey`. -/
abbrev SharedKey := FixedBytes OLM_SHARED_KEY_LENGTH

/-- The key derivations of the ratchet: `_olm_crypto_hmac_sha256` under a
key, and `_olm_crypto_hkdf_sha256` of a secret with a key, or nothing, for
its salt. -/
structure Kdf (K : Type) where
  hmacSha256 : (key : K) → (input : Bytes) → K
  hkdfSha256 : (input : Bytes) → (salt : Option K) → (info : Bytes) → K × K

/-- The derivations on keys of bytes. -/
def Kdf.ofHashes (hashes : Hashes) : Kdf SharedKey where
  hmacSha256 key input := hashes.hmacSha256 key.val input
  hkdfSha256 input salt info :=
    let derivedSecrets :=
      hashes.hkdfSha256 input (salt.map Subtype.val) info (2 * OLM_SHARED_KEY_LENGTH)
    (FixedBytes.slice derivedSecrets 0 OLM_SHARED_KEY_LENGTH (by decide),
      FixedBytes.slice derivedSecrets OLM_SHARED_KEY_LENGTH OLM_SHARED_KEY_LENGTH (by decide))

/-- `PROTOCOL_VERSION`. -/
def PROTOCOL_VERSION : UInt8 := 3

/-- `MESSAGE_KEY_SEED`. -/
def MESSAGE_KEY_SEED : Bytes := [0x01]

/-- `CHAIN_KEY_SEED`. -/
def CHAIN_KEY_SEED : Bytes := [0x02]

/-- `MAX_MESSAGE_GAP`. -/
def MAX_MESSAGE_GAP : ℕ := 2000

/-- `MAX_RECEIVER_CHAINS`. -/
abbrev MAX_RECEIVER_CHAINS : ℕ := 5

/-- `MAX_SKIPPED_MESSAGE_KEYS`. -/
abbrev MAX_SKIPPED_MESSAGE_KEYS : ℕ := 40

/-- `KdfInfo`. -/
structure KdfInfo where
  rootInfo : Bytes
  ratchetInfo : Bytes

/-- What a ratchet is made with: `kdf_info` and `ratchet_cipher`, and the
primitives it calls. -/
structure RatchetConfig (K : Type) where
  curve : Curve25519
  kdf : Kdf K
  kdfInfo : KdfInfo
  ratchetCipher : Cipher K

section Types

variable (K : Type)

/-- `ChainKey`. -/
structure ChainKey where
  index : ℕ
  key : K
  deriving DecidableEq

/-- `MessageKey`. -/
structure MessageKey where
  index : ℕ
  key : K
  deriving DecidableEq

/-- `SenderChain`. -/
structure SenderChain where
  ratchetKey : Curve25519KeyPair
  chainKey : ChainKey K
  deriving DecidableEq

/-- `ReceiverChain`. -/
structure ReceiverChain where
  ratchetKey : Curve25519PublicKey
  chainKey : ChainKey K
  deriving DecidableEq

/-- `SkippedMessageKey`. -/
structure SkippedMessageKey where
  ratchetKey : Curve25519PublicKey
  messageKey : MessageKey K
  deriving DecidableEq

/-- `Ratchet`. -/
structure Ratchet where
  lastError : OlmErrorCode
  rootKey : K
  senderChain : BoundedList (SenderChain K) 1
  receiverChains : BoundedList (ReceiverChain K) MAX_RECEIVER_CHAINS
  skippedMessageKeys : BoundedList (SkippedMessageKey K) MAX_SKIPPED_MESSAGE_KEYS
  deriving DecidableEq

end Types

variable {K : Type} (config : RatchetConfig K)

/-- A pointer that is read through. -/
def nonNull (pointer : Option ℕ) : Checked ℕ :=
  match pointer with
  | some pos => .ok pos
  | none => .error .nullRead

/-! ## Keys -/

/-- `create_chain_key`: the new root key and the first key of the chain. -/
def createChainKey (rootKey : K) (ourKey : Curve25519KeyPair) (theirKey : Curve25519PublicKey) :
    K × ChainKey K :=
  let secret := config.curve.sharedSecret ourKey theirKey
  let derivedSecrets :=
    config.kdf.hkdfSha256 secret.val (some rootKey) config.kdfInfo.ratchetInfo
  (derivedSecrets.1, { index := 0, key := derivedSecrets.2 })

/-- `advance_chain_key`. -/
def advanceChainKey (chainKey : ChainKey K) : ChainKey K where
  index := (chainKey.index + 1) % 2 ^ 32
  key := config.kdf.hmacSha256 chainKey.key CHAIN_KEY_SEED

/-- `create_message_keys`. -/
def createMessageKeys (chainKey : ChainKey K) : MessageKey K where
  index := chainKey.index
  key := config.kdf.hmacSha256 chainKey.key MESSAGE_KEY_SEED

/-- `while (new_chain.index < reader.counter)`, which ends after as many
rounds as the index is below the counter. -/
def advanceChainKeyTo (counter : ℕ) : (rounds : ℕ) → ChainKey K → ChainKey K
  | 0, chainKey => chainKey
  | rounds + 1, chainKey =>
    if chainKey.index < counter then
      advanceChainKeyTo counter rounds (advanceChainKey config chainKey)
    else chainKey

namespace Ratchet

/-- The constructor, on memory that was zeroed. `zeroKey` is what a zeroed
root key is. -/
def new (zeroKey : K) : Ratchet K where
  lastError := .SUCCESS
  rootKey := zeroKey
  senderChain := .empty
  receiverChains := .empty
  skippedMessageKeys := .empty

/-- `last_error = code; return std::size_t(-1);` -/
def fail {α : Type} (ratchet : Ratchet K) (code : OlmErrorCode) : Checked (Ratchet K × Option α) :=
  .ok ({ ratchet with lastError := code }, none)

theorem eq_of_fail {α : Type} {ratchet ratchet' : Ratchet K} {code : OlmErrorCode}
    {result : Option α} (h : ratchet.fail code = .ok (ratchet', result)) :
    ratchet' = { ratchet with lastError := code } ∧ result = none := by
  cases h
  exact ⟨rfl, rfl⟩

/-! ## Initialising -/

/-- `initialise_as_bob`, on the first `shared_secret_length` bytes of the
secret. -/
def initialiseAsBob (ratchet : Ratchet K) (sharedSecret : Bytes)
    (theirRatchetKey : Curve25519PublicKey) : Ratchet K :=
  let derivedSecrets := config.kdf.hkdfSha256 sharedSecret none config.kdfInfo.rootInfo
  { ratchet with
    rootKey := derivedSecrets.1
    receiverChains := ratchet.receiverChains.push
      { ratchetKey := theirRatchetKey, chainKey := { index := 0, key := derivedSecrets.2 } } }

/-- `initialise_as_alice`, on the first `shared_secret_length` bytes of the
secret. -/
def initialiseAsAlice (ratchet : Ratchet K) (sharedSecret : Bytes)
    (ourRatchetKey : Curve25519KeyPair) : Ratchet K :=
  let derivedSecrets := config.kdf.hkdfSha256 sharedSecret none config.kdfInfo.rootInfo
  { ratchet with
    rootKey := derivedSecrets.1
    senderChain := ratchet.senderChain.push
      { ratchetKey := ourRatchetKey, chainKey := { index := 0, key := derivedSecrets.2 } } }

/-! ## Encrypting -/

/-- `encrypt_output_length`. -/
def encryptOutputLength (ratchet : Ratchet K) (plaintextLength : ℕ) : ℕ :=
  let counter := match ratchet.senderChain.toList with
    | [] => 0
    | senderChain :: _ => senderChain.chainKey.index
  encodeMessageLength counter CURVE25519_KEY_LENGTH
    (config.ratchetCipher.encryptCiphertextLength plaintextLength) config.ratchetCipher.macLength

/-- `encrypt_random_length`. -/
def encryptRandomLength (ratchet : Ratchet K) : ℕ :=
  match ratchet.senderChain.toList with
  | [] => CURVE25519_KEY_LENGTH
  | _ :: _ => 0

/-- The first part of `encrypt`: a sender chain, made if there is none.
`receiver_chains[0]` of a ratchet without receiver chains would be read
uninitialised. -/
def startSenderChain (ratchet : Ratchet K) (random : Bytes) :
    Checked (Ratchet K × SenderChain K) :=
  match ratchet.senderChain.toList with
  | senderChain :: _ => .ok (ratchet, senderChain)
  | [] => do
    let random ← loadArray CURVE25519_KEY_LENGTH random 0
    let ratchetKey := config.curve.generateKey random
    match ratchet.receiverChains.toList with
    | [] => .error .outOfBounds
    | receiverChain :: _ =>
      let (rootKey, chainKey) :=
        createChainKey config ratchet.rootKey ratchetKey receiverChain.ratchetKey
      let senderChain := { ratchetKey := ratchetKey, chainKey := chainKey }
      .ok ({ ratchet with
        rootKey := rootKey, senderChain := ratchet.senderChain.push senderChain }, senderChain)

/-- `encrypt`, into the buffer from `output` on: the buffer and the length
of the message. -/
def encrypt (ratchet : Ratchet K) (plaintext random buf : Bytes) (output maxOutputLength : ℕ) :
    Checked (Ratchet K × Option (Bytes × ℕ)) :=
  let outputLength := ratchet.encryptOutputLength config plaintext.length
  if random.length < ratchet.encryptRandomLength then ratchet.fail .NOT_ENOUGH_RANDOM
  else if maxOutputLength < outputLength then ratchet.fail .OUTPUT_BUFFER_TOO_SMALL
  else do
    let (ratchet, senderChain) ← ratchet.startSenderChain config random
    let keys := createMessageKeys config senderChain.chainKey
    let ratchet := { ratchet with
      senderChain := ratchet.senderChain.set 0
        { senderChain with chainKey := advanceChainKey config senderChain.chainKey } }
    let ciphertextLength := config.ratchetCipher.encryptCiphertextLength plaintext.length
    let writer ← encodeMessage PROTOCOL_VERSION keys.index CURVE25519_KEY_LENGTH ciphertextLength
      buf output
    let buf ← writeAt writer.buf writer.ratchetKey senderChain.ratchetKey.publicKey.val
    -- what the cipher returns is not looked at
    let sealed ← config.ratchetCipher.encrypt keys.key plaintext buf writer.ciphertext
      ciphertextLength output outputLength
    .ok (ratchet, some (sealed.getD buf, outputLength))

/-! ## Decrypting -/

/-- `verify_mac_and_decrypt`. -/
def verifyMacAndDecrypt (messageKey : MessageKey K) (buf : Bytes) (reader : MessageReader)
    (maxPlaintextLength : ℕ) : Checked (Option Bytes) := do
  let ciphertext ← nonNull reader.ciphertext.value
  config.ratchetCipher.decrypt messageKey.key buf reader.input reader.inputLength ciphertext
    reader.ciphertext.length maxPlaintextLength

/-- `verify_mac_and_decrypt_for_existing_chain`: `last_error`, and the plain
text. -/
def verifyMacAndDecryptForExistingChain (chain : ChainKey K) (buf : Bytes)
    (reader : MessageReader) (maxPlaintextLength : ℕ) (lastError : OlmErrorCode) :
    Checked (OlmErrorCode × Option Bytes) :=
  if reader.counter.value < chain.index then
    .ok (.ALREADY_DECRYPTED_OR_KEYS_SKIPPED, none)
  else if reader.counter.value - chain.index > MAX_MESSAGE_GAP then
    .ok (.MAX_MESSAGE_GAP_EXCEEDED, none)
  else do
    let newChain := advanceChainKeyTo config reader.counter.value
      (reader.counter.value - chain.index) chain
    let result ← verifyMacAndDecrypt config (createMessageKeys config newChain) buf reader
      maxPlaintextLength
    .ok (lastError, result)

/-- `verify_mac_and_decrypt_for_new_chain`: `last_error`, and the plain
text. -/
def verifyMacAndDecryptForNewChain (ratchet : Ratchet K) (buf : Bytes) (reader : MessageReader)
    (maxPlaintextLength : ℕ) : Checked (OlmErrorCode × Option Bytes) :=
  match ratchet.senderChain.toList with
  | [] => .ok (.SENDER_CHAIN_NOT_ACKNOWLEDGED, none)
  | senderChain :: _ =>
    if reader.counter.value > MAX_MESSAGE_GAP then .ok (.MAX_MESSAGE_GAP_EXCEEDED, none)
    else do
      let ratchetKey ← loadArray CURVE25519_KEY_LENGTH buf (← nonNull reader.ratchetKey.value)
      let (_, chainKey) := createChainKey config ratchet.rootKey senderChain.ratchetKey ratchetKey
      verifyMacAndDecryptForExistingChain config chainKey buf reader maxPlaintextLength
        ratchet.lastError

/-- The loop of `decrypt` over the skipped keys: the first key of the
message that verifies it, its place in the list, and the plain text. -/
def trySkippedMessageKeys (ratchetKey : Curve25519PublicKey) (buf : Bytes)
    (reader : MessageReader) (maxPlaintextLength : ℕ) :
    List (SkippedMessageKey K) → (place : ℕ) → Checked (Option (ℕ × Bytes))
  | [], _ => .ok none
  | skipped :: rest, place =>
    if reader.counter.value = skipped.messageKey.index ∧ skipped.ratchetKey = ratchetKey then do
      match ← verifyMacAndDecrypt config skipped.messageKey buf reader maxPlaintextLength with
      | some plaintext => .ok (some (place, plaintext))
      | none => trySkippedMessageKeys ratchetKey buf reader maxPlaintextLength rest (place + 1)
    else trySkippedMessageKeys ratchetKey buf reader maxPlaintextLength rest (place + 1)

/-- `while (chain->chain_key.index < reader.counter)`: the keys skipped over
are stored. -/
def storeSkippedMessageKeys (ratchetKey : Curve25519PublicKey) (counter : ℕ) :
    (rounds : ℕ) → ChainKey K → BoundedList (SkippedMessageKey K) MAX_SKIPPED_MESSAGE_KEYS →
    ChainKey K × BoundedList (SkippedMessageKey K) MAX_SKIPPED_MESSAGE_KEYS
  | 0, chainKey, skipped => (chainKey, skipped)
  | rounds + 1, chainKey, skipped =>
    if chainKey.index < counter then
      storeSkippedMessageKeys ratchetKey counter rounds (advanceChainKey config chainKey)
        (skipped.push
          { ratchetKey := ratchetKey, messageKey := createMessageKeys config chainKey })
    else (chainKey, skipped)

/-- The end of `decrypt`, on the receiver chain at `place`: it moves past
the message. -/
def advanceReceiverChain (ratchet : Ratchet K) (place : ℕ) (chain : ReceiverChain K)
    (counter : ℕ) : Ratchet K :=
  let (chainKey, skipped) := storeSkippedMessageKeys config chain.ratchetKey counter
    (counter - chain.chainKey.index) chain.chainKey ratchet.skippedMessageKeys
  { ratchet with
    receiverChains := ratchet.receiverChains.set place
      { chain with chainKey := advanceChainKey config chainKey }
    skippedMessageKeys := skipped }

/-- `if (!chain)`, once a message has been verified: the new receiver chain,
the new root key, and no sender chain, which was `senderChain`. -/
def startReceiverChain (ratchet : Ratchet K) (senderChain : SenderChain K)
    (ratchetKey : Curve25519PublicKey) : Ratchet K × ReceiverChain K :=
  let (rootKey, chainKey) :=
    createChainKey config ratchet.rootKey senderChain.ratchetKey ratchetKey
  let chain := { ratchetKey := ratchetKey, chainKey := chainKey }
  ({ ratchet with
    rootKey := rootKey
    receiverChains := ratchet.receiverChains.push chain
    senderChain := ratchet.senderChain.eraseIdx 0 }, chain)

/-- `last_error` when decrypting failed: `BAD_MESSAGE_MAC` unless something
more specific was set. -/
def errorOf (lastError : OlmErrorCode) : OlmErrorCode :=
  if lastError = .SUCCESS then .BAD_MESSAGE_MAC else lastError

/-- `decrypt` after the checks of the fields: `ratchetKey` is what
`reader.ratchet_key` points at. `sender_chain[0]` of a ratchet without a sender
chain would be read uninitialised. -/
def decryptReader (ratchet : Ratchet K) (buf : Bytes) (reader : MessageReader)
    (ratchetKey : Curve25519PublicKey) (maxPlaintextLength : ℕ) (isSequential : Bool) :
    Checked (Ratchet K × Option Bytes) :=
  match ratchet.receiverChains.toList.findFinIdx? (fun chain => chain.ratchetKey = ratchetKey) with
  | none => do
    let (lastError, result) ←
      verifyMacAndDecryptForNewChain config ratchet buf reader maxPlaintextLength
    match result with
    | none => ratchet.fail (errorOf lastError)
    | some plaintext =>
      match ratchet.senderChain.toList with
      | [] => .error .outOfBounds
      | senderChain :: _ =>
        let (ratchet, chain) := ratchet.startReceiverChain config senderChain ratchetKey
        .ok (ratchet.advanceReceiverChain config 0 chain reader.counter.value, some plaintext)
  | some place =>
    let chain := ratchet.receiverChains.toList[place]
    if isSequential && decide (reader.counter.value > chain.chainKey.index) then
      ratchet.fail .MESSAGE_OUT_OF_ORDER
    else if chain.chainKey.index > reader.counter.value then do
      match ← trySkippedMessageKeys config ratchetKey buf reader maxPlaintextLength
          ratchet.skippedMessageKeys.toList 0 with
      | some (place, plaintext) =>
        .ok ({ ratchet with skippedMessageKeys := ratchet.skippedMessageKeys.eraseIdx place },
          some plaintext)
      | none => ratchet.fail .ALREADY_DECRYPTED_OR_KEYS_SKIPPED
    else do
      let (lastError, result) ← verifyMacAndDecryptForExistingChain config chain.chainKey buf reader
        maxPlaintextLength ratchet.lastError
      match result with
      | some plaintext =>
        .ok (ratchet.advanceReceiverChain config place chain reader.counter.value, some plaintext)
      | none => ratchet.fail (errorOf lastError)

/-- `decrypt`, of the `inputLength` bytes of the buffer from `input` on. -/
def decrypt (ratchet : Ratchet K) (buf : Bytes) (input inputLength maxPlaintextLength : ℕ)
    (isSequential : Bool) : Checked (Ratchet K × Option Bytes) := do
  let reader ← decodeMessage buf input inputLength config.ratchetCipher.macLength
  if reader.version ≠ PROTOCOL_VERSION then ratchet.fail .BAD_MESSAGE_VERSION
  else if !reader.counter.hasValue || reader.ratchetKey.value.isNone ||
      reader.ciphertext.value.isNone then
    ratchet.fail .BAD_MESSAGE_FORMAT
  else if maxPlaintextLength <
      config.ratchetCipher.decryptMaxPlaintextLength reader.ciphertext.length then
    ratchet.fail .OUTPUT_BUFFER_TOO_SMALL
  else if reader.ratchetKey.length ≠ CURVE25519_KEY_LENGTH then ratchet.fail .BAD_MESSAGE_FORMAT
  else
    let ratchetKey ← loadArray CURVE25519_KEY_LENGTH buf (← nonNull reader.ratchetKey.value)
    ratchet.decryptReader config buf reader ratchetKey maxPlaintextLength isSequential

/-- `decrypt_max_plaintext_length`. -/
def decryptMaxPlaintextLength (ratchet : Ratchet K) (buf : Bytes) (input inputLength : ℕ) :
    Checked (Ratchet K × Option ℕ) := do
  let reader ← decodeMessage buf input inputLength config.ratchetCipher.macLength
  if reader.ciphertext.value.isNone then ratchet.fail .BAD_MESSAGE_FORMAT
  else .ok (ratchet,
    some (config.ratchetCipher.decryptMaxPlaintextLength reader.ciphertext.length))

end Ratchet

end Olm
