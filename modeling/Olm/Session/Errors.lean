import Olm.Common.Lists
import Olm.Session.Pickle

/-!
# What the error of `decrypt` tells

`decrypt` gives one code for each reason it has to refuse a message. It
works the code out from where the message was looked for: a message behind
its chain is tried with the skipped keys, and whatever comes of that, the
code is `ALREADY_DECRYPTED_OR_KEYS_SKIPPED`. A spoiled copy of a message
whose key is still held gets that code too.

It derives chain and message keys ahead of what it has stored before it knows
whether a message is genuine. None of that is kept: on an error only the two
`last_error` fields differ.
-/

namespace Olm

variable {K : Type} {config : RatchetConfig K}

namespace Ratchet

variable {ratchet ratchet' : Ratchet K} {ratchetKey : Curve25519PublicKey} {counter : ℕ}

/-! ## Where a message stands -/

/-- The receiver chain of a message: the first with its ratchet key. -/
def receiverChainOf (ratchet : Ratchet K) (ratchetKey : Curve25519PublicKey) :
    Option (ReceiverChain K) :=
  ratchet.receiverChains.toList.find? (fun chain => chain.ratchetKey = ratchetKey)

/-- The index its chain is at, which is 0 for a chain to be made. -/
def chainIndexOf (ratchet : Ratchet K) (ratchetKey : Curve25519PublicKey) : ℕ :=
  (ratchet.receiverChainOf ratchetKey).elim 0 (fun chain => chain.chainKey.index)

/-- The chain is stored and has moved past the message. -/
def IsBehind (ratchet : Ratchet K) (ratchetKey : Curve25519PublicKey) (counter : ℕ) : Prop :=
  ∃ chain, ratchet.receiverChainOf ratchetKey = some chain ∧ counter < chain.chainKey.index

/-- A skipped key of the message is held. -/
def HoldsSkipped (ratchet : Ratchet K) (ratchetKey : Curve25519PublicKey) (counter : ℕ) : Prop :=
  ∃ skipped ∈ ratchet.skippedMessageKeys.toList,
    skipped.ratchetKey = ratchetKey ∧ skipped.messageKey.index = counter

instance : Decidable (ratchet.HoldsSkipped ratchetKey counter) :=
  inferInstanceAs (Decidable (∃ skipped ∈ ratchet.skippedMessageKeys.toList, _))

/-- There is no chain for the message and none can be made. -/
def IsUnacknowledged (ratchet : Ratchet K) (ratchetKey : Curve25519PublicKey) : Prop :=
  ratchet.receiverChainOf ratchetKey = none ∧ ratchet.senderChain.toList = []

/-- **An error that tells why**: four codes, each for its own reason. -/
structure TellsWhy (ratchet : Ratchet K) (ratchetKey : Curve25519PublicKey) (counter : ℕ)
    (code : OlmErrorCode) : Prop where
  alreadyDecrypted : code = .ALREADY_DECRYPTED_OR_KEYS_SKIPPED ↔
    ratchet.IsBehind ratchetKey counter ∧ ¬ ratchet.HoldsSkipped ratchetKey counter
  notAcknowledged : code = .SENDER_CHAIN_NOT_ACKNOWLEDGED ↔ ratchet.IsUnacknowledged ratchetKey
  gap : code = .MAX_MESSAGE_GAP_EXCEEDED ↔
    ¬ (ratchet.IsBehind ratchetKey counter ∧ ¬ ratchet.HoldsSkipped ratchetKey counter) ∧
    ¬ ratchet.IsUnacknowledged ratchetKey ∧
    ratchet.chainIndexOf ratchetKey + MAX_MESSAGE_GAP < counter
  mac : code = .BAD_MESSAGE_MAC ↔
    ¬ (ratchet.IsBehind ratchetKey counter ∧ ¬ ratchet.HoldsSkipped ratchetKey counter) ∧
    ¬ ratchet.IsUnacknowledged ratchetKey ∧
    ¬ ratchet.chainIndexOf ratchetKey + MAX_MESSAGE_GAP < counter

/-! ## The code of each exit -/

/-- The code that `decrypt` gives when it fails. -/
def decryptError (ratchet : Ratchet K) (ratchetKey : Curve25519PublicKey) (counter : ℕ) :
    OlmErrorCode :=
  match ratchet.receiverChainOf ratchetKey with
  | none =>
    if ratchet.senderChain.toList = [] then .SENDER_CHAIN_NOT_ACKNOWLEDGED
    else if MAX_MESSAGE_GAP < counter then .MAX_MESSAGE_GAP_EXCEEDED
    else .BAD_MESSAGE_MAC
  | some chain =>
    if counter < chain.chainKey.index then .ALREADY_DECRYPTED_OR_KEYS_SKIPPED
    else if chain.chainKey.index + MAX_MESSAGE_GAP < counter then .MAX_MESSAGE_GAP_EXCEEDED
    else .BAD_MESSAGE_MAC

section Exits

variable {buf : Bytes} {reader : MessageReader} {maxPlaintextLength : ℕ}

theorem lastError_of_fail {α : Type} {code : OlmErrorCode} {result : Option α}
    (h : ratchet.fail code = .ok (ratchet', result)) : ratchet'.lastError = code := by
  rw [(eq_of_fail h).1]

/-- The chain that `decryptReader` finds is the chain of the message. -/
theorem receiverChainOf_eq :
    ratchet.receiverChainOf ratchetKey =
      (ratchet.receiverChains.toList.findFinIdx?
        (fun chain => chain.ratchetKey = ratchetKey)).map ratchet.receiverChains.toList.get :=
  List.find?_eq_map_findFinIdx? _ _

/-- The code on a chain that is not past the message. -/
theorem code_of_existing_none {chain : ChainKey K} {lastError code : OlmErrorCode}
    (hle : ¬ reader.counter.value < chain.index)
    (h : verifyMacAndDecryptForExistingChain config chain buf reader maxPlaintextLength lastError =
      .ok (code, none)) :
    code = if chain.index + MAX_MESSAGE_GAP < reader.counter.value then .MAX_MESSAGE_GAP_EXCEEDED
      else lastError := by
  by_cases hgap : chain.index + MAX_MESSAGE_GAP < reader.counter.value
  · rw [verifyMacAndDecryptForExistingChain_of_gap hgap] at h
    simp only [Except.ok.injEq, Prod.mk.injEq, and_true] at h
    rw [if_pos hgap, h]
  · rw [verifyMacAndDecryptForExistingChain_of_le (Nat.le_of_not_lt hle)
      (Nat.le_of_not_lt hgap)] at h
    obtain ⟨result, -, h⟩ := Checked.bind_eq_ok.mp h
    simp only [Except.ok.injEq, Prod.mk.injEq] at h
    rw [if_neg hgap, h.1]

/-- The code on a chain to be made. -/
theorem code_of_new_none {code : OlmErrorCode}
    (h : verifyMacAndDecryptForNewChain config ratchet buf reader maxPlaintextLength =
      .ok (code, none)) :
    code = if ratchet.senderChain.toList = [] then .SENDER_CHAIN_NOT_ACKNOWLEDGED
      else if MAX_MESSAGE_GAP < reader.counter.value then .MAX_MESSAGE_GAP_EXCEEDED
      else ratchet.lastError := by
  unfold verifyMacAndDecryptForNewChain at h
  split at h
  · rename_i hsender
    simp only [Except.ok.injEq, Prod.mk.injEq, and_true] at h
    rw [if_pos hsender, h]
  · rename_i senderChain rest hsender
    rw [if_neg (by rw [hsender]; exact List.cons_ne_nil _ _)]
    split at h
    · rename_i hgap
      simp only [Except.ok.injEq, Prod.mk.injEq, and_true] at h
      rw [if_pos hgap, h]
    · rename_i hgap
      simp only [Checked.bind_eq_ok] at h
      obtain ⟨pos, -, ratchetKey, -, h⟩ := h
      rw [code_of_existing_none (Nat.not_lt_zero _) h, createChainKey_index, chainKeyAt_index,
        Nat.zero_add]

/-- **The code of a failed `decryptReader`**, out of sequence and with no
error from before. -/
theorem lastError_of_decryptReader_none (hnoError : ratchet.lastError = .SUCCESS)
    (h : ratchet.decryptReader config buf reader ratchetKey maxPlaintextLength false =
      .ok (ratchet', none)) :
    ratchet'.lastError = ratchet.decryptError ratchetKey reader.counter.value := by
  rw [decryptReader] at h
  unfold decryptError
  rw [receiverChainOf_eq]
  split at h
  -- no receiver chain has the ratchet key
  case h_1 hfind =>
    obtain ⟨⟨code, result⟩, hverify, h⟩ := Checked.bind_eq_ok.mp h
    have hresult : result = none := by
      cases result with
      | none => rfl
      | some plaintext =>
        cases hsender : ratchet.senderChain.toList with
        | nil => exact absurd hsender (senderChain_ne_nil_of_newChain hverify)
        | cons senderChain rest => simp [hsender] at h
    subst hresult
    rw [hfind, Option.map_none, lastError_of_fail h, code_of_new_none hverify, hnoError]
    dsimp only
    split_ifs <;> rfl
  -- a receiver chain has it
  case h_2 place hfind =>
    have hget : ratchet.receiverChains.toList.get place = ratchet.receiverChains.toList[place] := rfl
    rw [hfind, Option.map_some, hget]
    generalize ratchet.receiverChains.toList[place] = chain at h ⊢
    simp only [Bool.false_and, Bool.false_eq_true, if_false, gt_iff_lt] at h ⊢
    split at h
    case isTrue hbehind =>
      obtain ⟨tried, -, h⟩ := Checked.bind_eq_ok.mp h
      cases tried with
      | some found => simp at h
      | none => exact (lastError_of_fail h).trans (if_pos hbehind).symm
    case isFalse hahead =>
      obtain ⟨⟨code, result⟩, hverify, h⟩ := Checked.bind_eq_ok.mp h
      cases result with
      | some plaintext => simp at h
      | none =>
        rw [lastError_of_fail h, code_of_existing_none hahead hverify, hnoError, if_neg hahead]
        split_ifs <;> rfl

end Exits

/-- **When the code tells why**: unless the message is behind its chain and
one of the skipped keys is its own. -/
theorem tellsWhy_decryptError_iff :
    TellsWhy ratchet ratchetKey counter (ratchet.decryptError ratchetKey counter) ↔
      ¬ (ratchet.IsBehind ratchetKey counter ∧ ratchet.HoldsSkipped ratchetKey counter) := by
  constructor
  · rintro htells ⟨⟨chain, hchain, hbehind⟩, hholds⟩
    have hcode : ratchet.decryptError ratchetKey counter = .ALREADY_DECRYPTED_OR_KEYS_SKIPPED := by
      simp only [decryptError, hchain, if_pos hbehind]
    exact (htells.alreadyDecrypted.mp hcode).2 hholds
  · intro hnot
    cases hchain : ratchet.receiverChainOf ratchetKey with
    | none =>
      have hbehind : ¬ ratchet.IsBehind ratchetKey counter := by
        simp [IsBehind, hchain]
      have hunacknowledged : ratchet.IsUnacknowledged ratchetKey ↔
          ratchet.senderChain.toList = [] := by
        simp [IsUnacknowledged, hchain]
      have hindex : ratchet.chainIndexOf ratchetKey = 0 := by
        simp [chainIndexOf, hchain]
      constructor <;> simp only [decryptError, hchain, hbehind, hunacknowledged, hindex] <;>
        split_ifs <;> simp_all
    | some chain =>
      have hbehind : ratchet.IsBehind ratchetKey counter ↔ counter < chain.chainKey.index := by
        simp [IsBehind, hchain]
      have hunacknowledged : ¬ ratchet.IsUnacknowledged ratchetKey := by
        simp [IsUnacknowledged, hchain]
      have hindex : ratchet.chainIndexOf ratchetKey = chain.chainKey.index := by
        simp [chainIndexOf, hchain]
      rw [hbehind] at hnot
      constructor <;> simp only [decryptError, hchain, hbehind, hunacknowledged, hindex] <;>
        split_ifs <;> simp_all

end Ratchet

/-! ## Sessions -/

namespace Session

variable (prims : Primitives K)

/-- A well-formed message of version 3, as `decrypt` reads it, in a buffer
on its own or within a pre-key message. -/
structure ReadsMessage (messageType : MessageType) (message : Bytes) (reader : MessageReader)
    (ratchetKey : Curve25519PublicKey) : Prop where
  decoded : ∃ body bodyLength, messageBody messageType message = .ok (some (body, bodyLength)) ∧
    decodeMessage message body bodyLength prims.cipher.macLength = .ok reader
  version : reader.version = PROTOCOL_VERSION
  counter : reader.counter.hasValue = true
  ciphertext : reader.ciphertext.value.isSome = true
  ratchetKey_length : reader.ratchetKey.length = CURVE25519_KEY_LENGTH
  ratchetKey_read : loadKey message reader.ratchetKey = .ok ratchetKey

variable {prims} {session session' : Session K} {messageType : MessageType} {message : Bytes}
  {reader : MessageReader} {ratchetKey : Curve25519PublicKey} {maxPlaintextLength : ℕ}

/-- On such a message, with room for its plain text, all checks of the
fields pass. -/
theorem ReadsMessage.decrypt_eq (h : ReadsMessage prims messageType message reader ratchetKey)
    (hroom : prims.cipher.decryptMaxPlaintextLength reader.ciphertext.length ≤ maxPlaintextLength)
    (isSequential : Bool) :
    session.decrypt prims messageType message maxPlaintextLength isSequential = (do
      let (ratchet, result) ← session.ratchet.decryptReader prims.ratchetConfig message reader
        ratchetKey maxPlaintextLength isSequential
      match result with
      | none => session.failRatchet ratchet
      | some plaintext =>
        .ok ({ session with ratchet := ratchet, receivedMessage := true }, some plaintext)) := by
  obtain ⟨body, bodyLength, hbody, hdecoded⟩ := h.decoded
  obtain ⟨pos, hpos, hload⟩ := Checked.bind_eq_ok.mp h.ratchetKey_read
  have hvalue : reader.ratchetKey.value.isNone = false := by
    cases hvalue : reader.ratchetKey.value with
    | none => simp [hvalue, nonNull] at hpos
    | some pos => rfl
  have hciphertext : reader.ciphertext.value.isNone = false := by simpa using h.ciphertext
  have hratchet : session.ratchet.decrypt prims.ratchetConfig message body bodyLength
      maxPlaintextLength isSequential = session.ratchet.decryptReader prims.ratchetConfig message
        reader ratchetKey maxPlaintextLength isSequential := by
    have hdecode : decodeMessage message body bodyLength
        prims.ratchetConfig.ratchetCipher.macLength = .ok reader := hdecoded
    have hlength : ¬ maxPlaintextLength <
        prims.ratchetConfig.ratchetCipher.decryptMaxPlaintextLength reader.ciphertext.length :=
      Nat.not_lt.mpr hroom
    simp only [Ratchet.decrypt, hdecode, Checked.ok_bind, h.version, ne_eq, not_true_eq_false,
      if_false, h.counter, Bool.not_true, hvalue, hciphertext, Bool.or_false, Bool.false_eq_true,
      hlength, h.ratchetKey_length, hpos, hload]
  rw [decrypt, hbody, Checked.ok_bind]
  exact congrArg (fun outcome => outcome >>= _) hratchet

/-- **The code of a failed `decrypt`** of a well-formed message. -/
theorem ReadsMessage.lastError_of_none (h : ReadsMessage prims messageType message reader ratchetKey)
    (hnoError : session.ratchet.lastError = .SUCCESS)
    (hroom : prims.cipher.decryptMaxPlaintextLength reader.ciphertext.length ≤ maxPlaintextLength)
    (hrun : session.decrypt prims messageType message maxPlaintextLength false =
      .ok (session', none)) :
    session'.lastError = session.ratchet.decryptError ratchetKey reader.counter.value := by
  rw [h.decrypt_eq hroom] at hrun
  obtain ⟨⟨ratchet, result⟩, hratchet, hrun⟩ := Checked.bind_eq_ok.mp hrun
  cases result with
  | some plaintext => simp at hrun
  | none =>
    rw [(eq_of_failRatchet hrun).1, ← Ratchet.lastError_of_decryptReader_none hnoError hratchet]

/-- **When the error tells why a message was refused.** In any session that
can be come by, on any well-formed message: unless the message is behind its
chain and its key is held, where the error says that it is not. -/
theorem tellsWhy_iff {zeroKey : K} (hreachable : Reachable prims zeroKey session)
    (hmessage : ReadsMessage prims messageType message reader ratchetKey)
    (hroom : prims.cipher.decryptMaxPlaintextLength reader.ciphertext.length ≤ maxPlaintextLength)
    (hrun : session.decrypt prims messageType message maxPlaintextLength false =
      .ok (session', none)) :
    session.ratchet.TellsWhy ratchetKey reader.counter.value session'.lastError ↔
      ¬ (session.ratchet.IsBehind ratchetKey reader.counter.value ∧
        session.ratchet.HoldsSkipped ratchetKey reader.counter.value) := by
  rw [hmessage.lastError_of_none hreachable.settled.noError hroom hrun]
  exact Ratchet.tellsWhy_decryptError_iff

/-! ### A spoiled copy of a missing message -/

/-- A session on a message of an account that has sent nothing yet. -/
def settingUp : Session SymbolicKey :=
  match (Session.new SymbolicKey.zero).newInboundSession .symbolic Account.sevens none
      zeroPreKeyMessage with
  | .ok (session, _) => session
  | .error _ => Session.new .zero

/-- The same, once it has got the second message of its chain and not the
first. -/
def waiting : Session SymbolicKey :=
  match settingUp.decrypt .symbolic .MESSAGE (paddingMessage 1 0) 16 false with
  | .ok (session, _) => session
  | .error _ => Session.new .zero

theorem reachable_waiting : Reachable .symbolic SymbolicKey.zero waiting :=
  have hset : (Session.new SymbolicKey.zero).newInboundSession .symbolic Account.sevens none
      zeroPreKeyMessage = .ok (settingUp, some ()) := by decide +kernel
  have hdecrypt : settingUp.decrypt .symbolic .MESSAGE (paddingMessage 1 0) 16 false =
      .ok (waiting, some []) := by decide +kernel
  .decrypt (.newInboundSession .new hset) hdecrypt

/-- What is read in the first message of the chain, whatever its code. -/
def paddingReader : MessageReader := Ratchet.readerOf 0 39 24 0 16

theorem readsMessage_paddingMessage :
    ReadsMessage .symbolic .MESSAGE (paddingMessage 0 1) paddingReader (FixedBytes.zero _) where
  decoded := ⟨0, 63, rfl, by decide +kernel⟩
  version := rfl
  counter := rfl
  ciphertext := rfl
  ratchetKey_length := rfl
  ratchetKey_read := by decide +kernel

theorem decrypt_waiting : waiting.decrypt .symbolic .MESSAGE (paddingMessage 0 1) 16 false =
    .ok ({ waiting with lastError := .ALREADY_DECRYPTED_OR_KEYS_SKIPPED }, none) := by
  decide +kernel

/-- The first message of the chain, spoiled, is said to have been decrypted;
unspoiled it is decrypted after that. -/
theorem not_tellsWhy : ∃ session' session'',
    Reachable .symbolic SymbolicKey.zero waiting ∧
    ReadsMessage .symbolic .MESSAGE (paddingMessage 0 1) paddingReader (FixedBytes.zero _) ∧
    waiting.decrypt .symbolic .MESSAGE (paddingMessage 0 1) 16 false = .ok (session', none) ∧
    session'.lastError = .ALREADY_DECRYPTED_OR_KEYS_SKIPPED ∧
    ¬ waiting.ratchet.TellsWhy (FixedBytes.zero _) paddingReader.counter.value
      session'.lastError ∧
    session'.decrypt .symbolic .MESSAGE (paddingMessage 0 0) 16 false =
      .ok (session'', some []) := by
  have hagain : ({ waiting with lastError := .ALREADY_DECRYPTED_OR_KEYS_SKIPPED } :
      Session SymbolicKey).decrypt .symbolic .MESSAGE (paddingMessage 0 0) 16 false =
      .ok ({ waiting with
        lastError := .ALREADY_DECRYPTED_OR_KEYS_SKIPPED
        ratchet := { waiting.ratchet with skippedMessageKeys := .empty } }, some []) := by
    decide +kernel
  refine ⟨_, _, reachable_waiting, readsMessage_paddingMessage, decrypt_waiting, rfl,
    fun htells => ?_, hagain⟩
  exact (htells.alreadyDecrypted.mp rfl).2 (by decide +kernel)

/-- The condition on that message, which is behind with its key held. -/
theorem tellsWhy_iff_waiting :
    (waiting.ratchet.TellsWhy (FixedBytes.zero _) paddingReader.counter.value
      .ALREADY_DECRYPTED_OR_KEYS_SKIPPED ↔
      ¬ (waiting.ratchet.IsBehind (FixedBytes.zero _) paddingReader.counter.value ∧
        waiting.ratchet.HoldsSkipped (FixedBytes.zero _) paddingReader.counter.value)) :=
  tellsWhy_iff reachable_waiting readsMessage_paddingMessage (by decide +kernel) decrypt_waiting

/-! ### Nothing else changes -/

/-- **A failed `decrypt` leaves the session as it was**, whatever the bytes:
the root key, the chains, the skipped keys, `received_message` and the keys
of the set-up. -/
theorem eq_of_decrypt_none {K : Type} (prims : Primitives K) {session session' : Session K}
    {messageType : MessageType} {message : Bytes} {maxPlaintextLength : ℕ} {isSequential : Bool}
    (h : session.decrypt prims messageType message maxPlaintextLength isSequential =
      .ok (session', none)) :
    session' = { session with
      lastError := session'.lastError
      ratchet := { session.ratchet with lastError := session'.ratchet.lastError } } := by
  rcases decrypt_outcome h with ⟨-, -, rfl⟩ | ⟨body, bodyLength, ratchet, -, hratchet, hnone, -⟩
  · rfl
  · rw [hnone rfl, Ratchet.unchanged_of_decrypt_none hratchet]

/-- A message ahead of the chain, spoiled, is tried under a key derived for it, and
the chain and the key of the first message stay. -/
theorem eq_of_decrypt_none_waiting :
    waiting.ratchet.skippedMessageKeys.toList.map (·.messageKey.index) = [0] ∧
    waiting.ratchet.receiverChains.toList.map (·.chainKey.index) = [2] ∧
    ∃ session', waiting.decrypt .symbolic .MESSAGE (paddingMessage 5 1) 16 false =
        .ok (session', none) ∧
      session'.lastError = .BAD_MESSAGE_MAC ∧
      session' = { waiting with
        lastError := session'.lastError
        ratchet := { waiting.ratchet with lastError := session'.ratchet.lastError } } := by
  have hdecrypt : waiting.decrypt .symbolic .MESSAGE (paddingMessage 5 1) 16 false =
      .ok ({ waiting with lastError := .BAD_MESSAGE_MAC }, none) := by decide +kernel
  exact ⟨by decide +kernel, by decide +kernel, _, hdecrypt, rfl, eq_of_decrypt_none .symbolic hdecrypt⟩

end Session

end Olm
