import Mathlib.Data.List.Nodup
import Olm.Message.Bounds
import Olm.Message.RoundTrip
import Olm.Ratchet.Model

/-!
# What the ratchet functions do

One lemma for each function of the ratchet, which the results about runs
are derived from. A chain is described by the key it starts from
(`chainKeyAt`, `messageKeyAt`), as long as its index has not wrapped
around.

`decrypt` is described by `Outcome`, with a constructor for each exit, and
by `decryptReader_outcome`: it takes one of them. Those with an error
change nothing but `last_error`.
-/

namespace Olm

variable {K : Type} (config : RatchetConfig K)

/-! ## Chains -/

/-- The chain key at `index`, of the chain that starts at `start`. -/
def chainKeyAt (start : K) (index : ℕ) : ChainKey K where
  index := index
  key := (fun key => config.kdf.hmacSha256 key CHAIN_KEY_SEED)^[index] start

/-- The message key at `index`, of the chain that starts at `start`. -/
def messageKeyAt (start : K) (index : ℕ) : K :=
  config.kdf.hmacSha256 (chainKeyAt config start index).key MESSAGE_KEY_SEED

@[simp] theorem chainKeyAt_index (start : K) (index : ℕ) :
    (chainKeyAt config start index).index = index := rfl

theorem createMessageKeys_chainKeyAt (start : K) (index : ℕ) :
    createMessageKeys config (chainKeyAt config start index) =
      { index := index, key := messageKeyAt config start index } := rfl

theorem advanceChainKey_chainKeyAt (start : K) {index : ℕ} (h : index + 1 < 2 ^ 32) :
    advanceChainKey config (chainKeyAt config start index) = chainKeyAt config start (index + 1) := by
  rw [advanceChainKey, chainKeyAt, chainKeyAt, Nat.mod_eq_of_lt h, Function.iterate_succ_apply']

theorem createChainKey_index (rootKey : K) (ourKey : Curve25519KeyPair)
    (theirKey : Curve25519PublicKey) :
    (createChainKey config rootKey ourKey theirKey).2 =
      chainKeyAt config (createChainKey config rootKey ourKey theirKey).2.key 0 := rfl

theorem advanceChainKeyTo_chainKeyAt (start : K) {index counter : ℕ} (hle : index ≤ counter)
    (h : counter < 2 ^ 32) :
    advanceChainKeyTo config counter (counter - index) (chainKeyAt config start index) =
      chainKeyAt config start counter := by
  obtain ⟨rounds, rfl⟩ := Nat.exists_eq_add_of_le hle
  rw [Nat.add_sub_cancel_left]
  induction rounds generalizing index with
  | zero => rfl
  | succ rounds ih =>
    rw [advanceChainKeyTo, if_pos (by rw [chainKeyAt_index]; omega),
      advanceChainKey_chainKeyAt config start (by omega), ← Nat.add_assoc, Nat.add_right_comm]
    exact ih (by omega) (by omega)

/-- The keys of the messages from `index` up to `counter`, the last one
first. -/
def skippedKeysOf (ratchetKey : Curve25519PublicKey) (start : K) (index counter : ℕ) :
    List (SkippedMessageKey K) :=
  ((List.range' index (counter - index)).map (fun i =>
    { ratchetKey := ratchetKey, messageKey := { index := i, key := messageKeyAt config start i } })
    ).reverse

theorem skippedKeysOf_self (ratchetKey : Curve25519PublicKey) (start : K) (index : ℕ) :
    skippedKeysOf config ratchetKey start index index = [] := by
  rw [skippedKeysOf, Nat.sub_self]
  rfl

theorem mem_skippedKeysOf {ratchetKey : Curve25519PublicKey} {start : K} {index counter : ℕ}
    {skipped : SkippedMessageKey K} :
    skipped ∈ skippedKeysOf config ratchetKey start index counter ↔
      ∃ i, index ≤ i ∧ i < counter ∧ skipped =
        { ratchetKey := ratchetKey
          messageKey := { index := i, key := messageKeyAt config start i } } := by
  simp only [skippedKeysOf, List.mem_reverse, List.mem_map, List.mem_range'_1]
  constructor
  · rintro ⟨i, ⟨hle, hlt⟩, rfl⟩
    exact ⟨i, hle, by omega, rfl⟩
  · rintro ⟨i, hle, hlt, rfl⟩
    exact ⟨i, ⟨hle, by omega⟩, rfl⟩

/-- What tells the skipped keys apart. -/
def SkippedMessageKey.name (skipped : SkippedMessageKey K) : Curve25519PublicKey × ℕ :=
  (skipped.ratchetKey, skipped.messageKey.index)

theorem nodup_skippedKeysOf (ratchetKey : Curve25519PublicKey) (start : K) (index counter : ℕ) :
    ((skippedKeysOf config ratchetKey start index counter).map SkippedMessageKey.name).Nodup := by
  rw [skippedKeysOf, List.map_reverse, List.nodup_reverse, List.map_map]
  have hinjective : Function.Injective (SkippedMessageKey.name ∘ fun i => SkippedMessageKey.mk
      ratchetKey { index := i, key := messageKeyAt config start i }) := by
    intro i j h
    exact (Prod.mk.inj h).2
  exact List.Nodup.map hinjective List.nodup_range'

namespace Ratchet

theorem storeSkippedMessageKeys_chainKeyAt (ratchetKey : Curve25519PublicKey) (start : K)
    {index counter : ℕ} (hle : index ≤ counter) (h : counter < 2 ^ 32)
    (skipped : BoundedList (SkippedMessageKey K) MAX_SKIPPED_MESSAGE_KEYS) :
    ∃ skipped' : BoundedList (SkippedMessageKey K) MAX_SKIPPED_MESSAGE_KEYS,
      storeSkippedMessageKeys config ratchetKey counter (counter - index)
        (chainKeyAt config start index) skipped = (chainKeyAt config start counter, skipped') ∧
      skipped'.toList = (skippedKeysOf config ratchetKey start index counter ++
        skipped.toList).take MAX_SKIPPED_MESSAGE_KEYS := by
  obtain ⟨rounds, rfl⟩ := Nat.exists_eq_add_of_le hle
  rw [Nat.add_sub_cancel_left]
  induction rounds generalizing index skipped with
  | zero =>
    refine ⟨skipped, rfl, ?_⟩
    rw [Nat.add_zero, skippedKeysOf_self, List.nil_append, List.take_of_length_le skipped.length_le]
  | succ rounds ih =>
    have hsum : index + (rounds + 1) = index + 1 + rounds := by omega
    rw [hsum] at h ⊢
    obtain ⟨skipped', hstore, hlist⟩ := ih (skipped.push
      { ratchetKey := ratchetKey
        messageKey := createMessageKeys config (chainKeyAt config start index) }) (by omega) h
    refine ⟨skipped', ?_, ?_⟩
    · rw [storeSkippedMessageKeys, if_pos (by rw [chainKeyAt_index]; omega),
        advanceChainKey_chainKeyAt config start (by omega), hstore]
    · have hkeys : skippedKeysOf config ratchetKey start index (index + 1 + rounds) =
          skippedKeysOf config ratchetKey start (index + 1) (index + 1 + rounds) ++
            [{ ratchetKey := ratchetKey
               messageKey := createMessageKeys config (chainKeyAt config start index) }] := by
        rw [skippedKeysOf, skippedKeysOf,
          (show index + 1 + rounds - index = (index + 1 + rounds - (index + 1)) + 1 by omega),
          List.range'_succ, List.map_cons, List.reverse_cons]
        rfl
      -- the keys that fall off the end are the same whenever they fall off
      rw [hlist, hkeys, BoundedList.toList_push, List.append_assoc, List.singleton_append,
        List.take_append, List.take_append, List.take_take]
      congr 2
      omega

/-- `advance_receiver_chain` past a message that is not behind the chain. -/
theorem advanceReceiverChain_chainKeyAt (ratchet : Ratchet K) (place : ℕ)
    (ratchetKey : Curve25519PublicKey) (start : K) {index counter : ℕ} (hle : index ≤ counter)
    (h : counter + 1 < 2 ^ 32) :
    ∃ skipped' : BoundedList (SkippedMessageKey K) MAX_SKIPPED_MESSAGE_KEYS,
      ratchet.advanceReceiverChain config place
        { ratchetKey := ratchetKey, chainKey := chainKeyAt config start index } counter =
        { ratchet with
          receiverChains := ratchet.receiverChains.set place
            { ratchetKey := ratchetKey, chainKey := chainKeyAt config start (counter + 1) }
          skippedMessageKeys := skipped' } ∧
      skipped'.toList = (skippedKeysOf config ratchetKey start index counter ++
        ratchet.skippedMessageKeys.toList).take MAX_SKIPPED_MESSAGE_KEYS := by
  obtain ⟨skipped', hstore, hlist⟩ := storeSkippedMessageKeys_chainKeyAt config ratchetKey start hle
    (show counter < 2 ^ 32 by omega) ratchet.skippedMessageKeys
  refine ⟨skipped', ?_, hlist⟩
  simp only [advanceReceiverChain, chainKeyAt_index, hstore, advanceChainKey_chainKeyAt config start h]

/-! ## Decrypting -/

/-- The key of the message `counter` on a chain that is not past it. -/
def keysAhead (chainKey : ChainKey K) (counter : ℕ) : MessageKey K :=
  createMessageKeys config (advanceChainKeyTo config counter (counter - chainKey.index) chainKey)

/-- What `decryptReader` can do with a message: one constructor for each of
its exits. -/
inductive Outcome (ratchet : Ratchet K) (buf : Bytes) (reader : MessageReader)
    (ratchetKey : Curve25519PublicKey) (maxPlaintextLength : ℕ) (isSequential : Bool) :
    Ratchet K → Option Bytes → Prop
  | notAcknowledged
      (hnew : ∀ chain ∈ ratchet.receiverChains.toList, chain.ratchetKey ≠ ratchetKey)
      (hsender : ratchet.senderChain.toList = []) :
      Outcome ratchet buf reader ratchetKey maxPlaintextLength isSequential
        { ratchet with lastError := .SENDER_CHAIN_NOT_ACKNOWLEDGED } none
  | newChainGap
      (hnew : ∀ chain ∈ ratchet.receiverChains.toList, chain.ratchetKey ≠ ratchetKey)
      (hgap : MAX_MESSAGE_GAP < reader.counter.value) :
      Outcome ratchet buf reader ratchetKey maxPlaintextLength isSequential
        { ratchet with lastError := .MAX_MESSAGE_GAP_EXCEEDED } none
  | newChainMac
      (hnew : ∀ chain ∈ ratchet.receiverChains.toList, chain.ratchetKey ≠ ratchetKey) :
      Outcome ratchet buf reader ratchetKey maxPlaintextLength isSequential
        { ratchet with lastError := errorOf ratchet.lastError } none
  | newChain (senderChain : SenderChain K) (rest : List (SenderChain K)) (plaintext : Bytes)
      (hnew : ∀ chain ∈ ratchet.receiverChains.toList, chain.ratchetKey ≠ ratchetKey)
      (hsender : ratchet.senderChain.toList = senderChain :: rest)
      (hgap : reader.counter.value ≤ MAX_MESSAGE_GAP)
      (hverify : verifyMacAndDecrypt config (keysAhead config
        (createChainKey config ratchet.rootKey senderChain.ratchetKey ratchetKey).2
        reader.counter.value) buf reader maxPlaintextLength = .ok (some plaintext)) :
      Outcome ratchet buf reader ratchetKey maxPlaintextLength isSequential
        ((ratchet.startReceiverChain config senderChain ratchetKey).1.advanceReceiverChain config 0
          (ratchet.startReceiverChain config senderChain ratchetKey).2 reader.counter.value)
        (some plaintext)
  | outOfOrder (place : ℕ) (chain : ReceiverChain K)
      (hplace : ratchet.receiverChains.toList[place]? = some chain)
      (hkey : chain.ratchetKey = ratchetKey) (hsequential : isSequential = true)
      (hahead : chain.chainKey.index < reader.counter.value) :
      Outcome ratchet buf reader ratchetKey maxPlaintextLength isSequential
        { ratchet with lastError := .MESSAGE_OUT_OF_ORDER } none
  | alreadyDecrypted (place : ℕ) (chain : ReceiverChain K)
      (hplace : ratchet.receiverChains.toList[place]? = some chain)
      (hkey : chain.ratchetKey = ratchetKey) (hbehind : reader.counter.value < chain.chainKey.index)
      (hskipped : trySkippedMessageKeys config ratchetKey buf reader maxPlaintextLength
        ratchet.skippedMessageKeys.toList 0 = .ok none) :
      Outcome ratchet buf reader ratchetKey maxPlaintextLength isSequential
        { ratchet with lastError := .ALREADY_DECRYPTED_OR_KEYS_SKIPPED } none
  | skipped (place : ℕ) (chain : ReceiverChain K) (keyPlace : ℕ) (plaintext : Bytes)
      (hplace : ratchet.receiverChains.toList[place]? = some chain)
      (hkey : chain.ratchetKey = ratchetKey) (hbehind : reader.counter.value < chain.chainKey.index)
      (hskipped : trySkippedMessageKeys config ratchetKey buf reader maxPlaintextLength
        ratchet.skippedMessageKeys.toList 0 = .ok (some (keyPlace, plaintext))) :
      Outcome ratchet buf reader ratchetKey maxPlaintextLength isSequential
        { ratchet with skippedMessageKeys := ratchet.skippedMessageKeys.eraseIdx keyPlace }
        (some plaintext)
  | existingGap (place : ℕ) (chain : ReceiverChain K)
      (hplace : ratchet.receiverChains.toList[place]? = some chain)
      (hkey : chain.ratchetKey = ratchetKey)
      (hsequential : isSequential = true → reader.counter.value ≤ chain.chainKey.index)
      (hgap : chain.chainKey.index + MAX_MESSAGE_GAP < reader.counter.value) :
      Outcome ratchet buf reader ratchetKey maxPlaintextLength isSequential
        { ratchet with lastError := .MAX_MESSAGE_GAP_EXCEEDED } none
  | existingMac (place : ℕ) (chain : ReceiverChain K)
      (hplace : ratchet.receiverChains.toList[place]? = some chain)
      (hkey : chain.ratchetKey = ratchetKey)
      (hsequential : isSequential = true → reader.counter.value ≤ chain.chainKey.index)
      (hahead : chain.chainKey.index ≤ reader.counter.value) :
      Outcome ratchet buf reader ratchetKey maxPlaintextLength isSequential
        { ratchet with lastError := errorOf ratchet.lastError } none
  | existing (place : ℕ) (chain : ReceiverChain K) (plaintext : Bytes)
      (hplace : ratchet.receiverChains.toList[place]? = some chain)
      (hkey : chain.ratchetKey = ratchetKey)
      (hsequential : isSequential = true → reader.counter.value ≤ chain.chainKey.index)
      (hahead : chain.chainKey.index ≤ reader.counter.value)
      (hgap : reader.counter.value ≤ chain.chainKey.index + MAX_MESSAGE_GAP)
      (hverify : verifyMacAndDecrypt config (keysAhead config chain.chainKey reader.counter.value)
        buf reader maxPlaintextLength = .ok (some plaintext)) :
      Outcome ratchet buf reader ratchetKey maxPlaintextLength isSequential
        (ratchet.advanceReceiverChain config place chain reader.counter.value) (some plaintext)

section Decrypt

variable {config} {ratchet ratchet' : Ratchet K} {buf : Bytes} {reader : MessageReader}
variable {ratchetKey : Curve25519PublicKey} {maxPlaintextLength : ℕ} {isSequential : Bool}
variable {result : Option Bytes}

theorem verifyMacAndDecryptForExistingChain_of_le {chain : ChainKey K} {lastError : OlmErrorCode}
    (hle : chain.index ≤ reader.counter.value)
    (hgap : reader.counter.value ≤ chain.index + MAX_MESSAGE_GAP) :
    verifyMacAndDecryptForExistingChain config chain buf reader maxPlaintextLength lastError = (do
      let result ← verifyMacAndDecrypt config (keysAhead config chain reader.counter.value) buf
        reader maxPlaintextLength
      .ok (lastError, result)) := by
  rw [verifyMacAndDecryptForExistingChain, if_neg (by omega), if_neg (by omega)]
  rfl

theorem verifyMacAndDecryptForExistingChain_of_gap {chain : ChainKey K} {lastError : OlmErrorCode}
    (hgap : chain.index + MAX_MESSAGE_GAP < reader.counter.value) :
    verifyMacAndDecryptForExistingChain config chain buf reader maxPlaintextLength lastError =
      .ok (.MAX_MESSAGE_GAP_EXCEEDED, none) := by
  rw [verifyMacAndDecryptForExistingChain, if_neg (by omega), if_pos (by omega)]

/-- **A message opens on a new chain only where there is a sender chain.** -/
theorem senderChain_ne_nil_of_newChain {lastError : OlmErrorCode} {plaintext : Bytes}
    (h : verifyMacAndDecryptForNewChain config ratchet buf reader maxPlaintextLength =
      .ok (lastError, some plaintext)) : ratchet.senderChain.toList ≠ [] := by
  intro hsender
  simp [verifyMacAndDecryptForNewChain, hsender] at h

/-- **The exits of `decryptReader`**, on the key that the reader points at. -/
theorem decryptReader_outcome
    (hload : (nonNull reader.ratchetKey.value >>= loadArray CURVE25519_KEY_LENGTH buf) =
      .ok ratchetKey)
    (h : ratchet.decryptReader config buf reader ratchetKey maxPlaintextLength isSequential =
      .ok (ratchet', result)) :
    Outcome config ratchet buf reader ratchetKey maxPlaintextLength isSequential ratchet' result := by
  rw [decryptReader] at h
  split at h
  -- no receiver chain has the ratchet key: the sender has a new one
  case h_1 hfind =>
    have hnew : ∀ chain ∈ ratchet.receiverChains.toList, chain.ratchetKey ≠ ratchetKey := by
      simpa [List.findFinIdx?_eq_none_iff] using hfind
    rw [verifyMacAndDecryptForNewChain] at h
    split at h
    case h_1 hsender =>
      simp only [Checked.ok_bind, fail, Except.ok.injEq, Prod.mk.injEq] at h
      obtain ⟨rfl, rfl⟩ := h
      exact .notAcknowledged hnew hsender
    case h_2 senderChain rest hsender =>
      by_cases hgap : reader.counter.value > MAX_MESSAGE_GAP
      · simp only [if_pos hgap, Checked.ok_bind, fail, Except.ok.injEq, Prod.mk.injEq] at h
        obtain ⟨rfl, rfl⟩ := h
        exact .newChainGap hnew hgap
      · obtain ⟨pos, hpos, hkey⟩ := Checked.bind_eq_ok.mp hload
        -- a new chain starts at 0, so the gap is the counter
        have hindex := createChainKey_index config ratchet.rootKey senderChain.ratchetKey ratchetKey
        simp only [if_neg hgap, hpos, hkey, Checked.ok_bind] at h
        rw [verifyMacAndDecryptForExistingChain_of_le (by rw [hindex]; exact Nat.zero_le _)
          (by rw [hindex, chainKeyAt_index]; omega)] at h
        simp only [Checked.bind_eq_ok] at h
        obtain ⟨_, ⟨verified, hverify, ⟨⟩⟩, h⟩ := h
        cases verified with
        | none =>
          obtain ⟨rfl, rfl⟩ := eq_of_fail h
          exact .newChainMac hnew
        | some plaintext =>
          simp only [Except.ok.injEq, Prod.mk.injEq] at h
          obtain ⟨rfl, rfl⟩ := h
          exact .newChain senderChain rest plaintext hnew hsender (by omega) hverify
  -- a receiver chain has it
  case h_2 place hfind =>
    have hkey : (ratchet.receiverChains.toList[place]).ratchetKey = ratchetKey := by
      simpa using (List.findFinIdx?_eq_some_iff.mp hfind).1
    have hplace : ratchet.receiverChains.toList[place.val]? =
        some ratchet.receiverChains.toList[place] := List.getElem?_eq_getElem place.isLt
    generalize ratchet.receiverChains.toList[place] = chain at h hkey hplace
    simp only [Bool.and_eq_true, decide_eq_true_eq] at h
    split at h
    case isTrue hseq =>
      obtain ⟨rfl, rfl⟩ := eq_of_fail h
      exact .outOfOrder place chain hplace hkey hseq.1 hseq.2
    case isFalse hseq =>
      have hsequential : isSequential = true → reader.counter.value ≤ chain.chainKey.index :=
        fun hs => Nat.le_of_not_lt fun hlt => hseq ⟨hs, hlt⟩
      split at h
      case isTrue hbehind =>
        obtain ⟨tried, htried, h⟩ := Checked.bind_eq_ok.mp h
        cases tried with
        | none =>
          obtain ⟨rfl, rfl⟩ := eq_of_fail h
          exact .alreadyDecrypted place chain hplace hkey hbehind htried
        | some found =>
          simp only [Except.ok.injEq, Prod.mk.injEq] at h
          obtain ⟨rfl, rfl⟩ := h
          exact .skipped place chain found.1 found.2 hplace hkey hbehind htried
      case isFalse hahead =>
        have hle : chain.chainKey.index ≤ reader.counter.value := Nat.le_of_not_lt hahead
        by_cases hgap : chain.chainKey.index + MAX_MESSAGE_GAP < reader.counter.value
        · rw [verifyMacAndDecryptForExistingChain_of_gap hgap] at h
          simp only [Checked.ok_bind, fail, Except.ok.injEq, Prod.mk.injEq] at h
          obtain ⟨rfl, rfl⟩ := h
          exact .existingGap place chain hplace hkey hsequential hgap
        · rw [verifyMacAndDecryptForExistingChain_of_le hle (Nat.le_of_not_lt hgap)] at h
          simp only [Checked.bind_eq_ok] at h
          obtain ⟨_, ⟨verified, hverify, ⟨⟩⟩, h⟩ := h
          cases verified with
          | none =>
            obtain ⟨rfl, rfl⟩ := eq_of_fail h
            exact .existingMac place chain hplace hkey hsequential hle
          | some plaintext =>
            simp only [Except.ok.injEq, Prod.mk.injEq] at h
            obtain ⟨rfl, rfl⟩ := h
            exact .existing place chain plaintext hplace hkey hsequential hle
              (Nat.le_of_not_lt hgap) hverify

/-- An exit with an error leaves all of the ratchet but `last_error`. -/
theorem Outcome.eq_of_none
    (h : Outcome config ratchet buf reader ratchetKey maxPlaintextLength isSequential ratchet' none) :
    ratchet' = { ratchet with lastError := ratchet'.lastError } := by
  cases h <;> rfl

/-- **The exits of `decrypt`**: an error that leaves the ratchet as it was,
or an exit of `decryptReader`. -/
theorem decrypt_outcome {input inputLength : ℕ}
    (h : ratchet.decrypt config buf input inputLength maxPlaintextLength isSequential =
      .ok (ratchet', result)) :
    (result = none ∧ ratchet' = { ratchet with lastError := ratchet'.lastError }) ∨
    ∃ reader ratchetKey,
      decodeMessage buf input inputLength config.ratchetCipher.macLength = .ok reader ∧
      (nonNull reader.ratchetKey.value >>= loadArray CURVE25519_KEY_LENGTH buf) = .ok ratchetKey ∧
      Outcome config ratchet buf reader ratchetKey maxPlaintextLength isSequential ratchet' result := by
  have hfail : ∀ code, ratchet.fail code = Except.ok (ratchet', result) →
      result = none ∧ ratchet' = { ratchet with lastError := ratchet'.lastError } := by
    intro code hcode
    obtain ⟨rfl, rfl⟩ := eq_of_fail hcode
    exact ⟨rfl, rfl⟩
  rw [decrypt] at h
  obtain ⟨reader, hreader, h⟩ := Checked.bind_eq_ok.mp h
  split at h
  · exact .inl (hfail _ h)
  · split at h
    · exact .inl (hfail _ h)
    · split at h
      · exact .inl (hfail _ h)
      · split at h
        · exact .inl (hfail _ h)
        · simp only [Checked.bind_eq_ok] at h
          obtain ⟨pos, hpos, ratchetKey, hkey, h⟩ := h
          have hload : (nonNull reader.ratchetKey.value >>= loadArray CURVE25519_KEY_LENGTH buf) =
              .ok ratchetKey := by rw [hpos, Checked.ok_bind, hkey]
          exact .inr ⟨reader, ratchetKey, hreader, hload, decryptReader_outcome hload h⟩

/-- **A failed `decrypt` changes nothing but `last_error`.** -/
theorem unchanged_of_decrypt_none {input inputLength : ℕ}
    (h : ratchet.decrypt config buf input inputLength maxPlaintextLength isSequential =
      .ok (ratchet', none)) :
    ratchet' = { ratchet with lastError := ratchet'.lastError } := by
  rcases decrypt_outcome h with ⟨-, heq⟩ | ⟨reader, ratchetKey, -, -, houtcome⟩
  · exact heq
  · exact houtcome.eq_of_none

end Decrypt

/-- A `decrypt` that succeeds leaves `last_error`. -/
theorem lastError_of_decrypt_some {config : RatchetConfig K} {ratchet ratchet' : Ratchet K}
    {buf plaintext : Bytes} {input inputLength maxPlaintextLength : ℕ} {isSequential : Bool}
    (h : ratchet.decrypt config buf input inputLength maxPlaintextLength isSequential =
      .ok (ratchet', some plaintext)) : ratchet'.lastError = ratchet.lastError := by
  rcases decrypt_outcome h with ⟨hnone, -⟩ | ⟨reader, ratchetKey, -, -, hout⟩
  · cases hnone
  cases hout with
  | newChain | skipped | existing => rfl

/-! ## Taking an exit

What leads to the exits that matter to a message of an honest sender. -/

section Exits

variable {config} {ratchet : Ratchet K} {buf : Bytes} {reader : MessageReader}
variable {ratchetKey : Curve25519PublicKey} {maxPlaintextLength : ℕ} {plaintext : Bytes}

/-- A receiver chain with the ratchet key is found. -/
theorem findReceiverChain_of_mem
    (hmem : ∃ chain ∈ ratchet.receiverChains.toList, chain.ratchetKey = ratchetKey) :
    ∃ place, ratchet.receiverChains.toList.findFinIdx? (fun chain => chain.ratchetKey = ratchetKey) =
        some place ∧
      ratchet.receiverChains.toList.get place ∈ ratchet.receiverChains.toList ∧
      (ratchet.receiverChains.toList.get place).ratchetKey = ratchetKey := by
  cases hfind : ratchet.receiverChains.toList.findFinIdx?
    (fun chain => chain.ratchetKey = ratchetKey) with
  | none =>
    obtain ⟨chain, hchain, hkey⟩ := hmem
    have hnone := List.findFinIdx?_eq_none_iff.mp hfind chain hchain
    simp [hkey] at hnone
  | some place =>
    have hkey := (List.findFinIdx?_eq_some_iff.mp hfind).1
    exact ⟨place, rfl, List.get_mem _ place, by simpa using hkey⟩

theorem findReceiverChain_of_not_mem
    (hnew : ∀ chain ∈ ratchet.receiverChains.toList, chain.ratchetKey ≠ ratchetKey) :
    ratchet.receiverChains.toList.findFinIdx? (fun chain => chain.ratchetKey = ratchetKey) =
      none := by
  rw [List.findFinIdx?_eq_none_iff]
  intro chain hchain
  simpa using hnew chain hchain

theorem keysAhead_chainKeyAt (start : K) {index counter : ℕ} (hle : index ≤ counter)
    (h : counter < 2 ^ 32) :
    keysAhead config (chainKeyAt config start index) counter =
      { index := counter, key := messageKeyAt config start counter } := by
  rw [keysAhead, chainKeyAt_index, advanceChainKeyTo_chainKeyAt config start hle h,
    createMessageKeys_chainKeyAt]

/-- A message on a chain that is new, under the key that the root key and
the sender chain give. -/
theorem decryptReader_newChain {senderChain : SenderChain K} {rest : List (SenderChain K)}
    {verified : Option Bytes} (isSequential : Bool)
    (hload : (nonNull reader.ratchetKey.value >>= loadArray CURVE25519_KEY_LENGTH buf) =
      .ok ratchetKey)
    (hnew : ∀ chain ∈ ratchet.receiverChains.toList, chain.ratchetKey ≠ ratchetKey)
    (hsender : ratchet.senderChain.toList = senderChain :: rest)
    (hgap : reader.counter.value ≤ MAX_MESSAGE_GAP)
    (hverify : verifyMacAndDecrypt config (keysAhead config
      (createChainKey config ratchet.rootKey senderChain.ratchetKey ratchetKey).2
      reader.counter.value) buf reader maxPlaintextLength = .ok verified) :
    ∃ ratchet', ratchet.decryptReader config buf reader ratchetKey maxPlaintextLength isSequential =
      .ok (ratchet', verified) := by
  obtain ⟨pos, hpos, hkey⟩ := Checked.bind_eq_ok.mp hload
  have hindex := createChainKey_index config ratchet.rootKey senderChain.ratchetKey ratchetKey
  have hchain : verifyMacAndDecryptForExistingChain config
      (createChainKey config ratchet.rootKey senderChain.ratchetKey ratchetKey).2 buf reader
      maxPlaintextLength ratchet.lastError = .ok (ratchet.lastError, verified) := by
    rw [verifyMacAndDecryptForExistingChain_of_le (by rw [hindex]; exact Nat.zero_le _)
      (by rw [hindex, chainKeyAt_index]; omega), hverify, Checked.ok_bind]
  simp only [decryptReader, findReceiverChain_of_not_mem hnew, verifyMacAndDecryptForNewChain,
    hsender, if_neg (Nat.not_lt.mpr hgap), hpos, hkey, Checked.ok_bind, hchain]
  cases verified with
  | none => exact ⟨_, rfl⟩
  | some plaintext => exact ⟨_, rfl⟩

/-- On a new chain nothing is decrypted where there is no sender chain, or
too many messages were missed. -/
theorem decryptReader_newChain_none (isSequential : Bool)
    (hnew : ∀ chain ∈ ratchet.receiverChains.toList, chain.ratchetKey ≠ ratchetKey)
    (h : ratchet.senderChain.toList = [] ∨ MAX_MESSAGE_GAP < reader.counter.value) :
    ∃ ratchet', ratchet.decryptReader config buf reader ratchetKey maxPlaintextLength isSequential =
      .ok (ratchet', none) := by
  cases hsender : ratchet.senderChain.toList with
  | nil =>
    simp only [decryptReader, findReceiverChain_of_not_mem hnew, verifyMacAndDecryptForNewChain,
      hsender, Checked.ok_bind, fail]
    exact ⟨_, rfl⟩
  | cons senderChain rest =>
    have hgap : reader.counter.value > MAX_MESSAGE_GAP := by
      rcases h with h | h
      · rw [hsender] at h
        cases h
      · exact h
    simp only [decryptReader, findReceiverChain_of_not_mem hnew, verifyMacAndDecryptForNewChain,
      hsender, if_pos hgap, Checked.ok_bind, fail]
    exact ⟨_, rfl⟩

/-- A message that a stored chain has not moved past. -/
theorem decryptReader_existing
    (hmem : ∃ chain ∈ ratchet.receiverChains.toList, chain.ratchetKey = ratchetKey)
    (hall : ∀ chain ∈ ratchet.receiverChains.toList, chain.ratchetKey = ratchetKey →
      chain.chainKey.index ≤ reader.counter.value ∧
      reader.counter.value ≤ chain.chainKey.index + MAX_MESSAGE_GAP ∧
      verifyMacAndDecrypt config (keysAhead config chain.chainKey reader.counter.value) buf reader
        maxPlaintextLength = .ok (some plaintext)) :
    ∃ ratchet', ratchet.decryptReader config buf reader ratchetKey maxPlaintextLength false =
      .ok (ratchet', some plaintext) := by
  obtain ⟨place, hfind, hplace, hkey⟩ := findReceiverChain_of_mem hmem
  obtain ⟨hle, hgap, hverify⟩ := hall ratchet.receiverChains.toList[place] hplace hkey
  simp only [decryptReader, hfind, Bool.false_and, Bool.false_eq_true, if_false,
    if_neg (Nat.not_lt.mpr hle), verifyMacAndDecryptForExistingChain_of_le hle hgap, hverify,
    Checked.ok_bind]
  exact ⟨_, rfl⟩

/-- The loop over the skipped keys finds the key of the message, where all
keys that go with the message open it. -/
theorem trySkippedMessageKeys_of_mem {skipped : List (SkippedMessageKey K)} (place : ℕ)
    (hmem : ∃ key ∈ skipped,
      reader.counter.value = key.messageKey.index ∧ key.ratchetKey = ratchetKey)
    (hall : ∀ key ∈ skipped,
      reader.counter.value = key.messageKey.index ∧ key.ratchetKey = ratchetKey →
      verifyMacAndDecrypt config key.messageKey buf reader maxPlaintextLength =
        .ok (some plaintext)) :
    ∃ found, trySkippedMessageKeys config ratchetKey buf reader maxPlaintextLength skipped place =
      .ok (some (found, plaintext)) := by
  induction skipped generalizing place with
  | nil =>
    obtain ⟨key, hkey, -⟩ := hmem
    cases hkey
  | cons key skipped ih =>
    rw [trySkippedMessageKeys]
    split
    · rename_i hmatch
      rw [hall key List.mem_cons_self hmatch, Checked.ok_bind]
      exact ⟨place, rfl⟩
    · rename_i hmatch
      refine ih (place + 1) ?_ (fun key hkey => hall key (List.mem_cons_of_mem _ hkey))
      obtain ⟨other, hother, hmatch'⟩ := hmem
      rcases List.mem_cons.mp hother with rfl | hother
      · exact absurd hmatch' hmatch
      · exact ⟨other, hother, hmatch'⟩

theorem trySkippedMessageKeys_of_not_mem {skipped : List (SkippedMessageKey K)} (place : ℕ)
    (hnone : ∀ key ∈ skipped,
      ¬ (reader.counter.value = key.messageKey.index ∧ key.ratchetKey = ratchetKey)) :
    trySkippedMessageKeys config ratchetKey buf reader maxPlaintextLength skipped place =
      .ok none := by
  induction skipped generalizing place with
  | nil => rfl
  | cons key skipped ih =>
    rw [trySkippedMessageKeys, if_neg (hnone key List.mem_cons_self)]
    exact ih (place + 1) (fun key hkey => hnone key (List.mem_cons_of_mem _ hkey))

/-- What the loop finds is in the list, and goes with the message. -/
theorem trySkippedMessageKeys_eq_some {skipped : List (SkippedMessageKey K)} {place found : ℕ}
    (h : trySkippedMessageKeys config ratchetKey buf reader maxPlaintextLength skipped place =
      .ok (some (found, plaintext))) :
    ∃ i key, found = place + i ∧ skipped[i]? = some key ∧
      reader.counter.value = key.messageKey.index ∧ key.ratchetKey = ratchetKey := by
  induction skipped generalizing place with
  | nil => simp [trySkippedMessageKeys] at h
  | cons key skipped ih =>
    have hrest : trySkippedMessageKeys config ratchetKey buf reader maxPlaintextLength skipped
        (place + 1) = .ok (some (found, plaintext)) →
        ∃ i key', found = place + i ∧ (key :: skipped)[i]? = some key' ∧
          reader.counter.value = key'.messageKey.index ∧ key'.ratchetKey = ratchetKey := by
      intro h
      obtain ⟨i, key', rfl, hget, hmatch⟩ := ih h
      exact ⟨i + 1, key', by omega, by rw [List.getElem?_cons_succ]; exact hget, hmatch⟩
    rw [trySkippedMessageKeys] at h
    split at h
    · rename_i hmatch
      obtain ⟨tried, -, h⟩ := Checked.bind_eq_ok.mp h
      cases tried with
      | none => exact hrest h
      | some verified =>
        simp only [Except.ok.injEq, Option.some.injEq, Prod.mk.injEq] at h
        obtain ⟨rfl, rfl⟩ := h
        exact ⟨0, key, rfl, rfl, hmatch⟩
    · exact hrest h

/-- A message that its chain has moved past, with its key in the list. -/
theorem decryptReader_skipped {tried : Option (ℕ × Bytes)} (isSequential : Bool)
    (hmem : ∃ chain ∈ ratchet.receiverChains.toList, chain.ratchetKey = ratchetKey)
    (hall : ∀ chain ∈ ratchet.receiverChains.toList, chain.ratchetKey = ratchetKey →
      reader.counter.value < chain.chainKey.index)
    (hskipped : trySkippedMessageKeys config ratchetKey buf reader maxPlaintextLength
      ratchet.skippedMessageKeys.toList 0 = .ok tried) :
    ∃ ratchet', ratchet.decryptReader config buf reader ratchetKey maxPlaintextLength isSequential =
      .ok (ratchet', tried.map Prod.snd) := by
  obtain ⟨place, hfind, hplace, hkey⟩ := findReceiverChain_of_mem hmem
  have hbehind := hall ratchet.receiverChains.toList[place] hplace hkey
  have hsequential : (isSequential && decide (reader.counter.value >
      (ratchet.receiverChains.toList[place]).chainKey.index)) = false := by
    simp only [Bool.and_eq_false_iff, decide_eq_false_iff_not]
    exact .inr (by omega)
  simp only [decryptReader, hfind, hsequential, Bool.false_eq_true, if_false, if_pos hbehind,
    hskipped, Checked.ok_bind]
  cases tried with
  | none => exact ⟨_, rfl⟩
  | some found => exact ⟨_, rfl⟩

/-- A message that its chain has not got to yet, in sequence. -/
theorem decryptReader_outOfOrder
    (hmem : ∃ chain ∈ ratchet.receiverChains.toList, chain.ratchetKey = ratchetKey)
    (hall : ∀ chain ∈ ratchet.receiverChains.toList, chain.ratchetKey = ratchetKey →
      chain.chainKey.index < reader.counter.value) :
    ratchet.decryptReader config buf reader ratchetKey maxPlaintextLength true =
      ratchet.fail .MESSAGE_OUT_OF_ORDER := by
  obtain ⟨place, hfind, hplace, hkey⟩ := findReceiverChain_of_mem hmem
  have hahead := hall ratchet.receiverChains.toList[place] hplace hkey
  have hsequential : (true && decide (reader.counter.value >
      (ratchet.receiverChains.toList[place]).chainKey.index)) = true := by
    rw [Bool.true_and]
    exact decide_eq_true hahead
  simp only [decryptReader, hfind, hsequential, if_true]

end Exits

/-! ## Messages of an honest sender -/

/-- The reader of an encoded message at `input`, with a header of `n` bytes
and `m` bytes after it. -/
def readerOf (input n m counter ciphertextLength : ℕ) : MessageReader where
  version := PROTOCOL_VERSION
  counter := { value := counter, hasValue := true }
  input := input
  inputLength := n + m
  ratchetKey := { value := some (input + ratchetKeyOffset CURVE25519_KEY_LENGTH)
                  length := CURVE25519_KEY_LENGTH }
  ciphertext := { value := some (input + n), length := ciphertextLength }

section Encoded

variable {buf body rest : Bytes} {ratchetKey : Curve25519PublicKey}
  {input n counter ciphertextLength maxPlaintextLength : ℕ}

/-- The ratchet key is read back. -/
theorem load_readerOf
    (h : buf.drop input = messageHeader PROTOCOL_VERSION ratchetKey.val counter ciphertextLength ++
      (body ++ rest)) :
    (nonNull (readerOf input n body.length counter ciphertextLength).ratchetKey.value >>=
      loadArray CURVE25519_KEY_LENGTH buf) = .ok ratchetKey := by
  have hdrop : buf.drop (input + ratchetKeyOffset CURVE25519_KEY_LENGTH) = ratchetKey.val ++
      (tagged COUNTER_TAG counter ++ tagged CIPHERTEXT_TAG ciphertextLength ++ (body ++ rest)) := by
    rw [messageHeader, ← List.singleton_append, List.append_assoc, List.append_assoc,
      List.append_assoc] at h
    have := drop_add_of_drop_eq_append _ (drop_add_of_drop_eq_append _ h)
    rwa [FixedBytes.length_val, Nat.add_assoc] at this
  simp only [readerOf, nonNull, Checked.ok_bind]
  exact loadArray_of_drop_eq_append hdrop

theorem decodeMessage_eq_readerOf
    (h : buf.drop input = messageHeader PROTOCOL_VERSION ratchetKey.val counter ciphertextLength ++
      (body ++ rest))
    (hn : n = (messageHeader PROTOCOL_VERSION ratchetKey.val counter ciphertextLength).length)
    (hbody : body.length = ciphertextLength + config.ratchetCipher.macLength)
    (hsize : ciphertextLength < 2 ^ SIZE_WIDTH) (hcounter : counter < 2 ^ 32) :
    decodeMessage buf input (n + body.length) config.ratchetCipher.macLength =
      .ok (readerOf input n body.length counter ciphertextLength) := by
  have hdecode := decodeMessage_append h hbody hn (by rw [FixedBytes.length_val]; decide) hsize
  rw [Nat.mod_eq_of_lt hcounter, FixedBytes.length_val] at hdecode
  exact hdecode

/-- The checks of `decrypt` pass on an encoded message. -/
theorem decrypt_eq_decryptReader (ratchet : Ratchet K) (isSequential : Bool)
    (h : buf.drop input = messageHeader PROTOCOL_VERSION ratchetKey.val counter ciphertextLength ++
      (body ++ rest))
    (hn : n = (messageHeader PROTOCOL_VERSION ratchetKey.val counter ciphertextLength).length)
    (hbody : body.length = ciphertextLength + config.ratchetCipher.macLength)
    (hsize : ciphertextLength < 2 ^ SIZE_WIDTH) (hcounter : counter < 2 ^ 32)
    (hmax : config.ratchetCipher.decryptMaxPlaintextLength ciphertextLength ≤ maxPlaintextLength) :
    ratchet.decrypt config buf input (n + body.length) maxPlaintextLength isSequential =
      ratchet.decryptReader config buf
        (readerOf input n body.length counter ciphertextLength) ratchetKey maxPlaintextLength
        isSequential := by
  have hload := load_readerOf (n := n) h
  rw [decrypt, decodeMessage_eq_readerOf config h hn hbody hsize hcounter, Checked.ok_bind]
  simp only [readerOf, nonNull, Checked.ok_bind] at hload
  simp only [readerOf, ne_eq, not_true_eq_false, if_false, Bool.not_true, Option.isNone_some,
    Bool.or_false, Bool.false_eq_true, Nat.not_lt.mpr hmax, nonNull, Checked.ok_bind, hload]

/-- Without the room for the plain text nothing is decrypted. -/
theorem decrypt_of_small (ratchet : Ratchet K) (isSequential : Bool)
    (h : buf.drop input = messageHeader PROTOCOL_VERSION ratchetKey.val counter ciphertextLength ++
      (body ++ rest))
    (hn : n = (messageHeader PROTOCOL_VERSION ratchetKey.val counter ciphertextLength).length)
    (hbody : body.length = ciphertextLength + config.ratchetCipher.macLength)
    (hsize : ciphertextLength < 2 ^ SIZE_WIDTH) (hcounter : counter < 2 ^ 32)
    (hmax : maxPlaintextLength < config.ratchetCipher.decryptMaxPlaintextLength ciphertextLength) :
    ratchet.decrypt config buf input (n + body.length) maxPlaintextLength isSequential =
      ratchet.fail .OUTPUT_BUFFER_TOO_SMALL := by
  rw [decrypt, decodeMessage_eq_readerOf config h hn hbody hsize hcounter, Checked.ok_bind]
  simp only [readerOf, ne_eq, not_true_eq_false, if_false, Bool.not_true, Option.isNone_some,
    Bool.or_false, Bool.false_eq_true, hmax, if_true]

end Encoded

end Ratchet

end Olm
