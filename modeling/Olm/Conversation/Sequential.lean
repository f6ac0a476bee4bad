import Olm.Common.Lists
import Olm.Conversation.System

/-!
# Receiving in sequence

What holds of a ratchet that only decrypts with `is_sequential`, where no
message makes it leave one out. The check of `decrypt` compares the counter
with a stored chain; a new chain is started at any counter up to the gap.
`System.InTurn` says that a delivery is not one of these: then the messages
of each chain are accepted one after the other, no key is ever skipped, and
the two errors mean what their documentation says.
-/

namespace Olm

variable {K : Type} (config : RatchetConfig K)

/-- The counters of the accepted messages of a chain, the last one first. -/
def countersOf (accepted : List (Curve25519PublicKey × ℕ)) (ratchetKey : Curve25519PublicKey) :
    List ℕ :=
  (accepted.filter (fun message => message.1 = ratchetKey)).map Prod.snd

section CountersOf

variable {accepted : List (Curve25519PublicKey × ℕ)} {ratchetKey : Curve25519PublicKey}
  {counter n : ℕ}

theorem countersOf_cons_self :
    countersOf ((ratchetKey, counter) :: accepted) ratchetKey =
      counter :: countersOf accepted ratchetKey := by
  rw [countersOf, List.filter_cons_of_pos (by simp)]
  rfl

theorem countersOf_cons_of_ne {ratchetKey' : Curve25519PublicKey} (h : ratchetKey ≠ ratchetKey') :
    countersOf ((ratchetKey, counter) :: accepted) ratchetKey' = countersOf accepted ratchetKey' := by
  rw [countersOf, List.filter_cons_of_neg (by simpa using h)]
  rfl

theorem mem_countersOf : counter ∈ countersOf accepted ratchetKey ↔
    (ratchetKey, counter) ∈ accepted := by
  rw [countersOf, List.mem_map]
  constructor
  · rintro ⟨⟨key, i⟩, hmem, rfl⟩
    obtain ⟨hin, hkey⟩ := List.mem_filter.mp hmem
    obtain rfl : key = ratchetKey := of_decide_eq_true hkey
    exact hin
  · intro hmem
    exact ⟨_, List.mem_filter.mpr ⟨hmem, decide_eq_true rfl⟩, rfl⟩

/-- Where the counters are those below `n`, so are the accepted messages. -/
theorem mem_accepted_iff (h : countersOf accepted ratchetKey = (List.range n).reverse) :
    (ratchetKey, counter) ∈ accepted ↔ counter < n := by
  rw [← mem_countersOf, h, List.mem_reverse, List.mem_range]

end CountersOf

/-- The message is a sealed one, and not the last of 2^32. -/
structure Sent.IsSealed (message : Sent) : Prop where
  counter : message.counter + 1 < 2 ^ 32
  sealed_ : ∃ key, Sealed config key message.ratchetKey message.counter message.plaintext
    message.bytes

namespace System

/-- **The message leaves none of its chain out.** Its chain is stored, so
that the check is made; or it is the first of its chain, for the first time;
or all before it were accepted, and no new chain opens it. -/
def InTurn (s : System K) (message : Sent) : Prop :=
  let ratchet := s.ratchet message.sender.peer
  let accepted := s.accepted message.sender.peer
  (∃ chain ∈ ratchet.receiverChains.toList, chain.ratchetKey = message.ratchetKey) ∨
  (message.counter = 0 ∧ (message.ratchetKey, 0) ∉ accepted) ∨
  ((∀ counter < message.counter, (message.ratchetKey, counter) ∈ accepted) ∧
    ∀ senderChain rest, ratchet.senderChain.toList = senderChain :: rest →
      Rejects config (messageKeyAt config (createChainKey config ratchet.rootKey
        senderChain.ratchetKey message.ratchetKey).2.key message.counter) message.bytes)

/-- Honest ends, of which `receiver` decrypts in sequence and in turn. -/
def InSequence (receiver : Party) (s : System K) (e : Event) : Prop :=
  s.Honest config e ∧
  match e with
  | .deliver message _ _ _ isSequential =>
    message.sender.peer = receiver → isSequential = true ∧ s.InTurn config message
  | _ => True

/-- **What a receiver in sequence has**: no skipped keys, and chains that
are each just past the messages of it that were accepted. -/
structure Sequential (receiver : Party) (s : System K) : Prop where
  skipped : (s.ratchet receiver).skippedMessageKeys.toList = []
  distinct : ((s.ratchet receiver).receiverChains.toList.map (·.ratchetKey)).Nodup
  counters : ∀ ratchetKey, ∃ n,
    countersOf (s.accepted receiver) ratchetKey = (List.range n).reverse ∧
    ∀ chain ∈ (s.ratchet receiver).receiverChains.toList, chain.ratchetKey = ratchetKey →
      chain.chainKey.index = n
  sent : ∀ message ∈ s.sent, message.IsSealed config

end System

/-! ## Steps of the ratchet -/

namespace Ratchet

variable {config}

/-- A chain that is at a message moves past it, and skips no key. -/
theorem advanceReceiverChain_self (ratchet : Ratchet K) (place : ℕ) (chain : ReceiverChain K)
    (h : chain.chainKey.index + 1 < 2 ^ 32) :
    ∃ chain' : ReceiverChain K, chain'.ratchetKey = chain.ratchetKey ∧
      chain'.chainKey.index = chain.chainKey.index + 1 ∧
      ratchet.advanceReceiverChain config place chain chain.chainKey.index =
        { ratchet with receiverChains := ratchet.receiverChains.set place chain' } := by
  refine ⟨{ chain with chainKey := advanceChainKey config chain.chainKey }, rfl, ?_, ?_⟩
  · rw [advanceChainKey, Nat.mod_eq_of_lt h]
  · rw [advanceReceiverChain, Nat.sub_self]
    rfl

end Ratchet

namespace System

variable {config} {receiver : Party} {s s' : System K} {message : Sent}

section Accept

variable (h : s.Sequential config receiver)

include h

/-- The accepted messages of a stored chain are those below its index. -/
theorem Sequential.mem_accepted_iff {chain : ReceiverChain K} {counter : ℕ}
    (hchain : chain ∈ (s.ratchet receiver).receiverChains.toList) :
    (chain.ratchetKey, counter) ∈ s.accepted receiver ↔ counter < chain.chainKey.index := by
  obtain ⟨n, hcounters, hindex⟩ := h.counters chain.ratchetKey
  rw [hindex chain hchain rfl]
  exact Olm.mem_accepted_iff hcounters

/-- The next message of a chain is accepted. -/
theorem Sequential.advance {place : ℕ} {chain moved : ReceiverChain K}
    {ratchet : Ratchet K} {record : Record}
    (hplace : (s.ratchet receiver).receiverChains.toList[place]? = some chain)
    (hname : moved.ratchetKey = chain.ratchetKey)
    (hindex : moved.chainKey.index = chain.chainKey.index + 1)
    (hreceivers : ratchet.receiverChains = (s.ratchet receiver).receiverChains.set place moved)
    (hskipped : ratchet.skippedMessageKeys = (s.ratchet receiver).skippedMessageKeys)
    (haccepted : record.accepted receiver =
      (chain.ratchetKey, chain.chainKey.index) :: s.accepted receiver)
    (hsent : record.sent = s.sent) :
    ({ toRecord := record, ratchet := Function.update s.ratchet receiver ratchet } :
      System K).Sequential config receiver := by
  have hchain := List.mem_of_getElem? hplace
  refine ⟨?_, ?_, ?_, ?_⟩ <;> dsimp only
  · rw [Function.update_self, hskipped]
    exact h.skipped
  · rw [Function.update_self, hreceivers, BoundedList.toList_set, List.map_set_of_eq hplace hname]
    exact h.distinct
  · intro ratchetKey
    rw [Function.update_self, hreceivers, haccepted, BoundedList.toList_set]
    obtain ⟨n, hcounters, hn⟩ := h.counters ratchetKey
    by_cases hkey : chain.ratchetKey = ratchetKey
    · subst hkey
      -- the counters accepted on the chain were those below `n`
      refine ⟨n + 1, ?_, ?_⟩
      · rw [countersOf_cons_self, hcounters, hn chain hchain rfl, List.range_succ,
          List.reverse_append]
        rfl
      · intro other hother hsame
        rw [List.eq_of_mem_set h.distinct hplace hname hother hsame, hindex, hn chain hchain rfl]
    · refine ⟨n, ?_, ?_⟩
      · rw [countersOf_cons_of_ne hkey]
        exact hcounters
      · intro other hother hsame
        rcases List.mem_or_eq_of_mem_set hother with hother | rfl
        · exact hn other hother hsame
        · exact absurd (hname.symm.trans hsame) hkey
  · rw [hsent]
    exact h.sent

/-- The first message of a new chain is accepted. -/
theorem Sequential.start {moved : ReceiverChain K} {ratchet : Ratchet K} {record : Record}
    {ratchetKey : Curve25519PublicKey}
    (hnew : ∀ chain ∈ (s.ratchet receiver).receiverChains.toList, chain.ratchetKey ≠ ratchetKey)
    (hfirst : (ratchetKey, 0) ∉ s.accepted receiver) (hname : moved.ratchetKey = ratchetKey)
    (hindex : moved.chainKey.index = 1)
    (hreceivers : ratchet.receiverChains.toList =
      (moved :: (s.ratchet receiver).receiverChains.toList).take MAX_RECEIVER_CHAINS)
    (hskipped : ratchet.skippedMessageKeys = (s.ratchet receiver).skippedMessageKeys)
    (haccepted : record.accepted receiver = (ratchetKey, 0) :: s.accepted receiver)
    (hsent : record.sent = s.sent) :
    ({ toRecord := record, ratchet := Function.update s.ratchet receiver ratchet } :
      System K).Sequential config receiver := by
  refine ⟨?_, ?_, ?_, ?_⟩ <;> dsimp only
  · rw [Function.update_self, hskipped]
    exact h.skipped
  · rw [Function.update_self, hreceivers]
    refine List.Nodup.sublist ((List.take_sublist _ _).map _) ?_
    rw [List.map_cons, List.nodup_cons, hname]
    refine ⟨?_, h.distinct⟩
    intro hmem
    obtain ⟨other, hother, heq⟩ := List.mem_map.mp hmem
    exact hnew other hother heq
  · intro ratchetKey'
    rw [Function.update_self, hreceivers, haccepted]
    obtain ⟨n, hcounters, hn⟩ := h.counters ratchetKey'
    by_cases hkey : ratchetKey = ratchetKey'
    · subst hkey
      -- nothing of it was accepted before
      obtain rfl : n = 0 := by
        by_contra hne
        exact hfirst ((Olm.mem_accepted_iff hcounters).mpr (Nat.pos_of_ne_zero hne))
      refine ⟨1, ?_, ?_⟩
      · rw [countersOf_cons_self, hcounters]
        rfl
      · intro other hother hsame
        rcases List.mem_cons.mp (List.mem_of_mem_take hother) with rfl | hother
        · exact hindex
        · exact absurd hsame (hnew other hother)
    · refine ⟨n, ?_, ?_⟩
      · rw [countersOf_cons_of_ne hkey]
        exact hcounters
      · intro other hother hsame
        rcases List.mem_cons.mp (List.mem_of_mem_take hother) with rfl | hother
        · exact absurd (hname.symm.trans hsame) hkey
        · exact hn other hother hsame
  · rw [hsent]
    exact h.sent

/-- Only the receiver chains, the skipped keys and the record matter. -/
theorem Sequential.frame {record : Record} {ratchet : Party → Ratchet K}
    (hreceivers : (ratchet receiver).receiverChains = (s.ratchet receiver).receiverChains)
    (hskipped : (ratchet receiver).skippedMessageKeys = (s.ratchet receiver).skippedMessageKeys)
    (haccepted : record.accepted receiver = s.accepted receiver)
    (hsent : ∀ message ∈ record.sent, message.IsSealed config) :
    ({ toRecord := record, ratchet := ratchet } : System K).Sequential config receiver := by
  refine ⟨?_, ?_, ?_, hsent⟩
  · rw [hskipped]
    exact h.skipped
  · rw [hreceivers]
    exact h.distinct
  · rw [hreceivers, haccepted]
    exact h.counters

end Accept

/-! ## Runs -/

/-- **What a delivery to the receiver does**: it refuses the message, or
moves the chain past it, by one. -/
theorem Sequential.deliver (h : s.Sequential config receiver) (hmem : message ∈ s.sent)
    (hreceiver : message.sender.peer = receiver) (hturn : s.InTurn config message)
    {pre post : Bytes} {maxPlaintextLength : ℕ}
    (hstep : s.deliver config message pre post maxPlaintextLength true = .ok s') :
    s'.Sequential config receiver := by
  subst hreceiver
  obtain ⟨⟨ratchet', result⟩, hdecrypt, hstep⟩ := Checked.bind_eq_ok.mp hstep
  obtain ⟨hcounter, key, hsealed⟩ := h.sent message hmem
  have hlt : message.counter < 2 ^ 32 := Nat.lt_of_succ_lt hcounter
  cases result with
  | none =>
    obtain rfl := Except.ok.inj hstep
    -- refused: the receiver keeps all but its error
    rw [Ratchet.unchanged_of_decrypt_none hdecrypt]
    exact h.frame (by rw [Function.update_self]) (by rw [Function.update_self]) rfl h.sent
  | some plaintext =>
    obtain rfl := Except.ok.inj hstep
    rcases hsealed.decrypt_outcome hlt hdecrypt with ⟨hnone, -⟩ | ⟨reader, hread, hout⟩
    · cases hnone
    have hvalue := hread.counter_eq
    cases hout with
    | newChain senderChain rest plaintext' hnew hsender hgap hverify =>
      rw [hvalue] at hverify
      rcases hturn with ⟨chain, hchain, hkey⟩ | ⟨hzero, hfirst⟩ | ⟨-, hrejects⟩
      · exact absurd hkey (hnew chain hchain)
      · -- the chain starts at the first message
        obtain ⟨moved, hname, hindex, hadvance⟩ := Ratchet.advanceReceiverChain_self
          ((s.ratchet message.sender.peer).startReceiverChain config senderChain
            message.ratchetKey).1 0
          ((s.ratchet message.sender.peer).startReceiverChain config senderChain
            message.ratchetKey).2 (Nat.succ_lt_succ (Nat.succ_pos _))
        rw [hvalue, hzero]
        refine h.start hnew hfirst hname hindex ?_ ?_ ?_ rfl
        · have hreceivers := congrArg (fun ratchet => ratchet.receiverChains.toList) hadvance
          exact hreceivers.trans (by simp [Ratchet.startReceiverChain])
        · exact congrArg (·.skippedMessageKeys) hadvance
        · simp only [Record.decrypted, Function.update_self, hzero]
      · have hrejects' := hrejects senderChain rest hsender pre post reader message.counter
          maxPlaintextLength hread.decoded
        rw [createChainKey_index, Ratchet.keysAhead_chainKeyAt _ (Nat.zero_le _) hlt,
          hrejects'] at hverify
        cases hverify
    | skipped place chain keyPlace plaintext' hplace hkey hbehind hskipped =>
      -- no key was ever skipped
      rw [h.skipped] at hskipped
      cases hskipped
    | existing place chain plaintext' hplace hkey hsequential hahead hgap hverify =>
      -- the message is the next one of its chain
      have hindex : chain.chainKey.index = message.counter := by
        have hle := hsequential rfl
        omega
      obtain ⟨moved, hname, hmoved, hadvance⟩ := Ratchet.advanceReceiverChain_self
        (s.ratchet message.sender.peer) place chain (hindex ▸ hcounter)
      rw [hvalue, ← hindex, hadvance]
      refine h.advance hplace hname hmoved rfl rfl ?_ rfl
      simp only [Record.decrypted, Function.update_self, hkey, hindex]

/-- What is sent is sealed. -/
theorem isSealed_of_encrypt (hlawful : config.ratchetCipher.Lawful) {party : Party}
    {plaintext random buf : Bytes} {output maxOutputLength : ℕ}
    (hhonest : s.Honest config (.encrypt party plaintext random buf output maxOutputLength))
    (hsent : ∀ message ∈ s.sent, message.IsSealed config)
    (hrun : s.encrypt config party plaintext random buf output maxOutputLength = .ok s') :
    ∀ message ∈ s'.sent, message.IsSealed config := by
  obtain ⟨hroom, hbuf, hfresh⟩ := hhonest
  obtain ⟨⟨ratchet, result⟩, hencrypt, hrun⟩ := Checked.bind_eq_ok.mp hrun
  cases result with
  | none =>
    obtain rfl := Except.ok.inj hrun
    exact hsent
  | some written =>
    obtain ⟨buf', length⟩ := written
    obtain ⟨started, senderChain, bytes, hstart, -, -, -, hcut, hsealed⟩ :=
      Ratchet.encrypt_eq_some hlawful hroom hbuf hencrypt
    simp only [Record.encrypted, hstart, Checked.ok_bind, hcut] at hrun
    obtain rfl := Except.ok.inj hrun
    intro message hmem
    rcases List.mem_cons.mp hmem with rfl | hmem
    · exact ⟨(hfresh started senderChain hstart).1, _, hsealed⟩
    · exact hsent message hmem

/-- One event. -/
theorem Sequential.step (h : s.Sequential config receiver)
    (hlawful : config.ratchetCipher.Lawful) {e : Event} (hassumed : s.InSequence config receiver e)
    (hstep : s.step config e = .ok s') : s'.Sequential config receiver := by
  obtain ⟨hhonest, hreceive⟩ := hassumed
  cases e with
  | encrypt party plaintext random buf output maxOutputLength =>
    obtain ⟨haccepted, hframe⟩ := frame_of_encrypt hstep
    exact h.frame (hframe receiver).1 (hframe receiver).2 (congrFun haccepted receiver)
      (isSealed_of_encrypt hlawful hhonest h.sent hstep)
  | deliver message pre post maxPlaintextLength isSequential =>
    by_cases hreceiver : message.sender.peer = receiver
    · obtain ⟨rfl, hturn⟩ := hreceive hreceiver
      exact h.deliver hhonest hreceiver hturn hstep
    · obtain ⟨⟨ratchet', result⟩, -, hstep⟩ := Checked.bind_eq_ok.mp hstep
      have hother : receiver ≠ message.sender.peer := Ne.symm hreceiver
      have hratchet : Function.update s.ratchet message.sender.peer ratchet' receiver =
          s.ratchet receiver := Function.update_of_ne hother _ _
      cases result with
      | none =>
        obtain rfl := Except.ok.inj hstep
        exact h.frame (congrArg (·.receiverChains) hratchet)
          (congrArg (·.skippedMessageKeys) hratchet) rfl h.sent
      | some plaintext =>
        obtain rfl := Except.ok.inj hstep
        exact h.frame (congrArg (·.receiverChains) hratchet)
          (congrArg (·.skippedMessageKeys) hratchet) (Function.update_of_ne hother _ _) h.sent
  | clearError party =>
    obtain rfl := Except.ok.inj hstep
    by_cases hparty : receiver = party
    · subst hparty
      exact h.frame (by rw [Function.update_self]) (by rw [Function.update_self]) rfl h.sent
    · exact h.frame (by rw [Function.update_of_ne hparty]) (by rw [Function.update_of_ne hparty])
        rfl h.sent

theorem sequential_start {zeroKey : K} {sharedSecret : Bytes} {ratchetKey : Curve25519KeyPair} :
    (System.start config zeroKey sharedSecret ratchetKey).Sequential config receiver := by
  have hnone : (System.start config zeroKey sharedSecret ratchetKey).accepted receiver = [] := rfl
  refine ⟨by cases receiver <;> rfl, ?_, fun key => ⟨0, ?_, ?_⟩, ?_⟩
  · cases receiver
    · exact List.nodup_nil
    · exact List.nodup_singleton _
  · rw [hnone]
    rfl
  · cases receiver with
    | alice => intro chain hchain; cases hchain
    | bob =>
      intro chain hchain hkey
      obtain rfl := List.mem_singleton.mp hchain
      rfl
  · intro message hmem
    cases hmem

/-- **It holds throughout a run in sequence.** -/
theorem sequential_of_run (hlawful : config.ratchetCipher.Lawful) {zeroKey : K}
    {sharedSecret : Bytes} {ratchetKey : Curve25519KeyPair}
    (hrun : Run (System.step config) (System.InSequence config receiver)
      (System.start config zeroKey sharedSecret ratchetKey) s) : s.Sequential config receiver :=
  hrun.invariant sequential_start (fun _ _ _ h hassumed hstep => h.step hlawful hassumed hstep)

/-! ## What the errors mean -/

section Errors

variable (h : s.Sequential config receiver) (hmem : message ∈ s.sent)
  (hreceiver : message.sender.peer = receiver)

include h hmem hreceiver

/-- **A message that would leave an earlier one out is refused**, and nothing
else happens. -/
theorem Sequential.decrypt_outOfOrder (hturn : s.InTurn config message)
    (hearlier : ∃ counter < message.counter,
      (message.ratchetKey, counter) ∉ s.accepted message.sender.peer)
    (pre post : Bytes) {maxPlaintextLength : ℕ}
    (hroom : plaintextRoom config message.plaintext ≤ maxPlaintextLength) :
    (s.ratchet message.sender.peer).decrypt config (pre ++ (message.bytes ++ post)) pre.length
      message.bytes.length maxPlaintextLength true =
      (s.ratchet message.sender.peer).fail .MESSAGE_OUT_OF_ORDER := by
  subst hreceiver
  obtain ⟨hcounter, key, hsealed⟩ := h.sent message hmem
  obtain ⟨counter, hlt, hout⟩ := hearlier
  have hstored : ∃ chain ∈ (s.ratchet message.sender.peer).receiverChains.toList,
      chain.ratchetKey = message.ratchetKey := by
    rcases hturn with hstored | ⟨hzero, -⟩ | ⟨hall, -⟩
    · exact hstored
    · omega
    · exact absurd (hall counter hlt) hout
  obtain ⟨reader, hread, hopens⟩ := hsealed.readAs (Nat.lt_of_succ_lt hcounter) pre post
  rw [(hopens maxPlaintextLength hroom).2]
  refine Ratchet.decryptReader_outOfOrder hstored ?_
  intro chain hchain hkey
  rw [hread.counter_eq]
  -- the one that was left out is not below the index of the chain
  have hnot : ¬ counter < chain.chainKey.index := by
    rw [← h.mem_accepted_iff hchain, hkey]
    exact hout
  omega

/-- **`ALREADY_DECRYPTED_OR_KEYS_SKIPPED` is only for a message that was
decrypted.** -/
theorem Sequential.accepted_of_alreadyDecrypted {pre post : Bytes} {maxPlaintextLength : ℕ}
    {ratchet' : Ratchet K} (hclear : (s.ratchet message.sender.peer).lastError = .SUCCESS)
    (hrun : (s.ratchet message.sender.peer).decrypt config (pre ++ (message.bytes ++ post))
      pre.length message.bytes.length maxPlaintextLength true = .ok (ratchet', none))
    (herror : ratchet'.lastError = .ALREADY_DECRYPTED_OR_KEYS_SKIPPED) :
    (message.ratchetKey, message.counter) ∈ s.accepted message.sender.peer := by
  subst hreceiver
  obtain ⟨hcounter, key, hsealed⟩ := h.sent message hmem
  rcases hsealed.decrypt_outcome (Nat.lt_of_succ_lt hcounter) hrun with
    ⟨-, rfl⟩ | ⟨reader, hread, hout⟩
  · cases herror
  have hvalue := hread.counter_eq
  have hmac : Ratchet.errorOf (s.ratchet message.sender.peer).lastError = .BAD_MESSAGE_MAC := by
    rw [hclear]
    rfl
  cases hout with
  | notAcknowledged | newChainGap | outOfOrder | existingGap => cases herror
  | newChainMac | existingMac =>
    rw [hmac] at herror
    cases herror
  | alreadyDecrypted place chain hplace hkey hbehind hskipped =>
    rw [← hkey, h.mem_accepted_iff (List.mem_of_getElem? hplace), ← hvalue]
    exact hbehind

end Errors

end System

end Olm
