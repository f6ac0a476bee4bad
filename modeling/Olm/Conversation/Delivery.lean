import Mathlib.Data.List.Infix
import Olm.Conversation.Agreement
import Olm.Symbolic

/-!
# Every message that can be read is read

What a delivery does where the two ends agree. `Ratchet.Accepts` lists the
three ways in which a message is accepted; each of them keeps the agreement,
so it holds throughout a run, and a message whose key the receiver has, or
can derive, is decrypted to what was encrypted.
-/

namespace Olm

variable {K : Type} (config : RatchetConfig K) (first : K × K)

/-- **How a message is accepted** by a ratchet at the epoch `view`, where
`epoch` is the newest: on the chain of a new epoch, with a skipped key, or
on a chain that has not moved past it. The ratchet and its epoch after. -/
inductive Ratchet.Accepts (party : Party) (ratchet : Ratchet K) (epoch view : Epoch)
    (message : Sent) : Ratchet K → Epoch → Prop
  | newChain (senderChain : SenderChain K) (rest : List (SenderChain K)) (key : Curve25519KeyPair)
      (hnew : ∀ chain ∈ ratchet.receiverChains.toList, chain.ratchetKey ≠ message.ratchetKey)
      (hsender : ratchet.senderChain.toList = senderChain :: rest)
      (howner : view.owner = party) (hepoch : epoch = key :: view)
      (hkey : message.ratchetKey = key.publicKey) :
      Accepts party ratchet epoch view message
        ((ratchet.startReceiverChain config senderChain message.ratchetKey).1.advanceReceiverChain
          config 0 (ratchet.startReceiverChain config senderChain message.ratchetKey).2
          message.counter) epoch
  | skipped (chain : ReceiverChain K) (place : ℕ) (key : SkippedMessageKey K)
      (hchain : chain ∈ ratchet.receiverChains.toList) (hkey : chain.ratchetKey = message.ratchetKey)
      (hbehind : message.counter < chain.chainKey.index)
      (hplace : ratchet.skippedMessageKeys.toList[place]? = some key)
      (hindex : key.messageKey.index = message.counter)
      (hskipped : key.ratchetKey = message.ratchetKey) :
      Accepts party ratchet epoch view message
        { ratchet with skippedMessageKeys := ratchet.skippedMessageKeys.eraseIdx place } view
  | existing (place : ℕ) (chain : ReceiverChain K)
      (hplace : ratchet.receiverChains.toList[place]? = some chain)
      (hkey : chain.ratchetKey = message.ratchetKey)
      (hahead : chain.chainKey.index ≤ message.counter) :
      Accepts party ratchet epoch view message
        (ratchet.advanceReceiverChain config place chain message.counter) view

namespace System

variable {config first} {s s' : System K} {epoch older : Epoch} {view : Party → Epoch}
  {message : Sent}

/-! ## What a receiver has of a message -/

section Keys

variable (h : s.Agrees config first epoch view) (hsuffix : older <:+ epoch)
  (hmessage : message.Follows config first older)

include h hsuffix hmessage

/-- An epoch of the receiver with the ratchet key of the message is its
epoch. -/
theorem Agrees.theirs_eq {party : Party} {key : Curve25519KeyPair} {rest : Epoch}
    (htheirs : key :: rest ∈ (view party).theirs party)
    (hkey : key.publicKey = message.ratchetKey) : key :: rest = older := by
  obtain ⟨hsuffix', -, -⟩ := Epoch.mem_theirs.mp htheirs
  obtain ⟨key', rest', rfl, heq⟩ := hmessage.ratchetKey
  rw [heq] at hkey
  exact Epoch.eq_of_suffix_of_publicKey h.nodup (hsuffix'.trans (h.view_suffix party)) hsuffix hkey

/-- A stored chain with the ratchet key of the message is that of its
epoch. -/
theorem Agrees.receiver_eq {party : Party} {chain : ReceiverChain K}
    (hchain : chain ∈ (s.ratchet party).receiverChains.toList)
    (hkey : chain.ratchetKey = message.ratchetKey) :
    ∃ index, chain = { ratchetKey := message.ratchetKey
                       chainKey := older.chainKey config first index } := by
  obtain ⟨epoch', htheirs, key, rest, index, rfl, -, rfl⟩ := (h.ratchet party).mem_receivers hchain
  rw [h.theirs_eq hsuffix hmessage htheirs hkey]
  exact ⟨index, by rw [← hkey]⟩

/-- A skipped key with the ratchet key and the counter of the message is its
key. -/
theorem Agrees.skipped_eq {party : Party} {skipped : SkippedMessageKey K}
    (hskipped : skipped ∈ (s.ratchet party).skippedMessageKeys.toList)
    (hkey : skipped.ratchetKey = message.ratchetKey) :
    ∃ index, skipped = { ratchetKey := message.ratchetKey
                         messageKey := { index := index
                                         key := older.messageKey config first index } } := by
  obtain ⟨epoch', htheirs, key, rest, index, rfl, rfl⟩ := (h.ratchet party).skipped _ hskipped
  rw [h.theirs_eq hsuffix hmessage htheirs hkey]
  exact ⟨index, by rw [← hkey]⟩

/-- The next epoch of the receiver, if the message is not of an epoch that
it has got to. -/
theorem Agrees.next_of_not_suffix
    (hnot : ¬ older <:+ view message.sender.peer) :
    ∃ key, older = epoch ∧ epoch = key :: view message.sender.peer ∧
      message.ratchetKey = key.publicKey ∧
      (view message.sender.peer).owner = message.sender.peer := by
  rcases h.view_eq message.sender.peer with heq | ⟨key, heq⟩
  · rw [heq] at hnot
    exact absurd hsuffix hnot
  · obtain rfl : older = epoch := by
      rw [heq] at hsuffix ⊢
      rcases List.suffix_cons_iff.mp hsuffix with h' | h'
      · exact h'
      · exact absurd h' hnot
    refine ⟨key, rfl, heq, ?_, ?_⟩
    · obtain ⟨key', rest, hcons, hkey⟩ := hmessage.ratchetKey
      rw [heq] at hcons
      rw [hkey, (List.cons.inj hcons).1]
    · have howner := hmessage.owner
      rw [heq, Epoch.owner_cons] at howner
      have hpeer := congrArg Party.peer howner
      rwa [Party.peer_peer] at hpeer

end Keys

/-! ## What a delivery does -/

/-- **What is accepted** was so in one of the three ways: a new chain only
opens the message of the epoch that comes next, since an older message was
made from other keys. -/
theorem Agrees.accepts (h : s.Agrees config first epoch view) (hsuffix : older <:+ epoch)
    (hmessage : message.Follows config first older) {pre post : Bytes} {maxPlaintextLength : ℕ}
    {isSequential : Bool}
    (hfails : s.FailsUnderWrongKey config message) {ratchet' : Ratchet K} {plaintext : Bytes}
    (hrun : (s.ratchet message.sender.peer).decrypt config (pre ++ (message.bytes ++ post))
      pre.length message.bytes.length maxPlaintextLength isSequential =
        .ok (ratchet', some plaintext)) :
    ∃ view', Ratchet.Accepts config message.sender.peer (s.ratchet message.sender.peer) epoch
      (view message.sender.peer) message ratchet' view' := by
  have hcounter : message.counter < 2 ^ 32 := Nat.lt_of_succ_lt hmessage.counter
  rcases hmessage.sealed_.decrypt_outcome hcounter hrun with ⟨hnone, -⟩ | ⟨reader, hread, hout⟩
  · cases hnone
  have hvalue := hread.counter_eq
  cases hout with
  | newChain senderChain rest plaintext' hnew hsender hgap hverify =>
    rw [hvalue] at hverify ⊢
    -- the outputs behind the new chain are those of the message
    have hsecrets : config.curve.sharedSecret senderChain.ratchetKey message.ratchetKey ::
        s.secrets message.sender.peer = message.secrets := by
      by_contra hne
      have hrejects := hfails senderChain rest hsender hnew hne pre post reader message.counter
        maxPlaintextLength hread.decoded
      rw [createChainKey_index, Ratchet.keysAhead_chainKeyAt _ (Nat.zero_le _) hcounter,
        hrejects] at hverify
      cases hverify
    rw [h.secrets, hmessage.secrets] at hsecrets
    have hlength := congrArg List.length hsecrets
    rw [List.length_cons, Epoch.secrets_length, Epoch.secrets_length] at hlength
    have hnot : ¬ older <:+ view message.sender.peer := by
      intro hin
      have hpos := List.length_pos_of_ne_nil (h.ratchet message.sender.peer).nonempty
      have hle := hin.length_le
      omega
    obtain ⟨key, rfl, heq, hkey, howner⟩ := h.next_of_not_suffix hsuffix hmessage hnot
    exact ⟨_, .newChain senderChain rest key hnew hsender howner heq hkey⟩
  | skipped place chain keyPlace plaintext' hplace hkey hbehind hskipped =>
    -- the key that opened it has the counter and the ratchet key of the message
    obtain ⟨i, skipped, hi, hget, hindex, hratchetKey⟩ :=
      Ratchet.trySkippedMessageKeys_eq_some hskipped
    rw [Nat.zero_add] at hi
    subst hi
    rw [hvalue] at hbehind hindex
    exact ⟨_, .skipped chain _ skipped (List.mem_of_getElem? hplace) hkey hbehind hget hindex.symm
      hratchetKey⟩
  | existing place chain plaintext' hplace hkey hsequential hahead hgap hverify =>
    rw [hvalue] at hahead ⊢
    exact ⟨_, .existing place chain hplace hkey hahead⟩

/-- What accepting a message leaves at one end. -/
theorem Agrees.ratchet_of_accepts (h : s.Agrees config first epoch view)
    (hcommutes : config.curve.Commutes) (hcounter : message.counter + 1 < 2 ^ 32) {party : Party}
    {ratchet' : Ratchet K} {view' : Epoch}
    (haccepts : Ratchet.Accepts config party (s.ratchet party) epoch (view party) message ratchet'
      view') :
    ratchet'.Agrees config first party view' ∧
      (s.ratchet party).receivingSecrets config message.ratchetKey ++ s.secrets party =
        view'.secrets config := by
  have hstored : ∀ {chain : ReceiverChain K}, chain ∈ (s.ratchet party).receiverChains.toList →
      chain.ratchetKey = message.ratchetKey →
      (s.ratchet party).receivingSecrets config message.ratchetKey = [] := by
    intro chain hchain hkey
    rw [Ratchet.receivingSecrets, if_pos]
    rw [List.any_eq_true]
    exact ⟨chain, hchain, decide_eq_true hkey⟩
  rw [h.secrets party]
  cases haccepts with
  | newChain senderChain rest key hnew hsender howner hepoch hkey =>
    -- the receiver gets to the sender's epoch, and then past the message
    have hgenerated : ∀ key' ∈ key :: view party, config.curve.Generated key' := hepoch ▸ h.generated
    have hnodup : ((key :: view party).map (·.publicKey)).Nodup := hepoch ▸ h.nodup
    obtain ⟨hstarted, hplace, hindex⟩ := (h.ratchet party).startReceiverChain hcommutes howner hsender
      hgenerated hnodup
    rw [← hepoch, ← hkey] at hstarted
    rw [← hkey] at hplace hindex
    refine ⟨hstarted.advanceReceiverChain hplace (hindex ▸ Nat.zero_le _) hcounter, ?_⟩
    obtain ⟨chain, hchain, previous, older, index, hview, -, rfl⟩ := (h.ratchet party).sender howner
    have hany : (s.ratchet party).receiverChains.toList.any
        (fun chain => chain.ratchetKey = message.ratchetKey) = false := by
      rw [List.any_eq_false]
      intro chain hchain
      exact by simpa using hnew chain hchain
    rw [hview] at hgenerated
    rw [Ratchet.receivingSecrets, hany, hchain, hepoch, hview, hkey]
    simp only [Bool.false_eq_true, if_false, List.singleton_append, Epoch.secrets]
    rw [hcommutes.sharedSecret_comm (hgenerated previous (by simp)) (hgenerated key (by simp))]
  | skipped chain place key hchain hkey =>
    rw [hstored hchain hkey]
    exact ⟨(h.ratchet party).eraseSkipped place, rfl⟩
  | existing place chain hplace hkey hahead =>
    rw [hstored (List.mem_of_getElem? hplace) hkey]
    exact ⟨(h.ratchet party).advanceReceiverChain hplace hahead hcounter, rfl⟩

/-- What accepting a message leaves of the system. -/
theorem Agrees.accept (h : s.Agrees config first epoch view) (hcommutes : config.curve.Commutes)
    (hcounter : message.counter + 1 < 2 ^ 32) {ratchet' : Ratchet K} {view' : Epoch}
    (haccepts : Ratchet.Accepts config message.sender.peer (s.ratchet message.sender.peer) epoch
      (view message.sender.peer) message ratchet' view') :
    ({ ratchet := Function.update s.ratchet message.sender.peer ratchet'
       toRecord := s.toRecord.decrypted config (s.ratchet message.sender.peer) message } :
      System K).Agrees config first epoch (Function.update view message.sender.peer view') ∧
      ∀ other, view other <:+ Function.update view message.sender.peer view' other := by
  obtain ⟨hratchet, hsecrets⟩ := h.ratchet_of_accepts hcommutes hcounter haccepts
  obtain ⟨hupdate, hupdate'⟩ := h.update hratchet hsecrets
  -- the receiver stays where it is, or gets to the newest epoch
  have hviews : ∀ party, Function.update view message.sender.peer view' party = view party ∨
      Function.update view message.sender.peer view' party = epoch := by
    intro party
    by_cases hparty : party = message.sender.peer
    · subst hparty
      rw [Function.update_self]
      cases haccepts with
      | newChain => exact .inr rfl
      | skipped | existing => exact .inl rfl
    · rw [Function.update_of_ne hparty]
      exact .inl rfl
  -- whoever owns the epoch has got to it, before as after
  refine ⟨{ h with
    view_owner := ?_
    view_peer := ?_
    ratchet := hupdate
    secrets := hupdate' }, ?_⟩
  · rcases hviews epoch.owner with heq | heq
    · rw [heq, h.view_owner]
    · exact heq
  · rcases hviews epoch.owner.peer with heq | heq
    · rw [heq]
      exact h.view_peer
    · exact .inl heq
  · intro other
    rcases hviews other with heq | heq
    · exact heq ▸ List.suffix_rfl
    · rw [heq]
      exact h.view_suffix other

/-- What refusing one leaves. -/
theorem Agrees.refuse (h : s.Agrees config first epoch view) {ratchet' : Ratchet K}
    {buf : Bytes} {input inputLength maxPlaintextLength : ℕ} {isSequential : Bool}
    (hrun : (s.ratchet message.sender.peer).decrypt config buf input inputLength
      maxPlaintextLength isSequential = .ok (ratchet', none)) :
    ({ s with ratchet := Function.update s.ratchet message.sender.peer ratchet' } :
      System K).Agrees config first epoch view := by
  refine h.withRatchet ?_
  rw [Ratchet.unchanged_of_decrypt_none hrun]
  exact (h.ratchet message.sender.peer).withError ratchet'.lastError

/-- **A delivery keeps the agreement.** -/
theorem Agrees.deliver (h : s.Agrees config first epoch view) (hcommutes : config.curve.Commutes)
    {pre post : Bytes} {maxPlaintextLength : ℕ} {isSequential : Bool} (hmem : message ∈ s.sent)
    (hfails : s.FailsUnderWrongKey config message)
    (hrun : s.deliver config message pre post maxPlaintextLength isSequential = .ok s') :
    ∃ view', s'.Agrees config first epoch view' := by
  obtain ⟨⟨ratchet', result⟩, hdecrypt, hrun⟩ := Checked.bind_eq_ok.mp hrun
  cases result with
  | none =>
    obtain rfl := Except.ok.inj hrun
    exact ⟨view, h.refuse hdecrypt⟩
  | some plaintext =>
    obtain rfl := Except.ok.inj hrun
    obtain ⟨older, hsuffix, hmessage⟩ := h.sent message hmem
    obtain ⟨view', haccepts⟩ := h.accepts hsuffix hmessage hfails hdecrypt
    exact ⟨_, (h.accept hcommutes hmessage.counter haccepts).1⟩

/-! ## Runs -/

/-- What the shared secret gives: the first root key and the first chain
key. -/
def firstKeys (config : RatchetConfig K) (sharedSecret : Bytes) : K × K :=
  config.kdf.hkdfSha256 sharedSecret none config.kdfInfo.rootInfo

section Runs

variable {zeroKey : K} {sharedSecret : Bytes} {ratchetKey : Curve25519KeyPair}

/-- The ends agree at the start: Alice has a sender chain with her ratchet
key, and Bob the receiver chain that goes with it. -/
theorem agrees_start (hgenerated : config.curve.Generated ratchetKey) :
    (System.start config zeroKey sharedSecret ratchetKey).Agrees config
      (firstKeys config sharedSecret) [ratchetKey] (fun _ => [ratchetKey]) := by
  have hbob : Epoch.owner [ratchetKey] ≠ .bob := by simp [Epoch.owner, Party.peer]
  refine {
    ratchetKeys := rfl
    nodup := List.nodup_singleton _
    generated := by simpa using hgenerated
    view_owner := rfl
    view_peer := .inl rfl
    ratchet := ?_
    secrets := fun _ => rfl
    sent := by simp [System.start, Record.start] }
  intro party
  cases party with
  | alice => exact {
      nonempty := List.cons_ne_nil _ _
      root := rfl
      sender := fun _ => ⟨_, rfl, ratchetKey, [], 0, rfl, by decide, rfl⟩
      noSender := fun hne => absurd rfl hne
      receivers := .nil
      distinct := List.nodup_nil
      skipped := by simp [System.start, Ratchet.initialiseAsAlice, Ratchet.new]
      behind := by simp [System.start, Ratchet.initialiseAsAlice, Ratchet.new] }
  | bob => exact {
      nonempty := List.cons_ne_nil _ _
      root := rfl
      sender := fun heq => absurd heq hbob
      noSender := fun _ => rfl
      receivers := by
        rw [Epoch.theirs_of_owner_ne hbob]
        exact .cons ⟨ratchetKey, [], 0, rfl, by decide, rfl⟩ .nil
      distinct := List.nodup_singleton _
      skipped := by simp [System.start, Ratchet.initialiseAsBob, Ratchet.new]
      behind := by simp [System.start, Ratchet.initialiseAsBob, Ratchet.new] }

/-- **The ends agree throughout a run.** -/
theorem agrees_of_run (hcommutes : config.curve.Commutes) (hlawful : config.ratchetCipher.Lawful)
    (hgenerated : config.curve.Generated ratchetKey)
    (hrun : Run (System.step config) (System.Ideal config)
      (System.start config zeroKey sharedSecret ratchetKey) s) :
    ∃ (epoch : Epoch) (view : Party → Epoch),
      s.Agrees config (firstKeys config sharedSecret) epoch view := by
  refine hrun.invariant (P := fun s => ∃ (epoch : Epoch) (view : Party → Epoch),
    s.Agrees config (firstKeys config sharedSecret) epoch view) ⟨_, _, agrees_start hgenerated⟩ ?_
  rintro s e s' ⟨epoch, view, h⟩ ⟨hhonest, hfails⟩ hstep
  cases e with
  | encrypt party plaintext random buf output maxOutputLength =>
    obtain ⟨epoch', view', h', -⟩ := h.encrypt hlawful hhonest hstep
    exact ⟨epoch', view', h'⟩
  | deliver message pre post maxPlaintextLength isSequential =>
    obtain ⟨view', h'⟩ := h.deliver hcommutes hhonest hfails hstep
    exact ⟨epoch, view', h'⟩
  | clearError party =>
    obtain rfl := Except.ok.inj hstep
    exact ⟨epoch, view, h.withRatchet ((h.ratchet party).withError _)⟩

end Runs

/-! ## Messages that can be read -/

/-- The first ratchet key was made after the second. -/
def Newer (s : System K) (ratchetKey ratchetKey' : Curve25519PublicKey) : Prop :=
  ∃ older, ratchetKey :: older <:+ s.ratchetKeys ∧ ratchetKey' ∈ older

instance (s : System K) (ratchetKey ratchetKey' : Curve25519PublicKey) :
    Decidable (s.Newer ratchetKey ratchetKey') :=
  decidable_of_iff
    (∃ keys ∈ s.ratchetKeys.tails, keys.head? = some ratchetKey ∧ ratchetKey' ∈ keys.tail) (by
    constructor
    · rintro ⟨keys, hkeys, hhead, hmem⟩
      obtain ⟨older, rfl⟩ := List.head?_eq_some_iff.mp hhead
      exact ⟨older, (List.mem_tails _ _).mp hkeys, hmem⟩
    · rintro ⟨older, hsuffix, hmem⟩
      exact ⟨_, (List.mem_tails _ _).mpr hsuffix, rfl, hmem⟩)

/-- **The receiver can have the key of the message**: its ratchet key is
newer than all the stored chains and not too many messages were missed; or
its chain is stored, and not past the message nor too far behind it, or its
key was skipped and kept. -/
def CanDecrypt (s : System K) (message : Sent) : Prop :=
  let ratchet := s.ratchet message.sender.peer
  ((∀ chain ∈ ratchet.receiverChains.toList, s.Newer message.ratchetKey chain.ratchetKey) ∧
    message.counter ≤ MAX_MESSAGE_GAP) ∨
  ∃ chain ∈ ratchet.receiverChains.toList, chain.ratchetKey = message.ratchetKey ∧
    ((chain.chainKey.index ≤ message.counter ∧
        message.counter ≤ chain.chainKey.index + MAX_MESSAGE_GAP) ∨
      ∃ skipped ∈ ratchet.skippedMessageKeys.toList, skipped.ratchetKey = message.ratchetKey ∧
        skipped.messageKey.index = message.counter)

instance (s : System K) (message : Sent) : Decidable (s.CanDecrypt message) :=
  inferInstanceAs (Decidable (_ ∨ _))

section Decrypt

variable (h : s.Agrees config first epoch view) (hsuffix : older <:+ epoch)
  (hmessage : message.Follows config first older)

include h hsuffix hmessage

/-- A message with a ratchet key newer than the stored chains is of the
epoch that the receiver gets to next. -/
theorem Agrees.not_suffix_of_newer
    (hnewer : ∀ chain ∈ (s.ratchet message.sender.peer).receiverChains.toList,
      s.Newer message.ratchetKey chain.ratchetKey) :
    ¬ older <:+ view message.sender.peer := by
  intro hin
  obtain ⟨key, rest, rfl, hkey⟩ := hmessage.ratchetKey
  have hmem : key :: rest ∈ Epoch.theirs message.sender.peer (view message.sender.peer) := by
    refine Epoch.mem_theirs.mpr ⟨hin, List.cons_ne_nil _ _, ?_⟩
    rw [hmessage.owner, Party.peer_peer]
  -- the chain of the peer's last epoch is stored
  obtain ⟨newest, others, htheirs⟩ := List.exists_cons_of_ne_nil (List.ne_nil_of_mem hmem)
  have hreceivers := (h.ratchet message.sender.peer).receivers
  rw [htheirs, List.take_succ_cons] at hreceivers
  obtain ⟨chain, chains, hfollows, -, hchains⟩ := List.forall₂_cons_right_iff.mp hreceivers
  obtain ⟨key', rest', index, rfl, -, rfl⟩ := hfollows
  obtain ⟨post, hpost, hnew⟩ := hnewer _ (hchains ▸ List.mem_cons_self)
  have hlast : key' :: rest' <:+ epoch := by
    have hmem' : key' :: rest' ∈ Epoch.theirs message.sender.peer (view message.sender.peer) :=
      htheirs ▸ List.mem_cons_self
    exact (Epoch.mem_theirs.mp hmem').1.trans (h.view_suffix _)
  have hlast' : key'.publicKey :: rest'.map (·.publicKey) <:+ s.ratchetKeys := by
    rw [← h.ratchetKeys]
    exact hlast.map (·.publicKey)
  have hnodup : s.ratchetKeys.Nodup := h.ratchetKeys ▸ h.nodup
  refine hnodup.not_mem_of_suffix hpost hlast' hnew ?_
  rw [hkey]
  exact List.mem_map_of_mem
    ((Epoch.suffix_of_theirs_eq_cons htheirs hmem).subset List.mem_cons_self)

/-- Where the receiver can have the key, the message is decrypted. -/
theorem Agrees.decrypt_eq_some (hcommutes : config.curve.Commutes) (hcan : s.CanDecrypt message)
    {pre post : Bytes} {maxPlaintextLength : ℕ}
    (hroom : plaintextRoom config message.plaintext ≤ maxPlaintextLength) :
    ∃ ratchet', (s.ratchet message.sender.peer).decrypt config (pre ++ (message.bytes ++ post))
      pre.length message.bytes.length maxPlaintextLength false =
        .ok (ratchet', some message.plaintext) := by
  have hcounter : message.counter < 2 ^ 32 := Nat.lt_of_succ_lt hmessage.counter
  obtain ⟨reader, hread, hopens⟩ := hmessage.sealed_.readAs hcounter pre post
  obtain ⟨hopen, hdecrypt⟩ := hopens maxPlaintextLength hroom
  have hvalue := hread.counter_eq
  rw [hdecrypt]
  rcases hcan with ⟨hnewer, hgap⟩ | ⟨chain, hchain, hkey, hcase⟩
  · -- a new chain, under the key that the sender made it with
    have hnot := h.not_suffix_of_newer hsuffix hmessage hnewer
    obtain ⟨key, rfl, heq, hkey, howner⟩ := h.next_of_not_suffix hsuffix hmessage hnot
    obtain ⟨chain, hchain, previous, rest, index, hview, -, rfl⟩ :=
      (h.ratchet message.sender.peer).sender howner
    have hgenerated := h.generated
    rw [heq, hview] at hgenerated
    have hmade : (createChainKey config (s.ratchet message.sender.peer).rootKey previous
        message.ratchetKey).2 = Epoch.chainKey config first older 0 := by
      rw [(h.ratchet message.sender.peer).root, hview, hkey, heq, hview,
        Epoch.createChainKey_comm hcommutes (hgenerated key (by simp)) (hgenerated previous (by simp))]
    refine Ratchet.decryptReader_newChain false hread.loaded ?_ hchain (hvalue ▸ hgap) ?_
    · -- its ratchet key is newer than all that are stored
      intro other hother hsame
      obtain ⟨post, hpost, hin⟩ := hnewer other hother
      have hnodup : s.ratchetKeys.Nodup := h.ratchetKeys ▸ h.nodup
      rw [hsame] at hin
      exact (List.nodup_cons.mp (hnodup.sublist hpost.sublist)).1 hin
    · rw [hmade, hvalue, Epoch.chainKey, Ratchet.keysAhead_chainKeyAt _ (Nat.zero_le _) hcounter]
      exact hopen message.counter
  · have hmem : ∃ chain ∈ (s.ratchet message.sender.peer).receiverChains.toList,
        chain.ratchetKey = message.ratchetKey := ⟨chain, hchain, hkey⟩
    -- there is one chain with the ratchet key
    have honly : ∀ other ∈ (s.ratchet message.sender.peer).receiverChains.toList,
        other.ratchetKey = message.ratchetKey → other = chain := by
      intro other hother hsame
      exact List.inj_on_of_nodup_map (h.ratchet _).distinct hother hchain (hsame.trans hkey.symm)
    rcases hcase with ⟨hle, hgap⟩ | ⟨skipped, hskipped, hskippedKey, hindex⟩
    · -- its chain has not got to the message yet
      refine Ratchet.decryptReader_existing hmem ?_
      intro other hother hsame
      obtain rfl := honly other hother hsame
      obtain ⟨index, heq⟩ := h.receiver_eq hsuffix hmessage hother hsame
      have hchainKey : other.chainKey = Epoch.chainKey config first older index := by rw [heq]
      rw [hchainKey, Epoch.chainKey_index] at hle hgap
      rw [hchainKey]
      refine ⟨hvalue ▸ hle, hvalue ▸ hgap, ?_⟩
      rw [hvalue, Epoch.chainKey, Ratchet.keysAhead_chainKeyAt _ hle hcounter]
      exact hopen message.counter
    · -- its chain is past the message, and whatever key goes with it opens it
      have hbehind : message.counter < chain.chainKey.index := by
        rw [← hindex]
        exact (h.ratchet _).behind skipped hskipped chain hchain (hkey.trans hskippedKey.symm)
      obtain ⟨found, hfound⟩ := Ratchet.trySkippedMessageKeys_of_mem 0
        ⟨skipped, hskipped, hvalue.trans hindex.symm, hskippedKey⟩
        (fun other hother hmatch => by
          obtain ⟨index, rfl⟩ := h.skipped_eq hsuffix hmessage hother hmatch.2
          obtain rfl : message.counter = index := hvalue.symm.trans hmatch.1
          exact hopen message.counter)
      obtain ⟨ratchet', hreader⟩ := Ratchet.decryptReader_skipped false hmem
        (fun other hother hsame => by
          rw [honly other hother hsame, hvalue]
          exact hbehind) hfound
      exact ⟨ratchet', hreader⟩

end Decrypt

/-- **Every message that the receiver can have the key of is decrypted to
what was encrypted**, throughout every run, wherever it is delivered. -/
theorem decrypt_of_canDecrypt (hcommutes : config.curve.Commutes)
    (hlawful : config.ratchetCipher.Lawful) {zeroKey : K} {sharedSecret : Bytes}
    {ratchetKey : Curve25519KeyPair} (hgenerated : config.curve.Generated ratchetKey)
    (hrun : Run (System.step config) (System.Ideal config)
      (System.start config zeroKey sharedSecret ratchetKey) s)
    (hmem : message ∈ s.sent) (hcan : s.CanDecrypt message) {pre post : Bytes}
    {maxPlaintextLength : ℕ}
    (hroom : plaintextRoom config message.plaintext ≤ maxPlaintextLength) :
    ∃ ratchet', (s.ratchet message.sender.peer).decrypt config (pre ++ (message.bytes ++ post))
      pre.length message.bytes.length maxPlaintextLength false =
        .ok (ratchet', some message.plaintext) := by
  obtain ⟨epoch, view, h⟩ := agrees_of_run hcommutes hlawful hgenerated hrun
  obtain ⟨older, hsuffix, hmessage⟩ := h.sent message hmem
  exact h.decrypt_eq_some hsuffix hmessage hcommutes hcan hroom

/-! ### A run out of order -/

/-- Alice sends three messages and Bob gets the third. He answers twice, she gets
his second answer, and sends two more. -/
def outOfOrderScript : List (System SharedKey → Event) :=
  [.encrypting .alice 0, .encrypting .alice 1, .encrypting .alice 2, .delivering 2,
    .encrypting .bob 3, .encrypting .bob 4, .delivering 4, .encrypting .alice 5,
    .encrypting .alice 6]

/-- The two ends before it, over keys of 32 bytes. -/
def outOfOrderStart : System SharedKey :=
  System.start Primitives.mixing.ratchetConfig (FixedBytes.zero _) (List.replicate 96 7)
    (Curve25519.xor.generateKey (.zero _))

/-- And after it. -/
def outOfOrder : System SharedKey :=
  Run.play (System.step Primitives.mixing.ratchetConfig) outOfOrderScript outOfOrderStart

/-- What the run comes to, evaluated once: five messages were not accepted, and
the receiver can have the key of each. -/
theorem outOfOrder_evaluates :
    Run.Plays (System.step Primitives.mixing.ratchetConfig)
      (System.Plain Primitives.mixing.ratchetConfig) outOfOrderScript outOfOrderStart ∧
    outOfOrder.sent.length = 7 ∧
    ∀ n ∈ [0, 1, 3, 5, 6],
      outOfOrder.sentAt n ∈ outOfOrder.sent ∧ outOfOrder.CanDecrypt (outOfOrder.sentAt n) ∧
      plaintextRoom Primitives.mixing.ratchetConfig (outOfOrder.sentAt n).plaintext ≤ 16 := by
  decide +kernel

theorem run_outOfOrder :
    Run (System.step Primitives.mixing.ratchetConfig)
      (System.Ideal Primitives.mixing.ratchetConfig) outOfOrderStart outOfOrder :=
  outOfOrder_evaluates.1.run (ideal_of_plain _) .start

/-- Each of them is decrypted: skipped ones at both ends, and those of a chain
that Bob does not have yet. -/
theorem decrypt_of_canDecrypt_outOfOrder :
    outOfOrder.sent.length = 7 ∧ ∀ n ∈ [0, 1, 3, 5, 6], ∃ ratchet',
      (outOfOrder.ratchet (outOfOrder.sentAt n).sender.peer).decrypt
        Primitives.mixing.ratchetConfig ([] ++ ((outOfOrder.sentAt n).bytes ++ []))
        0 (outOfOrder.sentAt n).bytes.length 16 false =
        .ok (ratchet', some (outOfOrder.sentAt n).plaintext) := by
  obtain ⟨-, hlength, hcans⟩ := outOfOrder_evaluates
  refine ⟨hlength, fun n hn => ?_⟩
  obtain ⟨hmem, hcan, hroom⟩ := hcans n hn
  exact decrypt_of_canDecrypt Curve25519.xor_commutes Primitives.mixing_lawful
    (Curve25519.xor.generated_generateKey _) run_outOfOrder hmem hcan hroom

end System

end Olm
