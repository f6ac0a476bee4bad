import Olm.Conversation.Delivery

/-!
# No message is accepted twice

What a ratchet has accepted it cannot accept again: the chain of the message
is past it, and its key is not among the skipped ones. Later jumps store
only keys that the chain has not reached before, a chain that was evicted
is not started again, since its key is not the peer's next one, and under
the key of a new chain the message does not open.
-/

namespace Olm

variable {K : Type} {config : RatchetConfig K} {first : K × K}

namespace Ratchet

/-- **What an end cannot accept again**, having accepted `accepted` and got
to the epoch `view`. -/
structure Spent (party : Party) (ratchet : Ratchet K) (view : Epoch)
    (accepted : List (Curve25519PublicKey × ℕ)) : Prop where
  distinct : (ratchet.skippedMessageKeys.toList.map SkippedMessageKey.name).Nodup
  known : ∀ message ∈ accepted,
    ∃ key older, key :: older ∈ view.theirs party ∧ message.1 = key.publicKey
  past : ∀ message ∈ accepted, ∀ chain ∈ ratchet.receiverChains.toList,
    chain.ratchetKey = message.1 → message.2 < chain.chainKey.index
  used : ∀ message ∈ accepted, ∀ skipped ∈ ratchet.skippedMessageKeys.toList, skipped.name ≠ message

variable {party : Party} {ratchet ratchet' : Ratchet K} {view view' : Epoch}
  {accepted : List (Curve25519PublicKey × ℕ)}

/-- The end gets to a later epoch. -/
theorem Spent.mono (h : ratchet.Spent party view accepted) (hview : view <:+ view') :
    ratchet.Spent party view' accepted := by
  refine ⟨h.distinct, ?_, h.past, h.used⟩
  intro message hmem
  obtain ⟨key, older, htheirs, hkey⟩ := h.known message hmem
  obtain ⟨hsuffix, hne, howner⟩ := Epoch.mem_theirs.mp htheirs
  exact ⟨key, older, Epoch.mem_theirs.mpr ⟨hsuffix.trans hview, hne, howner⟩, hkey⟩

/-- Only the receiver chains and the skipped keys matter. -/
theorem Spent.frame (h : ratchet.Spent party view accepted)
    (hreceivers : ratchet'.receiverChains = ratchet.receiverChains)
    (hskipped : ratchet'.skippedMessageKeys = ratchet.skippedMessageKeys) :
    ratchet'.Spent party view accepted := by
  refine ⟨?_, h.known, ?_, ?_⟩
  · rw [hskipped]
    exact h.distinct
  · rw [hreceivers]
    exact h.past
  · rw [hskipped]
    exact h.used

/-! ## Accepting a message -/

/-- A chain moves past a message. -/
theorem Spent.advanceReceiverChain (h : ratchet.Spent party view accepted)
    (hagrees : ratchet.Agrees config first party view) {place : ℕ} {chain : ReceiverChain K}
    {counter : ℕ} (hplace : ratchet.receiverChains.toList[place]? = some chain)
    (hle : chain.chainKey.index ≤ counter) (hcounter : counter + 1 < 2 ^ 32) :
    (ratchet.advanceReceiverChain config place chain counter).Spent party view
      ((chain.ratchetKey, counter) :: accepted) := by
  have hchain := List.mem_of_getElem? hplace
  obtain ⟨epoch, htheirs, key, rest, index, rfl, -, rfl⟩ := hagrees.mem_receivers hchain
  rw [Epoch.chainKey_index] at hle
  obtain ⟨skipped', hadvance, hskipped'⟩ := advanceReceiverChain_chainKeyAt config ratchet place
    key.publicKey (Epoch.keys config first (key :: rest)).2 hle hcounter
  obtain ⟨moved, hmoved, hname, hahead⟩ : ∃ moved : ReceiverChain K,
      moved = { ratchetKey := key.publicKey
                chainKey := chainKeyAt config (Epoch.keys config first (key :: rest)).2
                  (counter + 1) } ∧
      moved.ratchetKey = key.publicKey ∧ moved.chainKey.index = counter + 1 := ⟨_, rfl, rfl, rfl⟩
  have hbehind : ∀ skipped ∈ ratchet.skippedMessageKeys.toList,
      skipped.ratchetKey = key.publicKey → skipped.messageKey.index < index :=
    fun skipped hmem hkey => hagrees.behind skipped hmem _ hchain hkey.symm
  -- a skipped key is one of those before, or was jumped over
  have hcases : ∀ skipped ∈ skipped'.toList,
      skipped ∈ ratchet.skippedMessageKeys.toList ∨
      (skipped.ratchetKey = key.publicKey ∧ index ≤ skipped.messageKey.index ∧
        skipped.messageKey.index < counter) := by
    intro skipped hmem
    rw [hskipped'] at hmem
    rcases List.mem_append.mp (List.mem_of_mem_take hmem) with hmem | hmem
    · obtain ⟨i, hi, hlt, rfl⟩ := (mem_skippedKeysOf config).mp hmem
      exact .inr ⟨rfl, hi, hlt⟩
    · exact .inl hmem
  have hpast : ∀ message ∈ accepted, message.1 = key.publicKey → message.2 < index :=
    fun message hmem hkey => h.past message hmem _ hchain hkey.symm
  simp only [Epoch.chainKey, hadvance, ← hmoved]
  -- the new skipped keys lie between the old index and the counter, the old ones before it
  refine ⟨?_, ?_, ?_, ?_⟩
  · rw [hskipped']
    refine List.Nodup.sublist ((List.take_sublist _ _).map _) ?_
    rw [List.map_append, List.nodup_append]
    refine ⟨nodup_skippedKeysOf config _ _ _ _, h.distinct, ?_⟩
    rintro name hnew name' hold rfl
    obtain ⟨skipped, hskipped, rfl⟩ := List.mem_map.mp hnew
    obtain ⟨i, hi, -, rfl⟩ := (mem_skippedKeysOf config).mp hskipped
    obtain ⟨skipped, hskipped, hname⟩ := List.mem_map.mp hold
    obtain ⟨hkey, hindex⟩ := Prod.mk.inj hname
    have hlt := hbehind skipped hskipped hkey
    dsimp only at hindex
    omega
  · intro message hmem
    rcases List.mem_cons.mp hmem with rfl | hmem
    · exact ⟨key, rest, htheirs, rfl⟩
    · exact h.known message hmem
  · intro message hmem other hother hkey
    rw [BoundedList.toList_set] at hother
    by_cases hsame : other.ratchetKey = key.publicKey
    · -- then it is the chain that moved
      obtain rfl := List.eq_of_mem_set hagrees.distinct hplace hname hother hsame
      rw [hahead]
      rcases List.mem_cons.mp hmem with rfl | hmem
      · exact Nat.lt_succ_self counter
      · have hlt := hpast message hmem (hkey.symm.trans hsame)
        exact Nat.lt_succ_of_lt (lt_of_lt_of_le hlt hle)
    · rcases List.mem_or_eq_of_mem_set hother with hother | rfl
      · rcases List.mem_cons.mp hmem with rfl | hmem
        · exact absurd hkey hsame
        · exact h.past message hmem other hother hkey
      · exact absurd hname hsame
  · intro message hmem skipped hskipped hname
    rcases hcases skipped hskipped with hold | ⟨hkey, hindex, hlt⟩
    · rcases List.mem_cons.mp hmem with rfl | hmem
      · obtain ⟨hkey, hindex⟩ := Prod.mk.inj hname
        -- an old skipped key is behind the index, and the message is not
        have hlt := hbehind skipped hold hkey
        omega
      · exact h.used message hmem skipped hold hname
    · rcases List.mem_cons.mp hmem with rfl | hmem
      · have heq := (Prod.mk.inj hname).2
        omega
      · subst hname
        exact absurd hindex (Nat.not_le.mpr (hpast _ hmem hkey))

/-- A skipped key is used up. -/
theorem Spent.eraseSkipped (h : ratchet.Spent party view accepted)
    (hagrees : ratchet.Agrees config first party view) {place : ℕ} {key : SkippedMessageKey K}
    (hplace : ratchet.skippedMessageKeys.toList[place]? = some key) :
    ({ ratchet with
      skippedMessageKeys := ratchet.skippedMessageKeys.eraseIdx place } : Ratchet K).Spent party view
      (key.name :: accepted) := by
  have hkey := List.mem_of_getElem? hplace
  refine ⟨?_, ?_, ?_, ?_⟩
  · exact h.distinct.sublist ((List.eraseIdx_sublist _ _).map _)
  · intro message hmem
    rcases List.mem_cons.mp hmem with rfl | hmem
    · obtain ⟨epoch, htheirs, key', rest, index, rfl, rfl⟩ := hagrees.skipped key hkey
      exact ⟨key', rest, htheirs, rfl⟩
    · exact h.known message hmem
  · intro message hmem chain hchain hname
    rcases List.mem_cons.mp hmem with rfl | hmem
    · exact hagrees.behind key hkey chain hchain hname
    · exact h.past message hmem chain hchain hname
  · intro message hmem skipped hskipped hname
    rcases List.mem_cons.mp hmem with rfl | hmem
    · -- there was one key of that name, and it is gone
      exact List.name_ne_of_mem_eraseIdx h.distinct hplace hskipped hname
    · exact h.used message hmem skipped (List.mem_of_mem_eraseIdx hskipped) hname

/-- A chain is started, with a key that none of the peer's epochs before had. -/
theorem Spent.startReceiverChain (h : ratchet.Spent party view accepted)
    {senderChain : SenderChain K} {key : Curve25519KeyPair}
    (hnodup : ((key :: view).map (·.publicKey)).Nodup) :
    (ratchet.startReceiverChain config senderChain key.publicKey).1.Spent party (key :: view)
      accepted := by
  have hmono := h.mono (List.suffix_cons key view)
  refine ⟨hmono.distinct, hmono.known, ?_, hmono.used⟩
  intro message hmem chain hchain hname
  rcases BoundedList.mem_push hchain with rfl | hchain
  · obtain ⟨key', older, htheirs, hkey⟩ := h.known message hmem
    obtain ⟨hsuffix, -, -⟩ := Epoch.mem_theirs.mp htheirs
    have hname' : key.publicKey = key'.publicKey := hname.trans hkey
    rw [List.map_cons, List.nodup_cons, hname'] at hnodup
    exact absurd (List.mem_map_of_mem (hsuffix.subset List.mem_cons_self)) hnodup.1
  · exact h.past message hmem chain hchain hname

/-- **What is accepted is used up**, in each of the three ways. -/
theorem Spent.accept {s : System K} {epoch : Epoch} {view : Party → Epoch} {message : Sent}
    (h : (s.ratchet party).Spent party (view party) accepted)
    (hagrees : s.Agrees config first epoch view) (hcommutes : config.curve.Commutes)
    (hcounter : message.counter + 1 < 2 ^ 32)
    (haccepts : Accepts config party (s.ratchet party) epoch (view party) message ratchet' view') :
    ratchet'.Spent party view' ((message.ratchetKey, message.counter) :: accepted) := by
  have hratchet := hagrees.ratchet party
  cases haccepts with
  | newChain senderChain rest key hnew hsender howner hepoch hkey =>
    have hgenerated : ∀ key' ∈ key :: view party, config.curve.Generated key' :=
      hepoch ▸ hagrees.generated
    have hnodup : ((key :: view party).map (·.publicKey)).Nodup := hepoch ▸ hagrees.nodup
    obtain ⟨hstarted, hplace, hindex⟩ := hratchet.startReceiverChain hcommutes howner hsender
      hgenerated hnodup
    rw [hepoch, hkey]
    exact (h.startReceiverChain hnodup).advanceReceiverChain hstarted hplace
      (hindex ▸ Nat.zero_le _) hcounter
  | skipped chain place key hchain hkey hbehind hplace hindex hskipped =>
    have hname : key.name = (message.ratchetKey, message.counter) := by
      rw [SkippedMessageKey.name, hskipped, hindex]
    exact hname ▸ h.eraseSkipped hratchet hplace
  | existing place chain hplace hkey hahead =>
    exact hkey ▸ h.advanceReceiverChain hratchet hplace hahead hcounter

end Ratchet

/-! ## Runs -/

namespace System

variable {s s' : System K} {epoch older : Epoch} {view : Party → Epoch} {message : Sent}

/-- **How the ends stand**, and what they cannot accept again. -/
def Stands (config : RatchetConfig K) (first : K × K) (s : System K) : Prop :=
  ∃ (epoch : Epoch) (view : Party → Epoch), s.Agrees config first epoch view ∧
    ∀ party, (s.ratchet party).Spent party (view party) (s.accepted party)

/-- One event. -/
theorem Stands.step (h : s.Stands config first) (hcommutes : config.curve.Commutes)
    (hlawful : config.ratchetCipher.Lawful) {e : Event} (hideal : s.Ideal config e)
    (hstep : s.step config e = .ok s') : s'.Stands config first := by
  obtain ⟨epoch, view, hagrees, hspent⟩ := h
  obtain ⟨hhonest, hfails⟩ := hideal
  cases e with
  | encrypt party plaintext random buf output maxOutputLength =>
    -- encrypting touches neither receiver chains nor skipped keys
    obtain ⟨epoch', view', hagrees', hsuffix⟩ := hagrees.encrypt hlawful hhonest hstep
    obtain ⟨haccepted, hframe⟩ := frame_of_encrypt hstep
    refine ⟨epoch', view', hagrees', fun other => ?_⟩
    rw [haccepted]
    exact ((hspent other).mono (hsuffix other)).frame (hframe other).1 (hframe other).2
  | deliver message pre post maxPlaintextLength isSequential =>
    obtain ⟨⟨ratchet', result⟩, hdecrypt, hstep⟩ := Checked.bind_eq_ok.mp hstep
    cases result with
    | none =>
      obtain rfl := Except.ok.inj hstep
      refine ⟨epoch, view, hagrees.refuse hdecrypt, fun other => ?_⟩
      -- refused: the receiver is as it was but for its error
      have hsame := Ratchet.unchanged_of_decrypt_none hdecrypt
      by_cases hother : other = message.sender.peer
      · subst hother
        dsimp only
        rw [Function.update_self, hsame]
        exact (hspent _).frame rfl rfl
      · dsimp only
        rw [Function.update_of_ne hother]
        exact hspent other
    | some plaintext =>
      obtain rfl := Except.ok.inj hstep
      -- accepted: the message is now spent for the receiver
      obtain ⟨older, hsuffix, hmessage⟩ := hagrees.sent message hhonest
      obtain ⟨view', haccepts⟩ := hagrees.accepts hsuffix hmessage hfails hdecrypt
      refine ⟨epoch, _, (hagrees.accept hcommutes hmessage.counter haccepts).1, fun other => ?_⟩
      by_cases hother : other = message.sender.peer
      · subst hother
        dsimp only [Record.decrypted]
        rw [Function.update_self, Function.update_self, Function.update_self]
        exact (hspent _).accept hagrees hcommutes hmessage.counter haccepts
      · dsimp only [Record.decrypted]
        rw [Function.update_of_ne hother, Function.update_of_ne hother, Function.update_of_ne hother]
        exact hspent other
  | clearError party =>
    obtain rfl := Except.ok.inj hstep
    refine ⟨epoch, view, hagrees.withRatchet ((hagrees.ratchet party).withError _), fun other => ?_⟩
    by_cases hother : other = party
    · subst hother
      dsimp only
      rw [Function.update_self]
      exact (hspent _).frame rfl rfl
    · dsimp only
      rw [Function.update_of_ne hother]
      exact hspent other

theorem stands_start {zeroKey : K} {sharedSecret : Bytes} {ratchetKey : Curve25519KeyPair}
    (hgenerated : config.curve.Generated ratchetKey) :
    (System.start config zeroKey sharedSecret ratchetKey).Stands config
      (firstKeys config sharedSecret) := by
  refine ⟨_, _, agrees_start hgenerated, fun party => ?_⟩
  have hnone : (System.start config zeroKey sharedSecret ratchetKey).accepted party = [] := rfl
  have hskipped : ((System.start config zeroKey sharedSecret ratchetKey).ratchet
      party).skippedMessageKeys.toList = [] := by cases party <;> rfl
  rw [hnone]
  refine ⟨?_, by simp, by simp, by simp⟩
  rw [hskipped]
  exact List.nodup_nil

/-- **They stand so throughout a run.** -/
theorem stands_of_run (hcommutes : config.curve.Commutes) (hlawful : config.ratchetCipher.Lawful)
    {zeroKey : K} {sharedSecret : Bytes} {ratchetKey : Curve25519KeyPair}
    (hgenerated : config.curve.Generated ratchetKey)
    (hrun : Run (System.step config) (System.Ideal config)
      (System.start config zeroKey sharedSecret ratchetKey) s) :
    s.Stands config (firstKeys config sharedSecret) :=
  hrun.invariant (stands_start hgenerated)
    (fun _ _ _ h hideal hstep => h.step hcommutes hlawful hideal hstep)

/-! ## An accepted message, delivered again -/

/-- **An accepted message is not accepted again.** -/
theorem Agrees.decrypt_eq_none (h : s.Agrees config first epoch view)
    (hspent : (s.ratchet message.sender.peer).Spent message.sender.peer
      (view message.sender.peer) (s.accepted message.sender.peer))
    (hsuffix : older <:+ epoch) (hmessage : message.Follows config first older)
    (hfails : s.FailsUnderWrongKey config message)
    (haccepted : (message.ratchetKey, message.counter) ∈ s.accepted message.sender.peer)
    (pre post : Bytes) (maxPlaintextLength : ℕ) (isSequential : Bool) :
    ∃ ratchet', (s.ratchet message.sender.peer).decrypt config (pre ++ (message.bytes ++ post))
      pre.length message.bytes.length maxPlaintextLength isSequential = .ok (ratchet', none) := by
  have hcounter : message.counter < 2 ^ 32 := Nat.lt_of_succ_lt hmessage.counter
  by_cases hroom : plaintextRoom config message.plaintext ≤ maxPlaintextLength
  · obtain ⟨reader, hread, hopens⟩ := hmessage.sealed_.readAs hcounter pre post
    rw [(hopens maxPlaintextLength hroom).2]
    have hvalue := hread.counter_eq
    by_cases hstored : ∃ chain ∈ (s.ratchet message.sender.peer).receiverChains.toList,
        chain.ratchetKey = message.ratchetKey
    · -- its chain is past it, and its key is not among the skipped ones
      refine Ratchet.decryptReader_skipped isSequential hstored ?_
        (Ratchet.trySkippedMessageKeys_of_not_mem 0 ?_)
      · intro chain hchain hkey
        rw [hvalue]
        exact hspent.past _ haccepted chain hchain hkey
      · rintro skipped hskipped ⟨hindex, hkey⟩
        refine hspent.used _ haccepted skipped hskipped ?_
        rw [SkippedMessageKey.name, hkey, ← hindex, hvalue]
    · -- its chain was pushed out, and a new one would be started
      have hnew : ∀ chain ∈ (s.ratchet message.sender.peer).receiverChains.toList,
          chain.ratchetKey ≠ message.ratchetKey :=
        fun chain hchain hkey => hstored ⟨chain, hchain, hkey⟩
      cases hsender : (s.ratchet message.sender.peer).senderChain.toList with
      | nil => exact Ratchet.decryptReader_newChain_none isSequential hnew (.inl hsender)
      | cons senderChain rest =>
        by_cases hgap : MAX_MESSAGE_GAP < message.counter
        · exact Ratchet.decryptReader_newChain_none isSequential hnew (.inr (hvalue ▸ hgap))
        · -- the new chain would be of a later epoch than the message
          have hne : config.curve.sharedSecret senderChain.ratchetKey message.ratchetKey ::
              s.secrets message.sender.peer ≠ message.secrets := by
            intro heq
            obtain ⟨key, rest', htheirs, hkey⟩ := hspent.known _ haccepted
            obtain ⟨hin, -, -⟩ := Epoch.mem_theirs.mp htheirs
            obtain ⟨key', rest'', rfl, hkey'⟩ := hmessage.ratchetKey
            have hsame := Epoch.eq_of_suffix_of_publicKey h.nodup
              (hin.trans (h.view_suffix _)) hsuffix (hkey.symm.trans hkey')
            rw [hsame] at hin
            have hlength := congrArg List.length heq
            rw [h.secrets, hmessage.secrets, List.length_cons, Epoch.secrets_length,
              Epoch.secrets_length] at hlength
            have hle := hin.length_le
            rw [List.length_cons] at hle hlength
            omega
          refine Ratchet.decryptReader_newChain isSequential hread.loaded hnew hsender
            (hvalue ▸ Nat.le_of_not_lt hgap) ?_
          rw [createChainKey_index, hvalue, Ratchet.keysAhead_chainKeyAt _ (Nat.zero_le _) hcounter]
          exact hfails senderChain rest hsender hnew hne pre post reader message.counter
            maxPlaintextLength hread.decoded
  · rw [hmessage.sealed_.decrypt_of_small hcounter _ _ (Nat.lt_of_not_le hroom)]
    exact ⟨_, rfl⟩

end System

end Olm
