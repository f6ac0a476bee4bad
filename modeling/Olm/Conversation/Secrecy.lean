import Olm.Conversation.Keys
import Olm.Conversation.Replay

/-!
# What a captured ratchet gives away

Every key in the memory of an end is the value of a term, whose name follows
from the record of the run (`Remembers`). Someone captures the ratchets of
both ends, and learns Diffie–Hellman outputs, but not the secret that the
conversation started from. Of the messages sent so far that exposes the terms
of those that their receiver has not read and could, and no others
(`exposed_iff`): not what was accepted, and not what an end has sent itself.
Of the messages sent later, those whose chain comes after an output that was
not learned stay closed, even if the secret is learned (`not_exposed_after`).
-/

namespace Olm

variable {K : Type}

/-! ## The keys in memory -/

/-- The outputs behind the chain of a ratchet key, of those behind an end's root
key: as many as there are ratchet keys before it. -/
def Record.secretsBehind (record : Record) (party : Party) (ratchetKey : Curve25519PublicKey) :
    List Curve25519SharedSecret :=
  let older := (record.ratchetKeys.dropWhile (· ≠ ratchetKey)).length - 1
  (record.secrets party).drop ((record.secrets party).length - older)

/-- **The keys in the memory of an end**, by their names: the root key, and the
keys of the sender chain, the receiver chains and the skipped messages. -/
inductive System.Remembers (s : System K) (party : Party) : KeyName → K → Prop
  | root : Remembers s party (.root (s.secrets party)) (s.ratchet party).rootKey
  | sender (chain : SenderChain K) (h : chain ∈ (s.ratchet party).senderChain.toList) :
      Remembers s party (.chain (s.secrets party) chain.chainKey.index) chain.chainKey.key
  | receiver (chain : ReceiverChain K) (h : chain ∈ (s.ratchet party).receiverChains.toList) :
      Remembers s party (.chain (s.secretsBehind party chain.ratchetKey) chain.chainKey.index)
        chain.chainKey.key
  | skipped (skipped : SkippedMessageKey K)
      (h : skipped ∈ (s.ratchet party).skippedMessageKeys.toList) :
      Remembers s party
        (.message (s.secretsBehind party skipped.ratchetKey) skipped.messageKey.index)
        skipped.messageKey.key

variable (config : RatchetConfig K) (sharedSecret : Bytes) (zeroKey : K)

/-- **The terms stand for what is in memory.** -/
def System.TermsStand (s : System K) : Prop :=
  ∀ party name key, s.Remembers party name key →
    config.kdf.eval zeroKey (name.term config sharedSecret zeroKey) = key

/-- The terms for the memory of the captured ends. -/
def System.terms (s : System K) (captured : Set Party) : Set SymbolicKey :=
  {t | ∃ party ∈ captured, ∃ name key, s.Remembers party name key ∧
    t = name.term config sharedSecret zeroKey}

/-- The name of the key that the message is sealed under. -/
def Sent.keyName (message : Sent) : KeyName := .message message.secrets message.counter

/-- The term for it. -/
def Sent.term (message : Sent) : SymbolicKey := message.keyName.term config sharedSecret zeroKey

variable {config sharedSecret zeroKey}

namespace Epoch

/-- Epochs inside one epoch differ in the outputs behind them. -/
theorem eq_of_secrets_eq {epoch older older' : Epoch} (h : older <:+ epoch) (h' : older' <:+ epoch)
    (hne : older ≠ []) (hne' : older' ≠ [])
    (heq : older.secrets config = older'.secrets config) : older = older' := by
  have hlength := congrArg List.length heq
  rw [secrets_length, secrets_length] at hlength
  have hpos := List.length_pos_of_ne_nil hne
  have hpos' := List.length_pos_of_ne_nil hne'
  have hsuffix := List.suffix_of_suffix_length_le h h' (by omega)
  exact hsuffix.eq_of_length (by omega)

theorem key_messageKey (epoch : Epoch) (index : ℕ) :
    epoch.messageKey config (System.firstKeys config sharedSecret) index =
      KeyName.key config sharedSecret (.message (epoch.secrets config) index) := by
  rw [messageKey, keys_eq_keysAfter]
  rfl

theorem key_chainKey (epoch : Epoch) (index : ℕ) :
    (epoch.chainKey config (System.firstKeys config sharedSecret) index).key =
      KeyName.key config sharedSecret (.chain (epoch.secrets config) index) := by
  rw [chainKey, keys_eq_keysAfter]
  rfl

end Epoch

/-- A message is sealed under the value of its term. -/
theorem Sent.Follows.sealed_term {message : Sent} {epoch : Epoch}
    (h : message.Follows config (System.firstKeys config sharedSecret) epoch) :
    Sealed config (config.kdf.eval zeroKey (message.term config sharedSecret zeroKey))
      message.ratchetKey message.counter message.plaintext message.bytes := by
  rw [Sent.term, KeyName.eval_term, Sent.keyName, h.secrets, ← Epoch.key_messageKey]
  exact h.sealed_

namespace Ratchet

variable {party : Party} {ratchet : Ratchet K} {view : Epoch}

/-- **Whose keys they are.** A key in a ratchet has one of these names. -/
inductive HoldsName (config : RatchetConfig K) (party : Party) (ratchet : Ratchet K) (view : Epoch) :
    KeyName → Prop
  | root : HoldsName config party ratchet view (.root (view.secrets config))
  | sender (chain : SenderChain K) (hchain : chain ∈ ratchet.senderChain.toList) (rest : Epoch)
      (howner : view.owner = party) (hview : view = chain.ratchetKey :: rest) :
      HoldsName config party ratchet view (.chain (view.secrets config) chain.chainKey.index)
  | receiver (chain : ReceiverChain K) (hchain : chain ∈ ratchet.receiverChains.toList)
      (key : Curve25519KeyPair) (rest : Epoch) (hmem : key :: rest ∈ view.theirs party)
      (hkey : chain.ratchetKey = key.publicKey) :
      HoldsName config party ratchet view
        (.chain (Epoch.secrets config (key :: rest)) chain.chainKey.index)
  | skipped (skipped : SkippedMessageKey K)
      (hskipped : skipped ∈ ratchet.skippedMessageKeys.toList)
      (key : Curve25519KeyPair) (rest : Epoch) (hmem : key :: rest ∈ view.theirs party)
      (hkey : skipped.ratchetKey = key.publicKey) :
      HoldsName config party ratchet view
        (.message (Epoch.secrets config (key :: rest)) skipped.messageKey.index)

/-- `decrypt` keeps the sender chain, or drops it for a new receiver chain. -/
theorem senderChain_subset_of_decrypt {ratchet' : Ratchet K} {buf : Bytes}
    {input inputLength maxPlaintextLength : ℕ} {isSequential : Bool} {result : Option Bytes}
    (h : ratchet.decrypt config buf input inputLength maxPlaintextLength isSequential =
      .ok (ratchet', result)) : ratchet'.senderChain.toList ⊆ ratchet.senderChain.toList := by
  rcases decrypt_outcome h with ⟨-, heq⟩ | ⟨reader, ratchetKey, -, -, hout⟩
  · rw [heq]
    exact List.Subset.refl _
  · cases hout with
    | newChain senderChain rest plaintext hnew hsender hgap hverify =>
      exact List.eraseIdx_subset
    | _ => exact List.Subset.refl _

end Ratchet

namespace System

/-! ## The names of the keys -/

section Memory

variable {s : System K} {epoch : Epoch} {view : Party → Epoch} {party : Party} {name : KeyName}
  {key : K} (h : s.Agrees config (firstKeys config sharedSecret) epoch view)

include h

/-- As many outputs are behind a chain as there are ratchet keys before its own. -/
theorem Agrees.secretsBehind_eq {ratchetKey : Curve25519KeyPair} {rest : Epoch}
    (hmem : ratchetKey :: rest ∈ (view party).theirs party) :
    s.secretsBehind party ratchetKey.publicKey = Epoch.secrets config (ratchetKey :: rest) := by
  obtain ⟨hin, -, -⟩ := Epoch.mem_theirs.mp hmem
  obtain ⟨newer, hepoch⟩ := hin.trans (h.view_suffix party)
  have holder : (s.ratchetKeys.dropWhile (· ≠ ratchetKey.publicKey)).length - 1 = rest.length := by
    have hnodup := h.nodup
    rw [← h.ratchetKeys, ← hepoch, List.map_append, List.map_cons]
    rw [← hepoch, List.map_append, List.map_cons] at hnodup
    have hnot : ∀ publicKey ∈ newer.map (·.publicKey),
        decide (publicKey ≠ ratchetKey.publicKey) = true := by
      intro publicKey hnewer
      exact decide_eq_true ((List.nodup_append.mp hnodup).2.2 publicKey hnewer _ List.mem_cons_self)
    rw [List.dropWhile_append_of_pos hnot, List.dropWhile_cons_of_neg (by simp)]
    simp
  obtain ⟨front, hfront⟩ := Epoch.secrets_suffix config hin
  have hlength : (Epoch.secrets config (ratchetKey :: rest)).length = rest.length := by
    rw [Epoch.secrets_length, List.length_cons, Nat.add_sub_cancel]
  simp only [Record.secretsBehind, holder, h.secrets, ← hfront, List.length_append, hlength,
    Nat.add_sub_cancel, List.drop_left]

/-- **What is remembered** is a key of that name. -/
theorem Agrees.holdsName_of_remembers (hkey : s.Remembers party name key) :
    (s.ratchet party).HoldsName config party (view party) name ∧
      key = name.key config sharedSecret := by
  cases hkey with
  | root =>
    rw [h.secrets]
    refine ⟨.root, ?_⟩
    rw [(h.ratchet party).root, Epoch.keys_eq_keysAfter]
    rfl
  | sender chain hchain =>
    rw [h.secrets]
    by_cases howner : (view party).owner = party
    · obtain ⟨chain', hchain', key', rest, index, hview, -, heq⟩ := (h.ratchet party).sender howner
      rw [hchain', List.mem_singleton] at hchain
      subst hchain
      refine ⟨.sender chain (hchain' ▸ List.mem_singleton_self _) rest howner ?_, ?_⟩
      · rw [heq]
        exact hview
      · rw [heq]
        exact Epoch.key_chainKey (view party) index
    · rw [(h.ratchet party).noSender howner] at hchain
      cases hchain
  | receiver chain hchain =>
    obtain ⟨epoch', hmem, key', rest, index, rfl, -, heq⟩ := (h.ratchet party).mem_receivers hchain
    have hratchetKey : chain.ratchetKey = key'.publicKey := by rw [heq]
    rw [hratchetKey, h.secretsBehind_eq hmem]
    refine ⟨.receiver chain hchain key' rest hmem hratchetKey, ?_⟩
    rw [heq]
    exact Epoch.key_chainKey _ index
  | skipped skipped hskipped =>
    obtain ⟨epoch', hmem, key', rest, index, rfl, heq⟩ :=
      (h.ratchet party).skipped skipped hskipped
    have hratchetKey : skipped.ratchetKey = key'.publicKey := by rw [heq]
    rw [hratchetKey, h.secretsBehind_eq hmem]
    refine ⟨.skipped skipped hskipped key' rest hmem hratchetKey, ?_⟩
    rw [heq]
    exact Epoch.key_messageKey _ index

theorem Agrees.termsStand : s.TermsStand config sharedSecret zeroKey := by
  intro party name key hkey
  rw [KeyName.eval_term, (h.holdsName_of_remembers hkey).2]

/-- A term for a key in memory is that of its name. -/
theorem Agrees.holdsName {captured : Set Party}
    (hterm : name.term config sharedSecret zeroKey ∈ s.terms config sharedSecret zeroKey captured) :
    ∃ party ∈ captured, (s.ratchet party).HoldsName config party (view party) name := by
  obtain ⟨party, hcaptured, name', key, hkey, heq⟩ := hterm
  obtain rfl := KeyName.term_injective heq
  exact ⟨party, hcaptured, (h.holdsName_of_remembers hkey).1⟩

end Memory

/-! ## What the ends can still read -/

/-- **The receiver has not read the message and could**, but for the gap that
it allows: its ratchet key is newer than all the stored chains; or its chain
is stored, and not past it; or its key was skipped and kept. -/
def Unread (s : System K) (message : Sent) : Prop :=
  let ratchet := s.ratchet message.sender.peer
  (∀ chain ∈ ratchet.receiverChains.toList, s.Newer message.ratchetKey chain.ratchetKey) ∨
  (∃ chain ∈ ratchet.receiverChains.toList, chain.ratchetKey = message.ratchetKey ∧
    chain.chainKey.index ≤ message.counter) ∨
  ∃ skipped ∈ ratchet.skippedMessageKeys.toList,
    skipped.name = (message.ratchetKey, message.counter)

/-- The chain that made a message is past it. -/
def SendsAhead (s : System K) : Prop :=
  ∀ message ∈ s.sent, ∀ chain ∈ (s.ratchet message.sender).senderChain.toList,
    chain.ratchetKey.publicKey = message.ratchetKey → message.counter < chain.chainKey.index

variable {s s' : System K} {epoch older : Epoch} {view : Party → Epoch} {message : Sent}

section Names

variable (h : s.Agrees config (firstKeys config sharedSecret) epoch view) (hsuffix : older <:+ epoch)
  (hmessage : message.Follows config (firstKeys config sharedSecret) older) {party : Party}

include h hsuffix hmessage

/-- The epoch with the outputs of the message is its epoch. -/
theorem Agrees.older_eq {key : Curve25519KeyPair} {rest : Epoch} (hin : key :: rest <:+ view party)
    (heq : Epoch.secrets config (key :: rest) = message.secrets) :
    key :: rest = older ∧ key.publicKey = message.ratchetKey := by
  obtain ⟨key', rest', rfl, hkey'⟩ := hmessage.ratchetKey
  rw [hmessage.secrets] at heq
  have hsame := Epoch.eq_of_secrets_eq (hin.trans (h.view_suffix party)) hsuffix
    (List.cons_ne_nil _ _) (List.cons_ne_nil _ _) heq
  refine ⟨hsame, ?_⟩
  rw [hkey', (List.cons.inj hsame).1]

theorem Agrees.theirs_older_eq {key : Curve25519KeyPair} {rest : Epoch}
    (hmem : key :: rest ∈ (view party).theirs party)
    (heq : Epoch.secrets config (key :: rest) = message.secrets) :
    party = message.sender.peer ∧ key.publicKey = message.ratchetKey := by
  obtain ⟨hin, -, howner⟩ := Epoch.mem_theirs.mp hmem
  obtain ⟨hsame, hkey⟩ := h.older_eq hsuffix hmessage hin heq
  rw [hsame, hmessage.owner] at howner
  rw [howner, Party.peer_peer]
  exact ⟨rfl, hkey⟩

/-- The outputs behind its ratchet key, in the memory of an end, are its own. -/
theorem Agrees.secretsBehind_eq_secrets {key : Curve25519KeyPair} {rest : Epoch}
    (hmem : key :: rest ∈ (view party).theirs party) (hkey : key.publicKey = message.ratchetKey) :
    s.secretsBehind party message.ratchetKey = message.secrets := by
  rw [← hkey, h.secretsBehind_eq hmem, hmessage.secrets, h.theirs_eq hsuffix hmessage hmem hkey]

/-- Only the receiver has the key of a message, among the skipped ones. -/
theorem Agrees.skipped_of_holdsName {name : KeyName} (hname : name = message.keyName)
    (hholds : (s.ratchet party).HoldsName config party (view party) name) :
    party = message.sender.peer ∧
      ∃ skipped ∈ (s.ratchet message.sender.peer).skippedMessageKeys.toList,
        skipped.name = (message.ratchetKey, message.counter) := by
  cases hholds with
  | root => cases hname
  | sender chain hchain rest howner hview => cases hname
  | receiver chain hchain key rest hmem hkey => cases hname
  | skipped skipped hskipped key rest hmem hkey =>
    obtain ⟨hsecrets, hindex⟩ := KeyName.message.inj hname
    obtain ⟨rfl, hratchetKey⟩ := h.theirs_older_eq hsuffix hmessage hmem hsecrets
    refine ⟨rfl, skipped, hskipped, ?_⟩
    rw [SkippedMessageKey.name, hkey, hratchetKey, hindex]

/-- A key of its chain is the sender's or the receiver's. -/
theorem Agrees.chain_of_holdsName {name : KeyName} {index : ℕ}
    (hname : name = .chain message.secrets index)
    (hholds : (s.ratchet party).HoldsName config party (view party) name) :
    (∃ chain ∈ (s.ratchet message.sender).senderChain.toList,
      chain.ratchetKey.publicKey = message.ratchetKey ∧ chain.chainKey.index = index) ∨
    party = message.sender.peer ∧ ∃ chain ∈ (s.ratchet message.sender.peer).receiverChains.toList,
      chain.ratchetKey = message.ratchetKey ∧ chain.chainKey.index = index := by
  cases hholds with
  | root => cases hname
  | skipped skipped hskipped key rest hmem hkey => cases hname
  | sender chain hchain rest howner hview =>
    obtain ⟨hsecrets, hindex⟩ := KeyName.chain.inj hname
    rw [hview] at hsecrets
    have hin : chain.ratchetKey :: rest <:+ view party := by
      simp only [hview, List.suffix_rfl]
    obtain ⟨hsame, hratchetKey⟩ := h.older_eq hsuffix hmessage hin hsecrets
    rw [hview, hsame, hmessage.owner] at howner
    subst howner
    exact .inl ⟨chain, hchain, hratchetKey, hindex⟩
  | receiver chain hchain key rest hmem hkey =>
    obtain ⟨hsecrets, hindex⟩ := KeyName.chain.inj hname
    obtain ⟨rfl, hratchetKey⟩ := h.theirs_older_eq hsuffix hmessage hmem hsecrets
    exact .inr ⟨rfl, chain, hchain, hkey.trans hratchetKey, hindex⟩

/-- Whoever has an older root key than that of the message has not got to its
epoch, and then it is the receiver. -/
theorem Agrees.newer_of_root {newer : List Curve25519SharedSecret}
    (hsecrets : message.secrets = newer ++ (view party).secrets config) (hne : newer ≠ []) :
    party = message.sender.peer ∧
      ∀ chain ∈ (s.ratchet message.sender.peer).receiverChains.toList,
        s.Newer message.ratchetKey chain.ratchetKey := by
  have hnot : ¬ older <:+ view party := by
    intro hin
    have hlength := congrArg List.length hsecrets
    rw [hmessage.secrets, List.length_append, Epoch.secrets_length, Epoch.secrets_length] at hlength
    have hpos := List.length_pos_of_ne_nil hne
    have hle := hin.length_le
    omega
  -- an end that has not got to the epoch does not own it
  have hreceiver : party = message.sender.peer := by
    refine Party.eq_peer_of_ne ?_
    rintro rfl
    rcases h.view_eq message.sender with heq | ⟨key, heq⟩
    · exact hnot (heq ▸ hsuffix)
    · rw [heq] at hsuffix
      rcases List.suffix_cons_iff.mp hsuffix with hlast | hin
      · have howner := hmessage.owner
        rw [hlast, ← heq] at howner
        have hview := h.view_owner
        rw [howner] at hview
        exact hnot (hview ▸ heq ▸ hsuffix)
      · exact hnot hin
  subst hreceiver
  obtain ⟨key, rfl, heq, hkey, howner⟩ := h.next_of_not_suffix hsuffix hmessage hnot
  refine ⟨rfl, fun chain hchain => ?_⟩
  obtain ⟨epoch', hmem, key', rest', index, rfl, -, rfl⟩ := (h.ratchet _).mem_receivers hchain
  obtain ⟨hin, -, -⟩ := Epoch.mem_theirs.mp hmem
  refine ⟨(view message.sender.peer).map (·.publicKey), ?_, ?_⟩
  · have hkeys : message.ratchetKey :: (view message.sender.peer).map (·.publicKey) =
        s.ratchetKeys := by
      rw [← h.ratchetKeys, heq, List.map_cons, hkey]
    exact hkeys ▸ List.suffix_rfl
  · exact List.mem_map_of_mem (hin.subset List.mem_cons_self)

end Names

/-! ## Sender chains -/

/-- An end that keeps its sender chain or drops it is as far ahead as before. -/
theorem SendsAhead.update (h : s.SendsAhead) {party : Party} {ratchet : Ratchet K}
    (hsender : ∀ chain ∈ ratchet.senderChain.toList,
      chain ∈ (s.ratchet party).senderChain.toList) :
    ∀ message ∈ s.sent, ∀ chain ∈
      (Function.update s.ratchet party ratchet message.sender).senderChain.toList,
      chain.ratchetKey.publicKey = message.ratchetKey → message.counter < chain.chainKey.index := by
  intro message hmem chain hchain
  by_cases hparty : message.sender = party
  · rw [hparty, Function.update_self] at hchain
    exact h message hmem chain (hparty ▸ hsender chain hchain)
  · rw [Function.update_of_ne hparty] at hchain
    exact h message hmem chain hchain

/-- **A chain moves past each message it makes.** -/
theorem SendsAhead.encrypt (h : s.SendsAhead)
    (hagrees : s.Agrees config (firstKeys config sharedSecret) epoch view)
    (hlawful : config.ratchetCipher.Lawful) {party : Party} {plaintext random buf : Bytes}
    {output maxOutputLength : ℕ}
    (hhonest : s.Honest config (.encrypt party plaintext random buf output maxOutputLength))
    (hrun : s.encrypt config party plaintext random buf output maxOutputLength = .ok s') :
    s'.SendsAhead := by
  obtain ⟨hroom, hbuf, hchain⟩ := hhonest
  obtain ⟨⟨ratchet, result⟩, hencrypt, hrun⟩ := Checked.bind_eq_ok.mp hrun
  cases result with
  | none =>
    obtain ⟨code, -, rfl⟩ := Ratchet.eq_of_encrypt_none hencrypt
    obtain rfl := Except.ok.inj hrun
    exact h.update fun chain hchain => hchain
  | some written =>
    obtain ⟨buf', length⟩ := written
    obtain ⟨started, senderChain, bytes, hstart, rfl, -, -, hcut, -⟩ :=
      Ratchet.encrypt_eq_some hlawful hroom hbuf hencrypt
    simp only [Record.encrypted, hstart, Checked.ok_bind] at hrun
    obtain rfl := Except.ok.inj hrun
    obtain ⟨hindex, hfresh⟩ := hchain started senderChain hstart
    obtain ⟨view', -, -, hchains, -⟩ := (hagrees.ratchet party).startSenderChain hstart
    -- the messages before with its ratchet key are behind the chain
    have hbehind : ∀ message ∈ s.sent, message.sender = party →
        senderChain.ratchetKey.publicKey = message.ratchetKey →
        message.counter < senderChain.chainKey.index := by
      rintro message hmem rfl hkey
      rcases Ratchet.startSenderChain_exits hstart with ⟨rest, hold, -⟩ | ⟨hnone, -⟩
      · exact h message hmem senderChain (hold ▸ List.mem_cons_self) hkey
      · -- a new ratchet key is not that of an old message
        obtain ⟨older, hsuffix, hmessage⟩ := hagrees.sent message hmem
        obtain ⟨key, rest, rfl, hratchetKey⟩ := hmessage.ratchetKey
        refine absurd ?_ (hfresh hnone)
        rw [hkey, hratchetKey, ← hagrees.ratchetKeys]
        exact List.mem_map_of_mem (hsuffix.subset List.mem_cons_self)
    intro message hmem chain hin hkey
    by_cases hparty : message.sender = party
    · dsimp only at hin
      rw [hparty, Function.update_self, BoundedList.toList_set, hchains, List.set_cons_zero,
        List.mem_singleton] at hin
      subst hin
      have hmoved : (advanceChainKey config senderChain.chainKey).index =
          senderChain.chainKey.index + 1 := Nat.mod_eq_of_lt hindex
      dsimp only at hkey ⊢
      rw [hmoved]
      rcases List.mem_cons.mp hmem with rfl | hmem
      · exact Nat.lt_succ_self _
      · exact Nat.lt_succ_of_lt (hbehind message hmem hparty hkey)
    · dsimp only at hin
      rw [Function.update_of_ne hparty] at hin
      rcases List.mem_cons.mp hmem with rfl | hmem
      · exact absurd rfl hparty
      · exact h message hmem chain hin hkey

/-- **How the ends stand**, with their sender chains. -/
theorem sendsAhead_of_run (hcommutes : config.curve.Commutes) (hlawful : config.ratchetCipher.Lawful)
    {zeroKey : K} {ratchetKey : Curve25519KeyPair} (hgenerated : config.curve.Generated ratchetKey)
    (hrun : Run (System.step config) (System.Ideal config)
      (System.start config zeroKey sharedSecret ratchetKey) s) :
    s.Stands config (firstKeys config sharedSecret) ∧ s.SendsAhead := by
  refine hrun.invariant (P := fun s =>
    s.Stands config (firstKeys config sharedSecret) ∧ s.SendsAhead)
    ⟨stands_start hgenerated, fun message hmem => by cases hmem⟩ ?_
  rintro s e s' ⟨hstands, hahead⟩ hideal hstep
  refine ⟨hstands.step hcommutes hlawful hideal hstep, ?_⟩
  obtain ⟨epoch, view, hagrees, -⟩ := hstands
  obtain ⟨hhonest, -⟩ := hideal
  cases e with
  | encrypt party plaintext random buf output maxOutputLength =>
    exact hahead.encrypt hagrees hlawful hhonest hstep
  | deliver message pre post maxPlaintextLength isSequential =>
    obtain ⟨⟨ratchet', result⟩, hdecrypt, hstep⟩ := Checked.bind_eq_ok.mp hstep
    have hmoved := hahead.update (Ratchet.senderChain_subset_of_decrypt hdecrypt)
    cases result with
    | none =>
      obtain rfl := Except.ok.inj hstep
      exact hmoved
    | some plaintext =>
      obtain rfl := Except.ok.inj hstep
      exact hmoved
  | clearError party =>
    obtain rfl := Except.ok.inj hstep
    exact hahead.update fun chain hchain => hchain

/-! ## What is exposed -/

section Exposed

variable {inputs : Set Bytes} {captured : Set Party}
  (h : s.Agrees config (firstKeys config sharedSecret) epoch view) (hsuffix : older <:+ epoch)
  (hmessage : message.Follows config (firstKeys config sharedSecret) older)

include h hsuffix hmessage

/-- **Exposed is only what was not read**, whatever outputs are learned. -/
theorem Agrees.unread_of_exposed (hahead : s.SendsAhead) (hmem : message ∈ s.sent)
    (hshared : sharedSecret ∉ inputs)
    (hexposed : Kdf.symbolic.Exposed inputs (s.terms config sharedSecret zeroKey captured)
      (message.term config sharedSecret zeroKey)) :
    message.sender.peer ∈ captured ∧ s.Unread message := by
  rcases KeyName.exposed_term_iff.mp hexposed with
    hkey | ⟨i, hle, hkey⟩ | ⟨newer, older', hsecrets, hne, -, hkey⟩ | ⟨hin, -⟩
  · obtain ⟨party, hcaptured, hname⟩ := h.holdsName hkey
    obtain ⟨rfl, hskipped⟩ := h.skipped_of_holdsName hsuffix hmessage rfl hname
    exact ⟨hcaptured, .inr (.inr hskipped)⟩
  · obtain ⟨party, hcaptured, hname⟩ := h.holdsName hkey
    rcases h.chain_of_holdsName hsuffix hmessage rfl hname with
      ⟨chain, hchain, hratchetKey, rfl⟩ | ⟨rfl, chain, hchain, hratchetKey, rfl⟩
    · -- the sender's own chain is past the message
      have hlt := hahead message hmem chain hchain hratchetKey
      omega
    · exact ⟨hcaptured, .inr (.inl ⟨chain, hchain, hratchetKey, hle⟩)⟩
  · obtain ⟨party, hcaptured, hname⟩ := h.holdsName hkey
    cases hname
    obtain ⟨rfl, hnewer⟩ := h.newer_of_root hsuffix hmessage hsecrets hne
    exact ⟨hcaptured, .inl hnewer⟩
  · exact absurd hin hshared

/-- **And what was not read is exposed**, with the outputs that the message
was made from. -/
theorem Agrees.exposed_of_unread (hinputs : ∀ secret ∈ message.secrets, secret.val ∈ inputs)
    (hcaptured : message.sender.peer ∈ captured) (hunread : s.Unread message) :
    Kdf.symbolic.Exposed inputs (s.terms config sharedSecret zeroKey captured)
      (message.term config sharedSecret zeroKey) := by
  refine KeyName.exposed_term_iff.mpr ?_
  rcases hunread with hnewer | ⟨chain, hchain, hkey, hle⟩ | ⟨skipped, hskipped, hname⟩
  · -- the receiver is one output behind
    have hnot := h.not_suffix_of_newer hsuffix hmessage hnewer
    obtain ⟨key, rfl, heq, -, -⟩ := h.next_of_not_suffix hsuffix hmessage hnot
    obtain ⟨previous, rest, hview⟩ :=
      List.exists_cons_of_ne_nil (h.ratchet message.sender.peer).nonempty
    have hsecrets : message.secrets = [config.curve.sharedSecret key previous.publicKey] ++
        s.secrets message.sender.peer := by
      rw [hmessage.secrets, heq, h.secrets, hview]
      rfl
    refine .inr (.inr (.inl ⟨_, _, hsecrets, List.cons_ne_nil _ _, ?_, _, hcaptured, _, _, .root,
      rfl⟩))
    intro secret hmem
    exact hinputs secret (hsecrets ▸ List.mem_append_left _ hmem)
  · obtain ⟨epoch', hmem, key, rest, index, rfl, -, heq⟩ := (h.ratchet _).mem_receivers hchain
    have hratchetKey : chain.ratchetKey = key.publicKey := by rw [heq]
    refine .inr (.inl ⟨_, hle, _, hcaptured, _, _, .receiver chain hchain, ?_⟩)
    rw [hkey, h.secretsBehind_eq_secrets hsuffix hmessage hmem (hratchetKey.symm.trans hkey)]
  · obtain ⟨hkey, hindex⟩ := Prod.mk.inj hname
    obtain ⟨epoch', hmem, key, rest, index, rfl, heq⟩ := (h.ratchet _).skipped skipped hskipped
    have hratchetKey : skipped.ratchetKey = key.publicKey := by rw [heq]
    refine .inl ⟨_, hcaptured, _, _, .skipped skipped hskipped, ?_⟩
    rw [hkey, h.secretsBehind_eq_secrets hsuffix hmessage hmem (hratchetKey.symm.trans hkey),
      hindex]

end Exposed

section Runs

variable (hcommutes : config.curve.Commutes) (hlawful : config.ratchetCipher.Lawful)
  {ratchetKey : Curve25519KeyPair} (hgenerated : config.curve.Generated ratchetKey)
  (hrun : Run (System.step config) (System.Ideal config)
    (System.start config zeroKey sharedSecret ratchetKey) s)

include hcommutes hlawful hgenerated hrun

/-- **What a captured memory exposes**, with the Diffie–Hellman outputs of a
message but without the first secret. The keys in memory are the values of
their terms, and so is the key that a message is sealed under; and its term can
be derived from those of the captured memory if its receiver was captured and
has not read it. -/
theorem exposed_iff (captured : Set Party) :
    s.TermsStand config sharedSecret zeroKey ∧
    ∀ message ∈ s.sent,
      Sealed config (config.kdf.eval zeroKey (message.term config sharedSecret zeroKey))
        message.ratchetKey message.counter message.plaintext message.bytes ∧
      ∀ inputs : Set Bytes, sharedSecret ∉ inputs →
        (∀ secret ∈ message.secrets, secret.val ∈ inputs) →
        (Kdf.symbolic.Exposed inputs (s.terms config sharedSecret zeroKey captured)
            (message.term config sharedSecret zeroKey) ↔
          message.sender.peer ∈ captured ∧ s.Unread message) := by
  obtain ⟨⟨epoch, view, hagrees, -⟩, hahead⟩ := sendsAhead_of_run hcommutes hlawful hgenerated hrun
  refine ⟨hagrees.termsStand, fun message hmem => ?_⟩
  obtain ⟨older, hsuffix, hmessage⟩ := hagrees.sent message hmem
  refine ⟨hmessage.sealed_term, fun inputs hshared hinputs => ⟨?_, ?_⟩⟩
  · exact hagrees.unread_of_exposed hsuffix hmessage hahead hmem hshared
  · rintro ⟨hcaptured, hunread⟩
    exact hagrees.exposed_of_unread hsuffix hmessage hinputs hcaptured hunread

/-- **Forward secrecy.** What was accepted stays closed to whoever captures
both ends after it and learns every Diffie–Hellman output, but not the
first secret: the term that the message is sealed under cannot be derived. -/
theorem not_exposed_of_accepted (hmem : message ∈ s.sent)
    (haccepted : (message.ratchetKey, message.counter) ∈ s.accepted message.sender.peer)
    {inputs : Set Bytes} (hshared : sharedSecret ∉ inputs) :
    s.TermsStand config sharedSecret zeroKey ∧
      Sealed config (config.kdf.eval zeroKey (message.term config sharedSecret zeroKey))
        message.ratchetKey message.counter message.plaintext message.bytes ∧
      ¬ Kdf.symbolic.Exposed inputs (s.terms config sharedSecret zeroKey Set.univ)
        (message.term config sharedSecret zeroKey) := by
  obtain ⟨⟨epoch, view, hagrees, hspent⟩, hahead⟩ :=
    sendsAhead_of_run hcommutes hlawful hgenerated hrun
  obtain ⟨older, hsuffix, hmessage⟩ := hagrees.sent message hmem
  refine ⟨hagrees.termsStand, hmessage.sealed_term, fun hexposed => ?_⟩
  obtain ⟨-, hunread⟩ :=
    hagrees.unread_of_exposed hsuffix hmessage hahead hmem hshared hexposed
  have hspent := hspent message.sender.peer
  rcases hunread with hnewer | ⟨chain, hchain, hkey, hle⟩ | ⟨skipped, hskipped, hname⟩
  · -- the receiver has got to the epoch
    obtain ⟨key, rest, hmem', hkey⟩ := hspent.known _ haccepted
    have hsame := hagrees.theirs_eq hsuffix hmessage hmem' hkey.symm
    obtain ⟨hin, -, -⟩ := Epoch.mem_theirs.mp hmem'
    exact hagrees.not_suffix_of_newer hsuffix hmessage hnewer (hsame ▸ hin)
  · have hlt := hspent.past _ haccepted chain hchain hkey
    dsimp only at hlt
    omega
  · exact hspent.used _ haccepted skipped hskipped hname

end Runs

/-! ### After the run out of order -/

section OutOfOrder

instance (s : System K) (message : Sent) : Decidable (s.Unread message) :=
  inferInstanceAs (Decidable (_ ∨ _ ∨ _))

/-- Bob gets the first message of Alice's new chain, and answers it. -/
def answeredScript : List (System SharedKey → Event) := [.delivering 5, .encrypting .bob 7]

/-- The two ends after that. -/
def answered : System SharedKey :=
  Run.play (System.step Primitives.mixing.ratchetConfig) answeredScript outOfOrder

/-- What is unread before that, and what the answer is made from, evaluated
once. -/
theorem answered_evaluates :
    Run.Plays (System.step Primitives.mixing.ratchetConfig)
      (System.Plain Primitives.mixing.ratchetConfig) answeredScript outOfOrder ∧
    (∀ n ∈ [0, 1, 5, 6], outOfOrder.sentAt n ∈ outOfOrder.sent ∧
      (outOfOrder.sentAt n).sender = .alice ∧ outOfOrder.Unread (outOfOrder.sentAt n)) ∧
    (∀ n ∈ [2, 4], outOfOrder.sentAt n ∈ outOfOrder.sent ∧
      ((outOfOrder.sentAt n).ratchetKey, (outOfOrder.sentAt n).counter) ∈
        outOfOrder.accepted (outOfOrder.sentAt n).sender.peer) ∧
    answered.sentAt 7 ∈ answered.sent ∧ (answered.sentAt 7).secrets.length = 3 ∧
    ∀ party ∈ [Party.alice, .bob], (outOfOrder.secrets party).length ≤ 2 := by
  decide +kernel

/-- All inputs but the first secret. -/
def allOutputs : Set Bytes := {input | input ≠ List.replicate 96 7}

theorem shared_not_mem_allOutputs : List.replicate 96 7 ∉ allOutputs := fun hne => hne rfl

theorem mem_allOutputs (secret : Curve25519SharedSecret) : secret.val ∈ allOutputs := by
  intro heq
  have hlength := congrArg List.length heq
  rw [FixedBytes.length_val, List.length_replicate] at hlength
  exact absurd hlength (by decide)

/-- Bob's memory exposes the two messages that he skipped and the two of the chain
that he does not have, with all the outputs. Alice's does not. -/
theorem exposed_iff_outOfOrder :
    outOfOrder.TermsStand Primitives.mixing.ratchetConfig (List.replicate 96 7)
      (FixedBytes.zero _) ∧
    ∀ n ∈ [0, 1, 5, 6],
      Kdf.symbolic.Exposed allOutputs
        (outOfOrder.terms Primitives.mixing.ratchetConfig (List.replicate 96 7)
          (FixedBytes.zero _) {.bob})
        ((outOfOrder.sentAt n).term Primitives.mixing.ratchetConfig (List.replicate 96 7)
          (FixedBytes.zero _)) ∧
      ¬ Kdf.symbolic.Exposed allOutputs
        (outOfOrder.terms Primitives.mixing.ratchetConfig (List.replicate 96 7)
          (FixedBytes.zero _) {.alice})
        ((outOfOrder.sentAt n).term Primitives.mixing.ratchetConfig (List.replicate 96 7)
          (FixedBytes.zero _)) := by
  have hiff (captured : Set Party) := exposed_iff Curve25519.xor_commutes
    Primitives.mixing_lawful (Curve25519.xor.generated_generateKey _) run_outOfOrder captured
  refine ⟨(hiff ∅).1, fun n hn => ?_⟩
  obtain ⟨hmem, hsender, hunread⟩ := answered_evaluates.2.1 n hn
  have hreceiver : (outOfOrder.sentAt n).sender.peer = .bob := by rw [hsender]; rfl
  have hexposed (captured : Set Party) := ((hiff captured).2 _ hmem).2 allOutputs
    shared_not_mem_allOutputs fun secret _ => mem_allOutputs secret
  rw [hexposed, hexposed, hreceiver]
  refine ⟨⟨Set.mem_singleton _, hunread⟩, ?_⟩
  rintro ⟨hcaptured, -⟩
  cases Set.mem_singleton_iff.mp hcaptured

/-- What they have read is closed to whoever captures both. -/
theorem not_exposed_of_accepted_outOfOrder :
    outOfOrder.sent.length = 7 ∧ ∀ n ∈ [2, 4],
      ¬ Kdf.symbolic.Exposed allOutputs
        (outOfOrder.terms Primitives.mixing.ratchetConfig (List.replicate 96 7)
          (FixedBytes.zero _) Set.univ)
        ((outOfOrder.sentAt n).term Primitives.mixing.ratchetConfig (List.replicate 96 7)
          (FixedBytes.zero _)) := by
  refine ⟨outOfOrder_evaluates.2.1, fun n hn => ?_⟩
  obtain ⟨hmem, haccepted⟩ := answered_evaluates.2.2.1 n hn
  exact (not_exposed_of_accepted Curve25519.xor_commutes Primitives.mixing_lawful
    (Curve25519.xor.generated_generateKey _) run_outOfOrder hmem haccepted
    shared_not_mem_allOutputs).2.2

end OutOfOrder

end System

end Olm
