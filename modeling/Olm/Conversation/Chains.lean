import Olm.Cipher.Callers
import Olm.Conversation.Outcomes
import Olm.Conversation.Sending
import Olm.Session.AnyOrder

/-!
# The chains of a session

`encrypt` makes a sender chain from the first receiver chain, and `decrypt`
makes a receiver chain from the sender chain, and neither looks whether the
list it reads from is empty. One of the lists has a chain from the set-up on,
since the sender chain is only dropped where a receiver chain was put in; and
a message of a new chain does not open where there is no sender chain.

Between honest ends the skipped keys of a stored chain are behind it, and each
of them is there once. That they make new ratchet keys, keep their chains short
and send what fails under a wrong key is needed for it: each of these left out,
some run leaves a skipped key that its chain has not reached
(`not_chains_of_run`).
-/

namespace Olm

variable {K : Type}

/-! ## One of the lists has a chain -/

namespace Ratchet

variable {config : RatchetConfig K} {ratchet ratchet' : Ratchet K}

/-- There is a sender chain or a receiver chain. -/
def NonEmpty (ratchet : Ratchet K) : Prop :=
  ratchet.senderChain.toList ≠ [] ∨ ratchet.receiverChains.toList ≠ []

/-- The chains that there were are still there. -/
theorem NonEmpty.congr (h : ratchet.NonEmpty) (hsender : ratchet'.senderChain = ratchet.senderChain)
    (hreceivers : ratchet'.receiverChains = ratchet.receiverChains) : ratchet'.NonEmpty := by
  unfold NonEmpty
  rw [hsender, hreceivers]
  exact h

/-- **A sender chain is there or can be made.** -/
theorem NonEmpty.exists_startSenderChain (h : ratchet.NonEmpty) {random : Bytes}
    (hrandom : ratchet.encryptRandomLength ≤ random.length) :
    ∃ started, ratchet.startSenderChain config random = .ok started := by
  unfold startSenderChain
  cases hsender : ratchet.senderChain.toList with
  | cons senderChain rest => exact ⟨_, rfl⟩
  | nil =>
    rw [encryptRandomLength, hsender] at hrandom
    obtain ⟨random, hload, -⟩ := loadArray_of_le (by omega : 0 + CURVE25519_KEY_LENGTH ≤ random.length)
    cases hreceivers : ratchet.receiverChains.toList with
    | cons receiverChain rest =>
      simp only [hload, Checked.ok_bind]
      exact ⟨_, rfl⟩
    | nil => exact absurd h (by simp [NonEmpty, hsender, hreceivers])

theorem NonEmpty.encrypt {plaintext random buf : Bytes} {output maxOutputLength : ℕ}
    {result : Option (Bytes × ℕ)} (h : ratchet.NonEmpty)
    (hrun : ratchet.encrypt config plaintext random buf output maxOutputLength =
      .ok (ratchet', result)) : ratchet'.NonEmpty := by
  rcases encrypt_exits hrun with ⟨-, code, -, rfl⟩ | ⟨started, senderChain, _, hstart, rfl, -, -⟩
  · exact h
  · -- the sender chain is the one that was there, or a new one
    left
    have hstarted : started.senderChain.toList ≠ [] := by
      rcases startSenderChain_exits hstart with ⟨rest, hchains, rfl⟩ | ⟨hnone, -, rootKey, rfl⟩
      · rw [hchains]
        exact List.cons_ne_nil _ _
      · exact List.cons_ne_nil _ _
    intro hset
    exact hstarted ((List.set_eq_nil_iff _ _).mp hset)

/-- A receiver chain is moved on, and stays. -/
theorem receiverChains_advance_ne_nil (ratchet : Ratchet K) (place : ℕ) (chain : ReceiverChain K)
    (counter : ℕ) (h : ratchet.receiverChains.toList ≠ []) :
    (ratchet.advanceReceiverChain config place chain counter).receiverChains.toList ≠ [] :=
  fun hset => h ((List.set_eq_nil_iff _ _).mp hset)

theorem NonEmpty.decrypt {buf : Bytes} {input inputLength maxPlaintextLength : ℕ}
    {isSequential : Bool} {result : Option Bytes} (h : ratchet.NonEmpty)
    (hrun : ratchet.decrypt config buf input inputLength maxPlaintextLength isSequential =
      .ok (ratchet', result)) : ratchet'.NonEmpty := by
  rcases decrypt_outcome hrun with ⟨-, hsame⟩ | ⟨reader, ratchetKey, -, -, houtcome⟩
  · rw [hsame]
    exact h.congr rfl rfl
  · cases houtcome with
    | notAcknowledged | newChainGap | newChainMac | outOfOrder | alreadyDecrypted | existingGap |
        existingMac | skipped => exact h.congr rfl rfl
    | newChain senderChain rest plaintext hnew hsender hgap hverify =>
      -- the sender chain goes, and the new receiver chain is there
      exact .inr (receiverChains_advance_ne_nil _ 0 _ _ (List.cons_ne_nil _ _))
    | existing place chain plaintext hplace hkey hsequential hahead hgap hverify =>
      exact .inr (receiverChains_advance_ne_nil _ place chain _
        (List.ne_nil_of_mem (List.mem_of_getElem? hplace)))

end Ratchet

namespace Session

/-! ## Runs of one session -/

section Runs

variable {prims : Primitives K} {zeroKey : K} {session session' : Session K}

/-- What the set-up makes of the ratchet: Alice's, or Bob's. -/
theorem Created.ratchet_eq (h : session.Created prims zeroKey) :
    (∃ secret ratchetKey, prims.curve.Generated ratchetKey ∧ session.ratchet =
      (Ratchet.new zeroKey).initialiseAsAlice prims.ratchetConfig secret ratchetKey) ∨
    ∃ secret ratchetKey, session.ratchet =
      (Ratchet.new zeroKey).initialiseAsBob prims.ratchetConfig secret ratchetKey := by
  cases h with
  | newOutboundSession hrun =>
    obtain ⟨base, ratchet, -, -, -, rfl⟩ := newOutboundSession_eq_some hrun
    exact .inl ⟨_, _, prims.curve.generated_generateKey ratchet, rfl⟩
  | newInboundSession hrun =>
    obtain ⟨reading, hkeys⟩ := newInboundSession_eq_some hrun
    obtain ⟨ourPrekey, bobOneTimeKey, -, -, rfl⟩ := newInboundSessionFromKeys_eq_some hkeys
    exact .inr ⟨_, _, rfl⟩

theorem Created.nonEmpty (h : session.Created prims zeroKey) : session.ratchet.NonEmpty := by
  rcases h.ratchet_eq with ⟨secret, ratchetKey, -, heq⟩ | ⟨secret, ratchetKey, heq⟩
  · rw [heq]
    exact .inl (List.cons_ne_nil _ _)
  · rw [heq]
    exact .inr (List.cons_ne_nil _ _)

theorem Created.settled (h : session.Created prims zeroKey) : session.Settled := by
  cases h with
  | newOutboundSession hrun => exact (Reachable.newOutboundSession .new hrun).settled
  | newInboundSession hrun => exact (Reachable.newInboundSession .new hrun).settled

/-- Between calls, and with a chain. -/
structure Steady (session : Session K) : Prop where
  settled : session.Settled
  nonEmpty : session.ratchet.NonEmpty

/-- It depends on the ratchet only. -/
theorem Steady.congr (h : session.Steady) (hratchet : session'.ratchet = session.ratchet) :
    session'.Steady := by
  refine ⟨h.settled.congr hratchet, ?_⟩
  rw [hratchet]
  exact h.nonEmpty

theorem Steady.encrypt {plaintext random message : Bytes} {result : Option (Bytes × ℕ)}
    (h : session.Steady)
    (hrun : session.encrypt prims plaintext random message = .ok (session', result)) :
    session'.Steady := by
  refine ⟨h.settled.encrypt hrun, ?_⟩
  rcases encrypt_outcome hrun with ⟨-, rfl⟩ | ⟨buf, output, maxOutputLength, ratchet, -, hratchet,
    hnone, hsome⟩
  · exact h.nonEmpty
  · have hnonEmpty := h.nonEmpty.encrypt hratchet
    cases result with
    | none =>
      rw [hnone rfl]
      exact hnonEmpty.congr rfl rfl
    | some written =>
      rw [hsome rfl]
      exact hnonEmpty

theorem Steady.decrypt {messageType : MessageType} {message : Bytes} {maxPlaintextLength : ℕ}
    {isSequential : Bool} {result : Option Bytes} (h : session.Steady)
    (hrun : session.decrypt prims messageType message maxPlaintextLength isSequential =
      .ok (session', result)) : session'.Steady := by
  refine ⟨h.settled.decrypt hrun, ?_⟩
  rcases decrypt_outcome hrun with ⟨-, -, rfl⟩ | ⟨body, bodyLength, ratchet, -, hratchet, hnone,
    hsome⟩
  · exact h.nonEmpty
  · have hnonEmpty := h.nonEmpty.decrypt hratchet
    cases result with
    | none =>
      rw [hnone rfl]
      exact hnonEmpty.congr rfl rfl
    | some plaintext =>
      rw [hsome rfl]
      exact hnonEmpty

theorem Steady.call {request : Call} {reply : Except OlmErrorCode Reply} (h : session.Steady)
    (hrun : call prims session request = .ok (session', reply)) : session'.Steady := by
  cases request with
  | encrypt plaintext random message =>
    obtain ⟨result, hresult⟩ := report_eq_ok hrun
    exact h.encrypt hresult
  | decryptMaxPlaintextLength messageType message =>
    obtain ⟨result, hresult⟩ := report_eq_ok hrun
    exact h.congr (ratchet_of_decryptMaxPlaintextLength h.settled.noError hresult)
  | decrypt messageType message maxPlaintextLength isSequential =>
    obtain ⟨result, hresult⟩ := report_eq_ok hrun
    exact h.decrypt hresult

end Runs

/-- What can happen to a session: a call, or it is pickled and the pickle is
read into a new one. -/
inductive Use where
  | call (request : Call)
  | reload (stale : Ratchet.Stale)

/-- The session after it. -/
def use (prims : Primitives SharedKey) (session : Session SharedKey) :
    Use → Checked (Session SharedKey)
  | .call request => do
    let (session, _) ← call prims session request
    .ok session
  | .reload stale => .ok (unpickle stale (new (FixedBytes.zero _)) session.pickle).1

/-- **What comes back** has lost an error, and nothing else. -/
theorem Settled.unpickle_pickle {session : Session SharedKey} (h : session.Settled)
    (stale : Ratchet.Stale) :
    unpickle stale (new (FixedBytes.zero _)) session.pickle =
      ({ session with lastError := .SUCCESS }, some []) := by
  have hreads := reads_unpickle stale (new (FixedBytes.zero _)) rfl rfl rfl h.numbered []
  have hratchet : session.ratchet = { session.ratchet with lastError := .SUCCESS } := by
    rw [← h.noError]
  rw [List.append_nil] at hreads
  rw [hreads, hratchet]
  rfl

theorem Steady.use {prims : Primitives SharedKey} {session session' : Session SharedKey}
    {e : Use} (h : session.Steady) (hrun : session.use prims e = .ok session') :
    session'.Steady := by
  cases e with
  | call request =>
    obtain ⟨⟨after, reply⟩, hcall, hrun⟩ := Checked.bind_eq_ok.mp hrun
    obtain rfl := Except.ok.inj hrun
    exact h.call hcall
  | reload stale =>
    obtain rfl := Except.ok.inj hrun
    rw [h.settled.unpickle_pickle stale]
    exact h.congr rfl

/-- **The lists are read where they are not empty**: there is a chain, `encrypt`
has the sender chain it needs or makes it, and where opening the message does
not fault `decrypt` does not. -/
structure ReadsChains (prims : Primitives K) (session : Session K) : Prop where
  nonEmpty : session.ratchet.senderChain.toList ≠ [] ∨ session.ratchet.receiverChains.toList ≠ []
  encrypts : ∀ random : Bytes, session.encryptRandomLength ≤ random.length →
    ∃ started, session.ratchet.startSenderChain prims.ratchetConfig random = .ok started
  verifies : ∀ (buf : Bytes) (reader : MessageReader) (maxPlaintextLength : ℕ)
    (lastError : OlmErrorCode) (plaintext : Bytes),
    Ratchet.verifyMacAndDecryptForNewChain prims.ratchetConfig session.ratchet buf reader
      maxPlaintextLength = .ok (lastError, some plaintext) →
    session.ratchet.senderChain.toList ≠ []
  decrypts : ∀ (buf : Bytes) (reader : MessageReader) (pos : ℕ)
    (ratchetKey : Curve25519PublicKey) (maxPlaintextLength : ℕ) (isSequential : Bool),
    reader.ratchetKey.value = some pos →
    loadArray CURVE25519_KEY_LENGTH buf pos = .ok ratchetKey →
    (∀ messageKey, ∃ result, Ratchet.verifyMacAndDecrypt prims.ratchetConfig messageKey buf reader
      maxPlaintextLength = .ok result) →
    ∃ result, session.ratchet.decryptReader prims.ratchetConfig buf reader ratchetKey
      maxPlaintextLength isSequential = .ok result

theorem Steady.readsChains {prims : Primitives K} {session : Session K} (h : session.Steady) :
    session.ReadsChains prims where
  nonEmpty := h.nonEmpty
  encrypts _ hrandom := h.nonEmpty.exists_startSenderChain hrandom
  verifies _ _ _ _ _ hverify := Ratchet.senderChain_ne_nil_of_newChain hverify
  decrypts _ _ _ _ _ isSequential hpos hload hverify :=
    Ratchet.decryptReader_returns hverify session.ratchet hpos hload isSequential

end Session

/-! ## Two sessions, and the skipped keys -/

/-- **Where the skipped keys are**: those of a stored chain are behind it, and
no two have the same ratchet key and index. -/
structure Ratchet.SkippedBehind (ratchet : Ratchet K) : Prop where
  behind : ∀ skipped ∈ ratchet.skippedMessageKeys.toList, ∀ chain ∈ ratchet.receiverChains.toList,
    chain.ratchetKey = skipped.ratchetKey → skipped.messageKey.index < chain.chainKey.index
  distinct : (ratchet.skippedMessageKeys.toList.map fun skipped =>
    (skipped.ratchetKey, skipped.messageKey.index)).Nodup

namespace Session

variable {prims : Primitives K} {zeroKey : K} {alice bob : Session K}

/-- Two sessions that were just set up with each other: Alice sends on the
chain that Bob receives on, and they have the root key that goes with it. -/
structure Paired (prims : Primitives K) (zeroKey : K) (alice bob : Session K) : Prop where
  aliceCreated : alice.Created prims zeroKey
  bobCreated : bob.Created prims zeroKey
  rootKey : bob.ratchet.rootKey = alice.ratchet.rootKey
  chains : ∃ ratchetKey chainKey,
    alice.ratchet.senderChain.toList = [{ ratchetKey := ratchetKey, chainKey := chainKey }] ∧
    bob.ratchet.receiverChains.toList =
      [{ ratchetKey := ratchetKey.publicKey, chainKey := chainKey }]

/-- **Bob's session from a message of Alice's is paired** with the one that she
set up. -/
theorem SetUp.exists_paired {key : K} {account bobAccount : Account} {prekey : PreKey}
    {oneTimeKey : Option OneTimeKey} {baseKey ratchetKey : Curve25519KeyPair} {counter : ℕ}
    {plaintext bytes : Bytes}
    (h : SetUp prims account bobAccount prekey oneTimeKey baseKey ratchetKey alice)
    (hcreated : alice.Created prims zeroKey)
    (hcommutes : prims.curve.Commutes) (hmade : bobAccount.KeysMade prims.curve prims.ed25519)
    (hidentity : prims.curve.Generated account.identityKeys.curve25519Key)
    (hprekey : bobAccount.HoldsPrekey prekey)
    (hkey : ∀ key ∈ oneTimeKey, bobAccount.HoldsKey key ∧ key.key.publicKey ≠ prekey.key.publicKey)
    (hsealed : Sealed prims.ratchetConfig key ratchetKey.publicKey counter plaintext bytes)
    (hcounter : counter < 2 ^ 32) (hsize : bytes.length < 2 ^ SIZE_WIDTH) :
    ∃ bob, (Session.new zeroKey).newInboundSession prims bobAccount none
        (alice.header bytes.length ++ bytes) = .ok (bob, some ()) ∧ Paired prims zeroKey alice bob := by
  have hnone : ∀ theirs ∈ (none : Option Curve25519PublicKey),
      theirs = account.identityKeys.curve25519Key.publicKey := by
    intro theirs hmem
    cases hmem
  obtain ⟨bob, hrun, hroot, hchains⟩ := h.newInboundSession zeroKey hcommutes hmade hidentity hprekey
    hkey hsealed hcounter hsize hnone
  exact ⟨bob, hrun, hcreated, .newInboundSession hrun, hroot, ratchetKey, _, h.senderChain, hchains⟩

/-- **They are set up from one secret**, as far as the ratchets are concerned. -/
theorem Paired.exists_start (h : Paired prims zeroKey alice bob) :
    ∃ secret ratchetKey, prims.curve.Generated ratchetKey ∧
      alice.ratchet =
        (Ratchet.new zeroKey).initialiseAsAlice prims.ratchetConfig secret ratchetKey ∧
      bob.ratchet =
        (Ratchet.new zeroKey).initialiseAsBob prims.ratchetConfig secret ratchetKey.publicKey := by
  obtain ⟨halice, hbob, hroot, ratchetKey, chainKey, hsender, hreceiver⟩ := h
  rcases halice.ratchet_eq with ⟨secret, key, hgenerated, halice⟩ | ⟨secret, key, halice⟩
  · rcases hbob.ratchet_eq with ⟨secret', key', -, hbob⟩ | ⟨secret', key', hbob⟩
    · rw [hbob] at hreceiver
      cases hreceiver
    · refine ⟨secret, key, hgenerated, halice, ?_⟩
      rw [halice] at hsender hroot
      rw [hbob] at hreceiver hroot
      obtain ⟨⟨rfl, rfl⟩, -⟩ := List.cons.inj hsender
      obtain ⟨hkeys, -⟩ := List.cons.inj hreceiver
      obtain ⟨rfl, hchain⟩ := ReceiverChain.mk.inj hkeys
      -- both halves of what is derived are the same
      have hderived : prims.kdf.hkdfSha256 secret' none OLM_KDF_INFO.rootInfo =
          prims.kdf.hkdfSha256 secret none OLM_KDF_INFO.rootInfo :=
        Prod.ext hroot (congrArg ChainKey.key hchain)
      rw [hbob]
      unfold Ratchet.initialiseAsBob
      simp only [Primitives.ratchetConfig, hderived]
  · rw [halice] at hsender
    cases hsender

end Session

namespace Conversation

/-! ## Runs of two sessions -/

/-- Two sessions, and nothing was sent yet. -/
def of (alice bob : Session K) : Conversation K where
  secrets _ := []
  ratchetKeys := alice.ratchet.senderChain.toList.map (·.ratchetKey.publicKey)
  sent := []
  accepted _ := []
  session
    | .alice => alice
    | .bob => bob
  posted := []

theorem ratchets_of {prims : Primitives K} {zeroKey : K} {alice bob : Session K} {secret : Bytes}
    {ratchetKey : Curve25519KeyPair}
    (halice : alice.ratchet =
      (Ratchet.new zeroKey).initialiseAsAlice prims.ratchetConfig secret ratchetKey)
    (hbob : bob.ratchet =
      (Ratchet.new zeroKey).initialiseAsBob prims.ratchetConfig secret ratchetKey.publicKey) :
    (of alice bob).ratchets = System.start prims.ratchetConfig zeroKey secret ratchetKey := by
  have hkeys : alice.ratchet.senderChain.toList.map (·.ratchetKey.publicKey) =
      [ratchetKey.publicKey] := by
    rw [halice]
    rfl
  simp only [ratchets, of, System.start, Record.start, System.mk.injEq, hkeys, true_and]
  funext party
  cases party with
  | alice => exact halice
  | bob => exact hbob

/-- An event of the sessions, or one of them is pickled and the pickle is read
into a new one. -/
inductive KeptEvent where
  | event (e : SessionEvent)
  | reload (party : Party) (stale : Ratchet.Stale)

variable (prims : Primitives SharedKey)

/-- One of them. -/
def keptStep (c : Conversation SharedKey) : KeptEvent → Checked (Conversation SharedKey)
  | .event e => c.step prims e
  | .reload party stale => do
    let session ← (c.session party).use prims (.reload stale)
    .ok { c with session := Function.update c.session party session }

/-- Honest ends, and messages that fail under a wrong key; they may be pickled at
any time. -/
def KeptIdeal (c : Conversation SharedKey) : KeptEvent → Prop
  | .event e => c.Ideal prims e
  | .reload _ _ => True

variable {prims}

section Settled

variable {prims : Primitives K} {c c' : Conversation K}

theorem settled_update (h : ∀ party, (c.session party).Settled) {party : Party}
    {session : Session K} (hsession : session.Settled) (other : Party) :
    (Function.update c.session party session other).Settled := by
  by_cases hother : other = party
  · subst hother
    rw [Function.update_self]
    exact hsession
  · rw [Function.update_of_ne hother]
    exact h other

/-- The sessions are between calls again after an event. -/
theorem settled_of_step (h : ∀ party, (c.session party).Settled) {e : SessionEvent}
    (hstep : c.step prims e = .ok c') (party : Party) : (c'.session party).Settled := by
  cases e with
  | encrypt sender plaintext random message =>
    obtain ⟨⟨session', result⟩, hencrypt, hstep⟩ := Checked.bind_eq_ok.mp hstep
    have hsession := (h sender).encrypt hencrypt
    cases result with
    | none =>
      obtain rfl := Except.ok.inj hstep
      exact settled_update h hsession party
    | some written =>
      obtain ⟨record, -, hstep⟩ := Checked.bind_eq_ok.mp hstep
      obtain rfl := Except.ok.inj hstep
      exact settled_update h hsession party
  | deliver posted maxPlaintextLength isSequential =>
    obtain ⟨⟨session', result⟩, hdecrypt, hstep⟩ := Checked.bind_eq_ok.mp hstep
    have hsession := (h posted.inner.sender.peer).decrypt hdecrypt
    cases result with
    | none =>
      obtain rfl := Except.ok.inj hstep
      exact settled_update h hsession party
    | some plaintext =>
      obtain rfl := Except.ok.inj hstep
      exact settled_update h hsession party
  | measure asking messageType message =>
    obtain ⟨⟨session', result⟩, hmeasure, hstep⟩ := Checked.bind_eq_ok.mp hstep
    obtain rfl := Except.ok.inj hstep
    exact settled_update h ((h asking).congr
      (Session.ratchet_of_decryptMaxPlaintextLength (h asking).noError hmeasure)) party

end Settled

/-- Between events. -/
structure Steady (c : Conversation K) : Prop where
  sound : c.Sound
  settled : ∀ party, (c.session party).Settled

/-- **One event** is a run of the ratchets inside, and pickling does nothing
to them. -/
theorem Steady.keptStep {c c' : Conversation SharedKey} (h : c.Steady)
    (hlawful : prims.cipher.Lawful) {e : KeptEvent} (hideal : c.KeptIdeal prims e)
    (hstep : c.keptStep prims e = .ok c') :
    c'.Steady ∧ Run (System.step prims.ratchetConfig) (System.Ideal prims.ratchetConfig)
      c.ratchets c'.ratchets := by
  cases e with
  | event e =>
    obtain ⟨hsound, hrun⟩ := h.sound.step (fun _ _ => ⟨trivial, trivial⟩) hlawful hideal.1
      (fun e' => ideal_of_inside h.sound hideal) hstep
    exact ⟨⟨hsound, settled_of_step h.settled hstep⟩, hrun⟩
  | reload party stale =>
    have hsettled := h.settled party
    obtain rfl := Except.ok.inj hstep
    rw [hsettled.unpickle_pickle stale]
    have hratchets : ({ c with
        session := Function.update c.session party { c.session party with lastError := .SUCCESS } } :
        Conversation SharedKey).ratchets = c.ratchets := ratchets_update_self c rfl
    refine ⟨⟨⟨h.sound.update hsettled.noError, h.sound.posted⟩,
      settled_update h.settled (hsettled.congr rfl)⟩, ?_⟩
    rw [hratchets]
    exact .start

end Conversation

/-- **The chains of sessions.** Whatever a session that was set up is given, and
however often it is pickled, one of its lists has a chain, and `encrypt` and
`decrypt` read no empty one. And as long as it is honest ends that send, the
skipped keys of a stored chain are behind it and no two are the same. -/
theorem chains_of_run (prims : Primitives SharedKey) (hcommutes : prims.curve.Commutes)
    (hlawful : prims.cipher.Lawful) :
    (∀ start session : Session SharedKey, start.Created prims (FixedBytes.zero _) →
      Run (Session.use prims) (fun _ _ => True) start session → session.ReadsChains prims) ∧
    ∀ (alice bob : Session SharedKey) (c : Conversation SharedKey),
      Session.Paired prims (FixedBytes.zero _) alice bob →
      Run (Conversation.keptStep prims) (Conversation.KeptIdeal prims) (.of alice bob) c →
      ∀ party, (c.session party).ratchet.SkippedBehind := by
  constructor
  · intro start session hcreated hrun
    have hsteady : session.Steady :=
      hrun.invariant ⟨hcreated.settled, hcreated.nonEmpty⟩ fun _ _ _ h _ hstep => h.use hstep
    exact hsteady.readsChains
  · intro alice bob c hpaired hrun party
    obtain ⟨secret, ratchetKey, hgenerated, halice, hbob⟩ := hpaired.exists_start
    have hstart : (Conversation.of alice bob).Steady := by
      have hsettled (party : Party) : ((Conversation.of alice bob).session party).Settled := by
        cases party with
        | alice => exact hpaired.aliceCreated.settled
        | bob => exact hpaired.bobCreated.settled
      exact ⟨⟨fun party => (hsettled party).noError, by intro posted hmem; cases hmem⟩, hsettled⟩
    obtain ⟨s, hs, -, rfl⟩ := hrun.simulation (R := fun c s => c.Steady ∧ c.ratchets = s)
      ⟨hstart, rfl⟩ (by
        rintro c _ e c' ⟨hsteady, rfl⟩ hideal hstep
        obtain ⟨hsteady', hrun⟩ := hsteady.keptStep hlawful hideal hstep
        exact ⟨_, hrun, hsteady', rfl⟩)
    rw [Conversation.ratchets_of halice hbob] at hs
    obtain ⟨epoch, view, hagrees, hspent⟩ := System.stands_of_run hcommutes hlawful hgenerated hs
    exact ⟨(hagrees.ratchet party).behind, (hspent party).distinct⟩

/-! ## Two sessions of one set-up -/

/-- Alice's session to Bob. -/
def Session.toSevens (hashes : Hashes) : Session SharedKey :=
  match Session.newOutboundSessionTo (.ofHashes .xor .accepting hashes .identity)
      (FixedBytes.zero _) Account.sevens Account.sevens Account.sevens.currentPrekey none
      (List.replicate 64 1) with
  | .ok (session, _) => session
  | .error _ => .new (FixedBytes.zero _)

/-- Her first message. -/
def Session.firstMessage (hashes : Hashes) : Bytes :=
  match (toSevens hashes).encrypt (.ofHashes .xor .accepting hashes .identity) [] []
      (List.replicate 240 0) with
  | .ok (_, some (buf, _)) =>
    buf.take ((toSevens hashes).encryptMessageLength (.ofHashes .xor .accepting hashes .identity) 0)
  | _ => []

/-- Bob's session from it. -/
def Session.fromSevens (hashes : Hashes) : Session SharedKey :=
  match (Session.new (FixedBytes.zero _)).newInboundSession
      (.ofHashes .xor .accepting hashes .identity) Account.sevens none (firstMessage hashes) with
  | .ok (session, _) => session
  | .error _ => .new (FixedBytes.zero _)

/-- What is evaluated of them. -/
def Session.SetUpSevens (hashes : Hashes) : Prop :=
  Session.newOutboundSessionTo (.ofHashes .xor .accepting hashes .identity) (FixedBytes.zero _)
    Account.sevens Account.sevens Account.sevens.currentPrekey none (List.replicate 64 1) =
      .ok (toSevens hashes, some ()) ∧
  (Session.new (FixedBytes.zero _)).newInboundSession (.ofHashes .xor .accepting hashes .identity)
    Account.sevens none (firstMessage hashes) = .ok (fromSevens hashes, some ()) ∧
  (fromSevens hashes).ratchet.rootKey = (toSevens hashes).ratchet.rootKey ∧
  (toSevens hashes).ratchet.senderChain.toList.length = 1 ∧
  (fromSevens hashes).ratchet.receiverChains.toList =
    (toSevens hashes).ratchet.senderChain.toList.map fun chain =>
      { ratchetKey := chain.ratchetKey.publicKey, chainKey := chain.chainKey }

instance (hashes : Hashes) : Decidable (Session.SetUpSevens hashes) :=
  inferInstanceAs (Decidable (_ ∧ _ ∧ _ ∧ _ ∧ _))

theorem Session.SetUpSevens.paired {hashes : Hashes} (h : SetUpSevens hashes) :
    Paired (.ofHashes .xor .accepting hashes .identity) (FixedBytes.zero _) (toSevens hashes)
      (fromSevens hashes) := by
  obtain ⟨halice, hbob, hroot, hlength, hchains⟩ := h
  obtain ⟨chain, hchain⟩ := List.length_eq_one_iff.mp hlength
  rw [hchain] at hchains
  exact ⟨.newOutboundSession halice, .newInboundSession hbob, hroot, chain.ratchetKey,
    chain.chainKey, hchain, hchains⟩

theorem Session.setUpSevens_mixing : SetUpSevens .mixing := by
  decide +kernel

theorem Session.setUpSevens_zero : SetUpSevens .zero := by
  decide +kernel

/-! ### A run of them -/

namespace Conversation

/-- What a script is checked for: honest ends, and messages that try no wrong
key. -/
def KeptPlain (prims : Primitives SharedKey) (c : Conversation SharedKey) : KeptEvent → Prop
  | .event e => c.Plain prims e
  | .reload _ _ => True

instance (prims : Primitives SharedKey) (c : Conversation SharedKey) :
    (e : KeptEvent) → Decidable (c.KeptPlain prims e)
  | .event e => inferInstanceAs (Decidable (c.Plain prims e))
  | .reload .. => .isTrue trivial

theorem keptIdeal_of_plain {prims : Primitives SharedKey} (c : Conversation SharedKey)
    (e : KeptEvent) (h : c.KeptPlain prims e) : c.KeptIdeal prims e := by
  cases e with
  | event e => exact ideal_of_plain _ c e h
  | reload => trivial

/-- The party encrypts a plain text of one byte, with that byte for its random. -/
def KeptEvent.encrypting (party : Party) (byte : UInt8) (c : Conversation SharedKey) : KeptEvent :=
  .event (.encrypting party byte c)

/-- A message that was posted is delivered. -/
def KeptEvent.delivering (n : ℕ) (c : Conversation SharedKey) : KeptEvent :=
  .event (.delivering n false c)

/-- The party's session is pickled, and the pickle is read. -/
def KeptEvent.reloading (party : Party) (_ : Conversation SharedKey) : KeptEvent :=
  .reload party .zero

/-- Each end skips messages of the other and is pickled with their keys, and Bob
uses one of them after it. -/
def keptScript : List (Conversation SharedKey → KeptEvent) :=
  [.encrypting .alice 0, .encrypting .alice 1, .encrypting .alice 2, .delivering 2,
    .reloading .bob, .delivering 0, .encrypting .bob 3, .encrypting .bob 4, .delivering 4,
    .reloading .alice, .encrypting .alice 5, .delivering 5]

/-- The sessions after that. -/
def kept : Conversation SharedKey :=
  Run.play (keptStep .mixing) keptScript (.of (.toSevens .mixing) (.fromSevens .mixing))

/-- What else Bob's session may be given: a message out of order, one that is
not one, and a plain text, with a pickle before it. -/
def usedScript : List (Session SharedKey → Session.Use) :=
  [fun _ => .call (.decrypt (kept.postedAt 2).messageType (kept.postedAt 2).bytes 16 false),
    fun _ => .call (.decrypt .MESSAGE [] 16 false), fun _ => .reload .zero,
    fun _ => .call (.encrypt [3] (List.replicate 32 3) (List.replicate 80 0))]

theorem kept_evaluates :
    Run.Plays (keptStep .mixing) (KeptPlain .mixing) keptScript
      (.of (.toSevens .mixing) (.fromSevens .mixing)) ∧
    (kept.session .bob).ratchet.skippedMessageKeys.toList.map (·.messageKey.index) = [1] ∧
    (kept.session .bob).ratchet.receiverChains.toList.map (·.chainKey.index) = [1, 3] ∧
    (kept.session .alice).ratchet.skippedMessageKeys.toList.map (·.messageKey.index) = [0] ∧
    Run.Plays (Session.use .mixing) (fun _ _ => True) usedScript (.fromSevens .mixing) := by
  decide +kernel

end Conversation

/-- Two sessions that skipped messages of each other. -/
theorem chains_of_run_kept :
    (Conversation.kept.session .bob).ratchet.skippedMessageKeys.toList.map (·.messageKey.index) =
      [1] ∧
    (Conversation.kept.session .alice).ratchet.skippedMessageKeys.toList.map (·.messageKey.index) =
      [0] ∧
    (∀ party, (Conversation.kept.session party).ratchet.SkippedBehind) ∧
    (Run.play (Session.use .mixing) Conversation.usedScript
      (.fromSevens .mixing)).ReadsChains .mixing := by
  obtain ⟨hplays, hbob, -, halice, hused⟩ := Conversation.kept_evaluates
  have hpaired := Session.setUpSevens_mixing.paired
  obtain ⟨hreads, hskipped⟩ := chains_of_run .mixing Curve25519.xor_commutes
    Primitives.mixing_lawful
  exact ⟨hbob, halice,
    hskipped _ _ _ hpaired (hplays.run Conversation.keptIdeal_of_plain .start),
    hreads _ _ hpaired.bobCreated (hused.run (fun _ _ _ => trivial) .start)⟩

namespace Conversation

/-! ### Without the assumptions -/

/-- What `KeptIdeal` assumes besides messages that were sent. -/
inductive Assumption where
  /-- A chain does not get to 2^32 messages. -/
  | short
  /-- A ratchet key that is made is new. -/
  | fresh
  /-- A message fails under a wrong key. -/
  | rightKey
  deriving DecidableEq

section But

variable (prims : Primitives SharedKey)

/-- All of it but one assumption. -/
def KeptBut (left : Assumption) (c : Conversation SharedKey) : KeptEvent → Prop
  | .event (.encrypt party _ random message) =>
    message.length < 2 ^ SIZE_WIDTH ∧
    ∀ started senderChain,
      (c.session party).ratchet.startSenderChain prims.ratchetConfig random =
        .ok (started, senderChain) →
      (left ≠ .short → senderChain.chainKey.index + 1 < 2 ^ 32) ∧
      (left ≠ .fresh → (c.session party).ratchet.senderChain.toList = [] →
        senderChain.ratchetKey.publicKey ∉ c.ratchetKeys)
  | .event (.deliver posted _ _) =>
    posted ∈ c.posted ∧
    (left ≠ .rightKey → c.ratchets.FailsUnderWrongKey prims.ratchetConfig posted.inner)
  | _ => True

variable {prims} in
/-- No other assumption is made. -/
theorem keptIdeal_iff {c : Conversation SharedKey} {e : KeptEvent} :
    c.KeptIdeal prims e ↔ ∀ left, c.KeptBut prims left e := by
  constructor
  · intro hideal left
    match e, hideal with
    | .event (.encrypt ..), ⟨⟨hsize, hfresh⟩, _⟩ =>
      exact ⟨hsize, fun started senderChain hstart =>
        (hfresh started senderChain hstart).imp (fun h _ => h) (fun h _ => h)⟩
    | .event (.deliver ..), ⟨hmem, hfails⟩ => exact ⟨hmem, fun _ => hfails⟩
    | .event (.measure ..), _ => trivial
    | .reload .., _ => trivial
  · intro hall
    match e with
    | .event (.encrypt ..) =>
      refine ⟨⟨(hall .short).1, fun started senderChain hstart => ?_⟩, trivial⟩
      exact ⟨((hall .fresh).2 started senderChain hstart).1 (by decide),
        ((hall .short).2 started senderChain hstart).2 (by decide)⟩
    | .event (.deliver ..) => exact ⟨(hall .short).1, (hall .short).2 (by decide)⟩
    | .event (.measure ..) => exact ⟨trivial, trivial⟩
    | .reload .. => trivial

/-- What a script is checked for that does without one of them. -/
def KeptPlainBut (left : Assumption) (c : Conversation SharedKey) : KeptEvent → Prop
  | .event (.deliver posted _ _) =>
    posted ∈ c.posted ∧
    (left ≠ .rightKey → c.ratchets.TriesOwnKey prims.ratchetConfig posted.inner)
  | e => c.KeptBut prims left e

instance (left : Assumption) (c : Conversation SharedKey) :
    (e : KeptEvent) → Decidable (c.KeptPlainBut prims left e)
  | .event (.encrypt ..) => inferInstanceAs (Decidable (_ ∧ ∀ _ _, _ → _))
  | .event (.deliver ..) => inferInstanceAs (Decidable (_ ∧ (_ → _)))
  | .event (.measure ..) => .isTrue trivial
  | .reload .. => .isTrue trivial

variable {prims} in
theorem keptBut_of_plain {left : Assumption} (c : Conversation SharedKey) (e : KeptEvent)
    (h : c.KeptPlainBut prims left e) : c.KeptBut prims left e := by
  match e, h with
  | .event (.deliver ..), ⟨hmem, hown⟩ => exact ⟨hmem, fun hleft => (hown hleft).failsUnderWrongKey⟩
  | .event (.encrypt ..), h => exact h
  | .event (.measure ..), _ => trivial
  | .reload .., _ => trivial

end But

/-- **Without the assumption the skipped keys do not stay behind**: some run under
the others leaves Bob one that is not behind its chain. -/
def NeedsAssumption (left : Assumption) : Prop :=
  ∃ (prims : Primitives SharedKey) (alice bob : Session SharedKey) (c : Conversation SharedKey),
    prims.curve.Commutes ∧ prims.cipher.Lawful ∧
    Session.Paired prims (FixedBytes.zero _) alice bob ∧
    Run (keptStep prims) (KeptBut prims left) (.of alice bob) c ∧
    ¬ (c.session .bob).ratchet.SkippedBehind

/-- Alice sends four messages and Bob gets the last. Five times then both make a new
chain, until he has none of her first. -/
def evictingScript : List (Conversation SharedKey → KeptEvent) :=
  [.encrypting .alice 0, .encrypting .alice 0, .encrypting .alice 0, .encrypting .alice 0,
    .delivering 3] ++
  ([0, 1, 2, 3, 4] : List ℕ).flatMap fun round =>
    [.encrypting .bob (UInt8.ofNat (11 + round)), .delivering (4 + 2 * round),
      .encrypting .alice (UInt8.ofNat (21 + round)), .delivering (5 + 2 * round)]

/-- Her first message is delivered again where he has a sender chain. -/
def wrongKeyScript : List (Conversation SharedKey → KeptEvent) :=
  evictingScript ++ [.encrypting .bob 16, .delivering 0]

/-- Alice makes her first ratchet key once more. -/
def sameKeyScript : List (Conversation SharedKey → KeptEvent) :=
  evictingScript ++ [.encrypting .bob 16, .delivering 14, .encrypting .alice 1, .delivering 15]

/-- The skipped keys that are not behind their chains. -/
def notBehind (ratchet : Ratchet SharedKey) : List ℕ :=
  (ratchet.skippedMessageKeys.toList.filter fun skipped => ratchet.receiverChains.toList.any
    fun chain => chain.ratchetKey = skipped.ratchetKey ∧
      chain.chainKey.index ≤ skipped.messageKey.index).map (·.messageKey.index)

theorem not_skippedBehind {ratchet : Ratchet SharedKey} (h : notBehind ratchet ≠ []) :
    ¬ ratchet.SkippedBehind := by
  intro hbehind
  refine h ?_
  rw [notBehind, List.map_eq_nil_iff, List.filter_eq_nil_iff]
  intro skipped hskipped hany
  obtain ⟨chain, hchain, hbad⟩ := List.any_eq_true.mp hany
  obtain ⟨hkey, hle⟩ := of_decide_eq_true hbad
  exact Nat.not_lt.mpr hle (hbehind.behind skipped hskipped chain hchain hkey)

theorem wrongKey_evaluates :
    Run.Plays (keptStep (.ofHashes .xor .accepting .zero .identity))
      (KeptPlainBut (.ofHashes .xor .accepting .zero .identity) .rightKey) wrongKeyScript
      (.of (.toSevens .zero) (.fromSevens .zero)) ∧
    notBehind ((Run.play (keptStep (.ofHashes .xor .accepting .zero .identity)) wrongKeyScript
      (.of (.toSevens .zero) (.fromSevens .zero))).session .bob).ratchet ≠ [] := by
  decide +kernel

theorem sameKey_evaluates :
    Run.Plays (keptStep .mixing) (KeptPlainBut .mixing .fresh) sameKeyScript
      (.of (.toSevens .mixing) (.fromSevens .mixing)) ∧
    notBehind ((Run.play (keptStep .mixing) sameKeyScript
      (.of (.toSevens .mixing) (.fromSevens .mixing))).session .bob).ratchet ≠ [] := by
  decide +kernel

theorem needsAssumption_rightKey : NeedsAssumption .rightKey := by
  obtain ⟨hplays, hskipped⟩ := wrongKey_evaluates
  exact ⟨_, _, _, _, Curve25519.xor_commutes,
    (aesSha256_lawful .zero Aes256.identity_inverts CIPHER_KDF_INFO).comap _,
    Session.setUpSevens_zero.paired, hplays.run keptBut_of_plain .start,
    not_skippedBehind hskipped⟩

theorem needsAssumption_fresh : NeedsAssumption .fresh := by
  obtain ⟨hplays, hskipped⟩ := sameKey_evaluates
  exact ⟨_, _, _, _, Curve25519.xor_commutes, Primitives.mixing_lawful,
    Session.setUpSevens_mixing.paired, hplays.run keptBut_of_plain .start,
    not_skippedBehind hskipped⟩

/-! ### A chain of 2^32 messages -/

section Wrap

variable {prims : Primitives SharedKey} {alice bob : Session SharedKey}
  {chain : SenderChain SharedKey} {around : Ratchet.Around SharedKey}
  {c : Conversation SharedKey} {n counter : ℕ} {window : Window (SkippedMessageKey SharedKey)}

/-- Alice has sent `n` messages on her first chain, and this is Bob's window on
it. -/
structure OnFirstChain (prims : Primitives SharedKey) (alice : Session SharedKey)
    (chain : SenderChain SharedKey) (around : Ratchet.Around SharedKey) (n : ℕ)
    (window : Window (SkippedMessageKey SharedKey)) (c : Conversation SharedKey) : Prop where
  sending : Session.SendingAt prims alice chain n (c.session .alice)
  shows : (c.session .bob).ratchet.Shows prims.ratchetConfig around chain.ratchetKey.publicKey
    chain.chainKey.key window

/-- A message of that chain is under way. -/
def UnderWay (prims : Primitives SharedKey) (chain : SenderChain SharedKey) (counter : ℕ)
    (c : Conversation SharedKey) : Prop :=
  ∃ posted ∈ c.posted, posted.inner.sender = .alice ∧
    posted.inner.ratchetKey = chain.ratchetKey.publicKey ∧
    ∃ delivery : Session.Delivery,
      delivery.IsHonest prims chain.ratchetKey.publicKey chain.chainKey.key ∧
      delivery.counter = counter ∧ delivery.messageType = posted.messageType ∧
      delivery.header ++ delivery.body = posted.bytes

theorem exists_onFirstChain_of
    (h : Session.Paired prims (FixedBytes.zero _) alice bob) :
    ∃ chain around, OnFirstChain prims alice chain around 0 { index := 0, kept := [] }
      (.of alice bob) := by
  obtain ⟨secret, ratchetKey, -, halice, hbob⟩ := h.exists_start
  refine ⟨⟨ratchetKey, ⟨0, (prims.kdf.hkdfSha256 secret none OLM_KDF_INFO.rootInfo).2⟩⟩,
    ⟨bob.ratchet.rootKey, bob.ratchet.senderChain, [], []⟩, ⟨rfl, rfl, rfl, rfl, rfl, ?_⟩,
    ⟨rfl, rfl, nofun, ?_, ?_, nofun⟩⟩
  · dsimp only [of]
    rw [halice]
    rfl
  · dsimp only [of]
    rw [hbob]
    rfl
  · dsimp only [of]
    rw [hbob]
    rfl

/-- She sends another. -/
theorem OnFirstChain.encrypt (h : c.OnFirstChain prims alice chain around n window)
    (hlawful : prims.cipher.Lawful) (hn : n < 2 ^ 32)
    (hsmall : prims.cipher.encryptCiphertextLength ([] : Bytes).length + prims.cipher.macLength <
      2 ^ 32) :
    ∃ e c', c.KeptBut prims .short e ∧ c.keptStep prims e = .ok c' ∧
      c'.OnFirstChain prims alice chain around (n + 1) window ∧ c'.UnderWay prims chain n := by
  obtain ⟨message, session', buf, length, hsize, hrun⟩ :=
    h.sending.exists_encrypt hlawful [] hsmall
  have hstarts := h.sending.startSenderChain []
  obtain ⟨started, senderChain, bytes, hstart, -, -, hsealed, htake, hframes⟩ :=
    Session.exists_sealedBy_of_encrypt hlawful.leaves hsize hrun
  obtain ⟨rfl, rfl⟩ := Prod.mk.inj (Except.ok.inj (hstarts.symm.trans hstart))
  have hassumed : c.KeptBut prims .short (.event (.encrypt .alice [] [] message)) := by
    refine ⟨hsize, fun _ _ _ => ⟨fun hleft => absurd rfl hleft, fun _ hnone => ?_⟩⟩
    rw [h.sending.senderChain] at hnone
    cases hnone
  have hstep : ∃ c', c.keptStep prims (.event (.encrypt .alice [] [] message)) = .ok c' ∧
      c'.session .alice = session' ∧ c'.session .bob = c.session .bob ∧
      ∃ posted ∈ c'.posted, posted.inner.sender = .alice ∧
        posted.inner.ratchetKey = chain.ratchetKey.publicKey ∧
        posted.messageType = (c.session .alice).encryptMessageType ∧
        posted.bytes = buf.take ((c.session .alice).encryptMessageLength prims ([] : Bytes).length) :=
    ⟨_, Checked.bind_eq_ok.mpr ⟨_, hrun, Checked.bind_eq_ok.mpr
      ⟨_, Checked.bind_eq_ok.mpr ⟨_, hstarts, rfl⟩, rfl⟩⟩, rfl, rfl, _, List.mem_cons_self, rfl, rfl,
      rfl, rfl⟩
  obtain ⟨c', hstep, halice, hbob, posted, hmem, hsender, hkey, htype, hbytes⟩ := hstep
  refine ⟨_, c', hassumed, hstep, ⟨halice ▸ h.sending.encrypt hrun, hbob ▸ h.shows⟩, posted, hmem,
    hsender, hkey, ⟨posted.messageType, (c.session .alice).header bytes.length, bytes, n,
      plaintextRoom prims.ratchetConfig []⟩, ⟨htype ▸ hframes, hn, [], ?_, Nat.le_refl _⟩, rfl, rfl,
    (hbytes.trans htake).symm⟩
  simp only [Nat.mod_eq_of_lt hn] at hsealed
  exact hsealed

/-- Bob gets one that his chain is not past. -/
theorem OnFirstChain.deliver (h : c.OnFirstChain prims alice chain around n window)
    (hway : c.UnderWay prims chain counter) (hahead : window.index ≤ counter)
    (hgap : counter ≤ window.index + MAX_MESSAGE_GAP) :
    ∃ e c', c.KeptBut prims .short e ∧ c.keptStep prims e = .ok c' ∧
      c'.session .alice = c.session .alice ∧
      (c'.session .bob).ratchet = (c.session .bob).ratchet.advanceReceiverChain prims.ratchetConfig
        around.before.length
        { ratchetKey := chain.ratchetKey.publicKey
          chainKey := chainKeyAt prims.ratchetConfig chain.chainKey.key window.index } counter := by
  obtain ⟨posted, hmem, hsender, hkey, delivery, hhonest, rfl, htype, hbytes⟩ := hway
  obtain ⟨session', plaintext, hdecrypt, hratchet⟩ := hhonest.decrypt_ahead h.shows hahead hgap
  have hpeer : posted.inner.sender.peer = .bob := by
    rw [hsender]
    rfl
  rw [htype, hbytes, ← hpeer] at hdecrypt
  have hassumed : c.KeptBut prims .short
      (.event (.deliver posted delivery.maxPlaintextLength false)) := by
    refine ⟨hmem, fun _ => System.TriesOwnKey.failsUnderWrongKey (.inl ?_)⟩
    rw [hpeer, hkey]
    exact ⟨_, h.shows.receiverChains ▸ List.mem_append_right _ List.mem_cons_self, rfl⟩
  refine ⟨_, _, hassumed, Checked.bind_eq_ok.mpr ⟨_, hdecrypt, rfl⟩, ?_, ?_⟩
  · dsimp only
    rw [hpeer]
    rfl
  · dsimp only
    rw [hpeer]
    exact hratchet

/-- **Bob gets all of them in turn**, up to the last but one. -/
theorem exists_onFirstChain (hlawful : prims.cipher.Lawful)
    (hsmall : prims.cipher.encryptCiphertextLength ([] : Bytes).length + prims.cipher.macLength <
      2 ^ 32)
    (hstart : c.OnFirstChain prims alice chain around 0 { index := 0, kept := [] })
    (hn : n + 1 < 2 ^ 32) :
    ∃ c', Run (keptStep prims) (KeptBut prims .short) c c' ∧
      c'.OnFirstChain prims alice chain around n { index := n, kept := [] } := by
  induction n with
  | zero => exact ⟨c, .start, hstart⟩
  | succ n ih =>
    obtain ⟨c₀, hrun, hchain⟩ := ih (Nat.lt_of_succ_lt hn)
    obtain ⟨e₁, c₁, hassumed₁, hstep₁, hchain₁, hway⟩ :=
      hchain.encrypt hlawful (by omega) hsmall
    obtain ⟨e₂, c₂, hassumed₂, hstep₂, halice, hbob⟩ :=
      hchain₁.deliver hway (Nat.le_refl _) (Nat.le_add_right _ _)
    refine ⟨c₂, .step e₂ (.step e₁ hrun hassumed₁ hstep₁) hassumed₂ hstep₂,
      ⟨halice ▸ hchain₁.sending, ?_⟩⟩
    have hshows := hchain₁.shows.advanceReceiverChain (Nat.le_refl n) (Nat.lt_of_succ_lt hn)
      (by simp)
    rw [← hbob] at hshows
    simpa [moveWindow, Window.receive, Window.skippedRange] using hshows

/-- The skipped key of the message before a wrap is not behind the chain. -/
theorem not_skippedBehind_of_wrap {config : RatchetConfig SharedKey}
    {ratchet : Ratchet SharedKey} {ratchetKey : Curve25519PublicKey} {start : SharedKey}
    (h : ratchet.Shows config around ratchetKey start { index := 2 ^ 32 - 2, kept := [] }) :
    ¬ (ratchet.advanceReceiverChain config around.before.length
      { ratchetKey := ratchetKey, chainKey := chainKeyAt config start (2 ^ 32 - 2) }
      (2 ^ 32 - 1)).SkippedBehind := by
  intro hbehind
  obtain ⟨skipped, hstore, hlist⟩ := Ratchet.storeSkippedMessageKeys_chainKeyAt config ratchetKey
    start (by decide : 2 ^ 32 - 2 ≤ 2 ^ 32 - 1) (by decide) ratchet.skippedMessageKeys
  simp only [Ratchet.advanceReceiverChain, chainKeyAt_index, hstore] at hbehind
  have hmem : skippedKeyAt config ratchetKey start (2 ^ 32 - 2) ∈ skipped.toList := by
    rw [hlist, h.kept]
    exact List.mem_cons_self
  have hchain : { ratchetKey := ratchetKey
                  chainKey := advanceChainKey config (chainKeyAt config start (2 ^ 32 - 1)) } ∈
      (ratchet.receiverChains.set around.before.length
        { ratchetKey := ratchetKey
          chainKey := advanceChainKey config (chainKeyAt config start (2 ^ 32 - 1)) }).toList := by
    rw [BoundedList.toList_set, h.receiverChains, List.set_append_right _ _ (Nat.le_refl _),
      Nat.sub_self, List.set_cons_zero]
    exact List.mem_append_right _ List.mem_cons_self
  -- the chain is at 0 again
  have hzero : (advanceChainKey config (chainKeyAt config start (2 ^ 32 - 1))).index = 0 := by
    simp only [advanceChainKey, chainKeyAt_index]
    decide
  have hlt := hbehind.behind _ hmem _ hchain rfl
  rw [hzero] at hlt
  exact absurd hlt (Nat.not_lt_zero _)

theorem needsAssumption_short : NeedsAssumption .short := by
  have hsmall : Primitives.mixing.cipher.encryptCiphertextLength ([] : Bytes).length +
      Primitives.mixing.cipher.macLength < 2 ^ 32 := by decide
  obtain ⟨chain, around, hstart⟩ := exists_onFirstChain_of Session.setUpSevens_mixing.paired
  obtain ⟨c, hrun, hchain⟩ := exists_onFirstChain Primitives.mixing_lawful hsmall hstart
    (n := 2 ^ 32 - 2) (by decide)
  obtain ⟨e₁, c₁, hassumed₁, hstep₁, hchain₁, -⟩ :=
    hchain.encrypt Primitives.mixing_lawful (by decide) hsmall
  obtain ⟨e₂, c₂, hassumed₂, hstep₂, hchain₂, hway⟩ :=
    hchain₁.encrypt Primitives.mixing_lawful (by decide) hsmall
  obtain ⟨e₃, c₃, hassumed₃, hstep₃, -, hbob⟩ := hchain₂.deliver hway (by decide) (by decide)
  refine ⟨_, _, _, c₃, Curve25519.xor_commutes, Primitives.mixing_lawful,
    Session.setUpSevens_mixing.paired, .step e₃ (.step e₂ (.step e₁ hrun hassumed₁ hstep₁)
      hassumed₂ hstep₂) hassumed₃ hstep₃, ?_⟩
  rw [hbob]
  exact not_skippedBehind_of_wrap hchain₂.shows

end Wrap

/-- **Each of the three is needed**: a run under the other two leaves Bob a skipped
key that is not behind its chain, which has wrapped around, or was made again of
its old message or its old ratchet key. -/
theorem not_chains_of_run :
    NeedsAssumption .short ∧ NeedsAssumption .fresh ∧ NeedsAssumption .rightKey :=
  ⟨needsAssumption_short, needsAssumption_fresh, needsAssumption_rightKey⟩

end Conversation

end Olm
