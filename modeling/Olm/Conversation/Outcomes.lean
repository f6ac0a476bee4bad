import Olm.Conversation.Replay
import Olm.Conversation.Sequential
import Olm.Conversation.Sessions
import Olm.Symbolic

/-!
# What two sessions can rely on

The results about the ratchets, for the sessions around them: a message that
was decrypted is not decrypted again, and a session that receives in sequence
gets every message of a chain in turn.
-/

namespace Olm

variable {K : Type} {prims : Primitives K}

namespace System

variable {config : RatchetConfig K} {A : System K → Event → Prop} {s s' : System K}

/-- What was accepted stays so. -/
theorem accepted_of_run (hrun : Run (System.step config) A s s') {party : Party}
    {message : Curve25519PublicKey × ℕ} (hmem : message ∈ s.accepted party) :
    message ∈ s'.accepted party := by
  refine hrun.invariant (P := fun s => message ∈ s.accepted party) hmem ?_
  intro s e s' hmem _ hstep
  cases e with
  | encrypt sender plaintext random buf output maxOutputLength =>
    rw [(frame_of_encrypt hstep).1]
    exact hmem
  | deliver delivered pre post maxPlaintextLength isSequential =>
    obtain ⟨⟨ratchet', result⟩, -, hstep⟩ := Checked.bind_eq_ok.mp hstep
    cases result with
    | none =>
      obtain rfl := Except.ok.inj hstep
      exact hmem
    | some plaintext =>
      obtain rfl := Except.ok.inj hstep
      by_cases hparty : party = delivered.sender.peer
      · subst hparty
        simp only [Record.decrypted, Function.update_self]
        exact List.mem_cons_of_mem _ hmem
      · simp only [Record.decrypted, Function.update_of_ne hparty]
        exact hmem
  | clearError other =>
    obtain rfl := Except.ok.inj hstep
    exact hmem

end System

namespace Conversation

variable {B : Conversation K → SessionEvent → Prop} {c c' : Conversation K} {posted : Posted}

/-- What was posted stays so. -/
theorem posted_of_run (hrun : Run (Conversation.step prims) B c c') (hmem : posted ∈ c.posted) :
    posted ∈ c'.posted := by
  refine hrun.invariant (P := fun c => posted ∈ c.posted) hmem ?_
  intro c e c' hmem _ hstep
  cases e with
  | encrypt party plaintext random message =>
    obtain ⟨⟨session, result⟩, -, hstep⟩ := Checked.bind_eq_ok.mp hstep
    cases result with
    | none =>
      obtain rfl := Except.ok.inj hstep
      exact hmem
    | some written =>
      obtain ⟨⟨record, inner⟩, -, hstep⟩ := Checked.bind_eq_ok.mp hstep
      obtain rfl := Except.ok.inj hstep
      exact List.mem_cons_of_mem _ hmem
  | deliver delivered maxPlaintextLength isSequential =>
    obtain ⟨⟨session, result⟩, -, hstep⟩ := Checked.bind_eq_ok.mp hstep
    cases result <;>
    · obtain rfl := Except.ok.inj hstep
      exact hmem
  | measure party messageType message =>
    obtain ⟨⟨session, result⟩, -, hstep⟩ := Checked.bind_eq_ok.mp hstep
    obtain rfl := Except.ok.inj hstep
    exact hmem

/-- What a delivery that succeeds accepts. -/
theorem mem_accepted_of_deliver {maxPlaintextLength : ℕ} {isSequential : Bool}
    {session' : Session K} {plaintext : Bytes}
    (hdecrypt : (c.session posted.inner.sender.peer).decrypt prims posted.messageType posted.bytes
      maxPlaintextLength isSequential = .ok (session', some plaintext))
    (hstep : c.deliver prims posted maxPlaintextLength isSequential = .ok c') :
    (posted.inner.ratchetKey, posted.inner.counter) ∈ c'.accepted posted.inner.sender.peer := by
  unfold deliver at hstep
  simp only [hdecrypt, Checked.ok_bind] at hstep
  obtain rfl := Except.ok.inj hstep
  simp only [Record.decrypted, Function.update_self]
  exact List.mem_cons_self

/-! ## No message twice -/

/-- What happens inside is ideal. -/
theorem ideal_of_inside {e : SessionEvent} {e' : Event} (hsound : c.Sound) (hideal : c.Ideal prims e)
    (hinside : e.Inside e') : c.ratchets.Ideal prims.ratchetConfig e' := by
  obtain ⟨hhonest, hfails⟩ := hideal
  cases hinside with
  | encrypt hroom hlength => exact ⟨⟨hroom, hlength ▸ hhonest.1, hhonest.2⟩, trivial⟩
  | deliver => exact ⟨(hsound.posted _ hhonest).1, hfails⟩

/-- The ratchets stand as they do in a run of their own. -/
theorem run_ratchets_of_ideal (hlawful : prims.cipher.Lawful) {first : Conversation K}
    (hfirst : first.Sound)
    (hrun : Run (Conversation.step prims) (Conversation.Ideal prims) first c) :
    c.Sound ∧
      Run (System.step prims.ratchetConfig) (System.Ideal prims.ratchetConfig) first.ratchets
        c.ratchets :=
  run_ratchets (fun _ _ => ⟨trivial, trivial⟩) hlawful (fun _ _ hideal => hideal.1)
    (fun _ hsound _ _ hideal hinside => ideal_of_inside hsound hideal hinside) hfirst hrun

/-- **A message that a session decrypted is not decrypted by it again.** In
every later state its chain is stored and past it, or was evicted; its key
is not among the skipped ones; and `decrypt` refuses it. -/
theorem decrypt_eq_none_of_decrypted (hcommutes : prims.curve.Commutes)
    (hlawful : prims.cipher.Lawful) {zeroKey : K} {sharedSecret : Bytes}
    {ratchetKey : Curve25519KeyPair} (hgenerated : prims.curve.Generated ratchetKey)
    {session : Party → Session K} {maxPlaintextLength : ℕ} {isSequential : Bool}
    (hrun : Run (Conversation.step prims) (Conversation.Ideal prims)
      (start prims zeroKey sharedSecret ratchetKey session) c)
    (hideal : c.Ideal prims (.deliver posted maxPlaintextLength isSequential))
    {session' : Session K} {plaintext : Bytes}
    (hdecrypt : (c.session posted.inner.sender.peer).decrypt prims posted.messageType posted.bytes
      maxPlaintextLength isSequential = .ok (session', some plaintext))
    {accepted : Conversation K}
    (hstep : c.deliver prims posted maxPlaintextLength isSequential = .ok accepted)
    (hlater : Run (Conversation.step prims) (Conversation.Ideal prims) accepted c') :
    let ratchet := (c'.session posted.inner.sender.peer).ratchet
    ((∃ chain ∈ ratchet.receiverChains.toList, chain.ratchetKey = posted.inner.ratchetKey ∧
        posted.inner.counter < chain.chainKey.index) ∨
      ∀ chain ∈ ratchet.receiverChains.toList, chain.ratchetKey ≠ posted.inner.ratchetKey) ∧
    (∀ skipped ∈ ratchet.skippedMessageKeys.toList,
      ¬ (skipped.ratchetKey = posted.inner.ratchetKey ∧
        skipped.messageKey.index = posted.inner.counter)) ∧
    ∀ (maxPlaintextLength : ℕ) (isSequential : Bool),
      c'.Ideal prims (.deliver posted maxPlaintextLength isSequential) →
      ∃ session'', (c'.session posted.inner.sender.peer).decrypt prims posted.messageType
        posted.bytes maxPlaintextLength isSequential = .ok (session'', none) := by
  obtain ⟨hsoundAccepted, hbefore⟩ :=
    run_ratchets_of_ideal hlawful sound_start (Run.step _ hrun hideal hstep)
  obtain ⟨hsound, hlater'⟩ := run_ratchets_of_ideal hlawful hsoundAccepted hlater
  obtain ⟨epoch, view, hagrees, hspent⟩ :=
    System.stands_of_run hcommutes hlawful hgenerated (hbefore.trans hlater')
  -- what was accepted stays recorded
  have haccepted : (posted.inner.ratchetKey, posted.inner.counter) ∈
      c'.accepted posted.inner.sender.peer :=
    System.accepted_of_run hlater' (mem_accepted_of_deliver hdecrypt hstep)
  obtain ⟨hsent, header, hbytes, hframes⟩ := hsound.posted posted
    (posted_of_run hlater (posted_of_run (Run.step _ .start hideal hstep) hideal.1))
  refine ⟨?_, ?_, ?_⟩
  · by_cases hstored : ∃ chain ∈ (c'.session posted.inner.sender.peer).ratchet.receiverChains.toList,
        chain.ratchetKey = posted.inner.ratchetKey
    · obtain ⟨chain, hchain, hkey⟩ := hstored
      exact .inl ⟨chain, hchain, hkey, (hspent _).past _ haccepted chain hchain hkey⟩
    · exact .inr fun chain hchain hkey => hstored ⟨chain, hchain, hkey⟩
  · rintro skipped hskipped ⟨hkey, hindex⟩
    exact (hspent _).used _ haccepted skipped hskipped (Prod.ext hkey hindex)
  · intro maxPlaintextLength isSequential hideal'
    obtain ⟨older, hsuffix, hmessage⟩ := hagrees.sent _ hsent
    obtain ⟨ratchet', hnone⟩ := hagrees.decrypt_eq_none (hspent _) hsuffix hmessage hideal'.2
      haccepted header [] maxPlaintextLength isSequential
    rw [hbytes, Session.decrypt_of_frames hframes]
    simp only [ratchets] at hnone
    rw [hnone, Checked.ok_bind]
    exact ⟨_, rfl⟩

section Replayed

/-- Two new sessions over keys of 32 bytes. -/
def scriptStart : Conversation SharedKey :=
  start Primitives.mixing (FixedBytes.zero _) (List.replicate 96 7)
    (Curve25519.xor.generateKey (.zero _)) fun _ => .new (FixedBytes.zero _)

/-- Alice sends three messages, and Bob gets the third. -/
def skippedFirst : Conversation SharedKey :=
  Run.play (step Primitives.mixing)
    [.encrypting .alice 0, .encrypting .alice 1, .encrypting .alice 2, .delivering 2 false]
    scriptStart

/-- He decrypts the first under its skipped key. -/
def decryptedFirst : Conversation SharedKey :=
  Run.next (step Primitives.mixing) skippedFirst (.delivering 0 false skippedFirst)

/-- He answers, gets a message of a new chain, and decrypts the second under its
skipped key. -/
def laterScript : List (Conversation SharedKey → SessionEvent) :=
  [.encrypting .bob 3, .delivering 3 false, .encrypting .alice 4, .delivering 4 false,
    .delivering 1 false]

/-- The first message is then delivered again. -/
def replayedFirst : Conversation SharedKey :=
  Run.play (step Primitives.mixing) laterScript decryptedFirst

/-- What the run comes to, evaluated once. -/
theorem replayedFirst_evaluates :
    Run.Plays (step Primitives.mixing) (Plain Primitives.mixing)
      [.encrypting .alice 0, .encrypting .alice 1, .encrypting .alice 2, .delivering 2 false]
      scriptStart ∧
    skippedFirst.Plain Primitives.mixing (.delivering 0 false skippedFirst) ∧
    (skippedFirst.step Primitives.mixing (.delivering 0 false skippedFirst)).isOk = true ∧
    (skippedFirst.postedAt 0).inner.sender.peer = .bob ∧
    (skippedFirst.session .bob).decrypt Primitives.mixing
      (skippedFirst.postedAt 0).messageType (skippedFirst.postedAt 0).bytes 16 false =
        .ok (decryptedFirst.session .bob, some [0]) ∧
    Run.Plays (step Primitives.mixing) (Plain Primitives.mixing) laterScript
      decryptedFirst ∧
    replayedFirst.posted.length = 5 ∧ (replayedFirst.accepted .bob).length = 4 ∧
    replayedFirst.Plain Primitives.mixing (.deliver (skippedFirst.postedAt 0) 16 false) := by
  decide +kernel

/-- Bob has decrypted it once. -/
theorem decrypt_eq_none_of_decrypted_first :
    replayedFirst.posted.length = 5 ∧ (replayedFirst.accepted .bob).length = 4 ∧
    ∃ session', (replayedFirst.session .bob).decrypt Primitives.mixing
      (skippedFirst.postedAt 0).messageType (skippedFirst.postedAt 0).bytes 16 false =
        .ok (session', none) := by
  obtain ⟨hplays, hplain, hok, hreceiver, hdecrypt, hlater, hposted, haccepted, hagain⟩ :=
    replayedFirst_evaluates
  refine ⟨hposted, haccepted, ?_⟩
  have hrun : Run (step Primitives.mixing) (Conversation.Ideal Primitives.mixing)
      scriptStart skippedFirst := hplays.run (ideal_of_plain _) .start
  have hideal : skippedFirst.Ideal Primitives.mixing
      (.deliver (skippedFirst.postedAt 0) 16 false) := ideal_of_plain _ _ _ hplain
  have hstep : skippedFirst.step Primitives.mixing
      (.deliver (skippedFirst.postedAt 0) 16 false) = .ok decryptedFirst := Run.step_eq_next hok
  have hrun' : Run (step Primitives.mixing) (Conversation.Ideal Primitives.mixing)
      decryptedFirst replayedFirst := hlater.run (ideal_of_plain _) .start
  rw [← hreceiver] at hdecrypt ⊢
  obtain ⟨-, -, hrefused⟩ := decrypt_eq_none_of_decrypted Curve25519.xor_commutes
    Primitives.mixing_lawful (Curve25519.xor.generated_generateKey _) hrun hideal hdecrypt
    hstep hrun'
  exact hrefused 16 false (ideal_of_plain _ _ _ hagain)

end Replayed

/-! ## Every message in turn -/

/-- Honest ends, of which `receiver` decrypts in sequence and in turn. -/
def InSequence (prims : Primitives K) (receiver : Party) (c : Conversation K) (e : SessionEvent) :
    Prop :=
  c.Honest prims e ∧
  match e with
  | .deliver posted _ isSequential => posted.inner.sender.peer = receiver →
    isSequential = true ∧ c.ratchets.InTurn prims.ratchetConfig posted.inner
  | _ => True

/-- **What the documentation promises a session that decrypts in sequence.** -/
structure ReceivesInTurn (prims : Primitives K) (receiver : Party) (c : Conversation K) :
    Prop where
  skipped : (c.session receiver).ratchet.skippedMessageKeys.toList = []
  counters : ∀ ratchetKey, ∃ n,
    countersOf (c.accepted receiver) ratchetKey = (List.range n).reverse
  outOfOrder : ∀ posted ∈ c.posted, posted.inner.sender.peer = receiver →
    c.ratchets.InTurn prims.ratchetConfig posted.inner →
    (∃ counter < posted.inner.counter,
      (posted.inner.ratchetKey, counter) ∉ c.accepted receiver) →
    ∀ maxPlaintextLength,
      plaintextRoom prims.ratchetConfig posted.inner.plaintext ≤ maxPlaintextLength →
      (c.session receiver).decrypt prims posted.messageType posted.bytes maxPlaintextLength true =
        .ok ({ c.session receiver with lastError := .MESSAGE_OUT_OF_ORDER }, none)
  alreadyDecrypted : ∀ posted ∈ c.posted, posted.inner.sender.peer = receiver →
    ∀ maxPlaintextLength session',
      (c.session receiver).decrypt prims posted.messageType posted.bytes maxPlaintextLength true =
        .ok (session', none) →
      session'.lastError = .ALREADY_DECRYPTED_OR_KEYS_SKIPPED →
      (posted.inner.ratchetKey, posted.inner.counter) ∈ c.accepted receiver

/-- **A session that decrypts in sequence gets every message in turn**, as
long as no delivery starts a chain after its first message. -/
theorem receivesInTurn_of_run (hlawful : prims.cipher.Lawful) {zeroKey : K} {sharedSecret : Bytes}
    {ratchetKey : Curve25519KeyPair} {session : Party → Session K} {receiver : Party}
    (hrun : Run (Conversation.step prims) (InSequence prims receiver)
      (start prims zeroKey sharedSecret ratchetKey session) c) :
    c.ReceivesInTurn prims receiver := by
  have hA : ∀ c : Conversation K, c.Sound → ∀ e e', InSequence prims receiver c e → e.Inside e' →
      System.InSequence prims.ratchetConfig receiver c.ratchets e' := by
    rintro c hsound e e' ⟨hhonest, hturn⟩ hinside
    cases hinside with
    | encrypt hroom hlength => exact ⟨⟨hroom, hlength ▸ hhonest.1, hhonest.2⟩, trivial⟩
    | deliver => exact ⟨(hsound.posted _ hhonest).1, hturn⟩
  obtain ⟨hsound, hratchets⟩ := run_ratchets (fun _ _ => ⟨trivial, trivial⟩) hlawful
    (fun _ _ hassumed => hassumed.1) hA sound_start hrun
  have hsequential := System.sequential_of_run hlawful hratchets
  refine ⟨hsequential.skipped, ?_, ?_, ?_⟩
  · intro key
    obtain ⟨n, hcounters, -⟩ := hsequential.counters key
    exact ⟨n, hcounters⟩
  · rintro posted hmem rfl hturn hearlier maxPlaintextLength hroom
    obtain ⟨hsent, header, hbytes, hframes⟩ := hsound.posted posted hmem
    have hrefused := hsequential.decrypt_outOfOrder hsent rfl hturn hearlier header [] hroom
    rw [hbytes, Session.decrypt_of_frames hframes]
    simp only [ratchets] at hrefused
    rw [hrefused]
    -- the ratchet's error goes to the session, and the ratchet is as it was
    simp only [Ratchet.fail, Checked.ok_bind, Session.failRatchet, Except.ok.injEq, Prod.mk.injEq,
      and_true]
    rw [← hsound.clear posted.inner.sender.peer]
  · rintro posted hmem rfl maxPlaintextLength session' hdecrypt herror
    obtain ⟨hsent, header, hbytes, hframes⟩ := hsound.posted posted hmem
    rw [hbytes, Session.decrypt_of_frames hframes] at hdecrypt
    obtain ⟨⟨ratchet', result⟩, hratchet, hdecrypt⟩ := Checked.bind_eq_ok.mp hdecrypt
    cases result with
    | some plaintext => simp at hdecrypt
    | none =>
      obtain ⟨rfl, -⟩ := Session.eq_of_failRatchet hdecrypt
      exact hsequential.accepted_of_alreadyDecrypted hsent rfl (hsound.clear _) hratchet herror

section Scripts

/-- What a script is checked for that has `receiver` decrypt in turn: the chain
of each message is stored, or it is the first of it, for the first time. -/
def PlainInSequence (prims : Primitives K) (receiver : Party) (c : Conversation K)
    (e : SessionEvent) : Prop :=
  c.Honest prims e ∧
  match e with
  | .deliver posted _ isSequential => posted.inner.sender.peer = receiver →
    isSequential = true ∧
    ((∃ chain ∈ (c.session receiver).ratchet.receiverChains.toList,
        chain.ratchetKey = posted.inner.ratchetKey) ∨
      (posted.inner.counter = 0 ∧ (posted.inner.ratchetKey, 0) ∉ c.accepted receiver))
  | _ => True

instance (prims : Primitives K) (receiver : Party) (c : Conversation K) :
    (e : SessionEvent) → Decidable (c.PlainInSequence prims receiver e)
  | .encrypt .. => inferInstanceAs (Decidable (_ ∧ True))
  | .deliver .. => inferInstanceAs (Decidable (_ ∧ (_ → _)))
  | .measure .. => inferInstanceAs (Decidable (_ ∧ True))

theorem inSequence_of_plain {receiver : Party} (c : Conversation K) (e : SessionEvent)
    (h : c.PlainInSequence prims receiver e) : c.InSequence prims receiver e := by
  obtain ⟨hhonest, hturn⟩ := h
  refine ⟨hhonest, ?_⟩
  cases e with
  | encrypt | measure => trivial
  | deliver posted maxPlaintextLength isSequential =>
    rintro rfl
    obtain ⟨hsequential, hstored | hfirst⟩ := hturn rfl
    · exact ⟨hsequential, .inl hstored⟩
    · exact ⟨hsequential, .inr (.inl hfirst)⟩

/-- Bob gets three messages of Alice's in turn, and some of them too early or
twice. He answers twice, his answers overtake each other, and he gets two
messages of her next chain. -/
def inTurnScript : List (Conversation SharedKey → SessionEvent) :=
  [.encrypting .alice 0, .encrypting .alice 1, .encrypting .alice 2, .delivering 1 true,
    .delivering 0 true, .delivering 2 true, .delivering 0 true, .delivering 1 true,
    .delivering 2 true, .encrypting .bob 3, .encrypting .bob 4, .delivering 4 false,
    .delivering 3 false, .encrypting .alice 5, .encrypting .alice 6, .delivering 5 true,
    .delivering 6 true, .encrypting .alice 7, .encrypting .alice 8]

/-- The sessions after that. -/
def inTurn : Conversation SharedKey :=
  Run.play (step Primitives.mixing) inTurnScript scriptStart

theorem inTurn_evaluates :
    Run.Plays (step Primitives.mixing) (PlainInSequence Primitives.mixing .bob)
      inTurnScript scriptStart ∧
    (inTurn.accepted .bob).map Prod.snd = [1, 0, 2, 1, 0] ∧
    (inTurn.accepted .alice).map Prod.snd = [0, 1] := by
  decide +kernel

/-- Bob got five messages in turn, and two more are under way. -/
theorem receivesInTurn_of_run_inTurn :
    (inTurn.accepted .bob).map Prod.snd = [1, 0, 2, 1, 0] ∧
    inTurn.ReceivesInTurn Primitives.mixing .bob := by
  obtain ⟨hplays, haccepted, -⟩ := inTurn_evaluates
  exact ⟨haccepted,
    receivesInTurn_of_run Primitives.mixing_lawful (hplays.run inSequence_of_plain .start)⟩

end Scripts

section Skipped

/-- Honest ends, of which `receiver` decrypts in sequence. -/
def OnlySequential (prims : Primitives K) (receiver : Party) (c : Conversation K)
    (e : SessionEvent) : Prop :=
  c.Honest prims e ∧
  match e with
  | .deliver posted _ isSequential => posted.inner.sender.peer = receiver → isSequential = true
  | _ => True

instance (prims : Primitives K) (receiver : Party) (c : Conversation K) :
    (e : SessionEvent) → Decidable (c.OnlySequential prims receiver e)
  | .encrypt .. => inferInstanceAs (Decidable (_ ∧ True))
  | .deliver .. => inferInstanceAs (Decidable (_ ∧ (_ → _)))
  | .measure .. => inferInstanceAs (Decidable (_ ∧ True))

/-- Two new sessions over the symbolic primitives, from an empty secret. -/
def symbolicStart : Conversation SymbolicKey :=
  start Primitives.symbolic .zero [] (Curve25519.xor.generateKey (.zero _)) fun _ => .new .zero

/-- Bob gets a message, and answers twice; Alice gets the second answer. -/
def skippedScript : List (Conversation SymbolicKey → SessionEvent) :=
  [.encrypting .alice 0, .delivering 0 true, .encrypting .bob 1, .encrypting .bob 2,
    .delivering 2 true]

/-- The sessions after that. -/
def symbolicSkipped : Conversation SymbolicKey :=
  Run.play (step Primitives.symbolic) skippedScript symbolicStart

theorem symbolicSkipped_evaluates :
    Run.Plays (step Primitives.symbolic) (OnlySequential Primitives.symbolic .alice) skippedScript
      symbolicStart ∧
    (symbolicSkipped.accepted .alice).map Prod.snd = [1] ∧
    (symbolicSkipped.session .alice).ratchet.skippedMessageKeys.toList ≠ [] := by
  decide +kernel

/-- **The first message of a chain is left out**: Alice decrypts in sequence
only, and Bob's second answer is accepted before his first. -/
theorem not_receivesInTurn :
    ∃ c : Conversation SymbolicKey,
      Run (step Primitives.symbolic) (OnlySequential Primitives.symbolic .alice) symbolicStart c ∧
      (c.accepted .alice).map Prod.snd = [1] ∧
      (c.session .alice).ratchet.skippedMessageKeys.toList ≠ [] ∧
      ¬ c.ReceivesInTurn Primitives.symbolic .alice := by
  obtain ⟨hplays, haccepted, hskipped⟩ := symbolicSkipped_evaluates
  exact ⟨symbolicSkipped, hplays.run (fun _ _ h => h) .start, haccepted, hskipped,
    fun h => hskipped h.skipped⟩

end Skipped

end Conversation

end Olm
