import Olm.Conversation.System
import Olm.Session.Messages

/-!
# Two sessions and the messages between them

The system of two sessions, over which the network does what it likes with
the messages, as with those of two ratchets. `Sound.step` is the simulation:
what one event does to the sessions, a run of at most two events does to the
ratchets inside them.
-/

namespace Olm

/-- A message of a session, and its ratchet's message inside. -/
structure Posted where
  messageType : MessageType
  bytes : Bytes
  inner : Sent
  deriving DecidableEq

/-- Two sessions, and the record of their run. -/
structure Conversation (K : Type) extends Record where
  session : Party → Session K
  posted : List Posted

/-- What can happen. Anyone may ask how long a plain text can be, of
anything. -/
inductive SessionEvent where
  | encrypt (party : Party) (plaintext random message : Bytes)
  | deliver (posted : Posted) (maxPlaintextLength : ℕ) (isSequential : Bool)
  | measure (party : Party) (messageType : MessageType) (message : Bytes)

/-- What the event makes the ratchets do. -/
inductive SessionEvent.Inside : SessionEvent → Event → Prop
  | encrypt {party : Party} {plaintext random message buf : Bytes} {output maxOutputLength : ℕ}
      (hroom : output + maxOutputLength ≤ buf.length) (hlength : buf.length = message.length) :
      Inside (.encrypt party plaintext random message)
        (.encrypt party plaintext random buf output maxOutputLength)
  | deliver {posted : Posted} {pre post : Bytes} {maxPlaintextLength : ℕ} {isSequential : Bool} :
      Inside (.deliver posted maxPlaintextLength isSequential)
        (.deliver posted.inner pre post maxPlaintextLength isSequential)

variable {K : Type} (prims : Primitives K)

namespace Conversation

/-- The ratchets inside the sessions. -/
def ratchets (c : Conversation K) : System K where
  toRecord := c.toRecord
  ratchet party := (c.session party).ratchet

/-- Two sessions whose ratchets were set up from one secret. -/
def start (zeroKey : K) (sharedSecret : Bytes) (ratchetKey : Curve25519KeyPair)
    (session : Party → Session K) : Conversation K where
  toRecord := .start ratchetKey
  session party := { session party with
    ratchet :=
      (System.start prims.ratchetConfig zeroKey sharedSecret ratchetKey).ratchet party }
  posted := []

/-- `encrypt`, and the record of what it made. The ratchet's message is at
the end of the message. -/
def encrypt (c : Conversation K) (party : Party) (plaintext random message : Bytes) :
    Checked (Conversation K) := do
  let old := c.session party
  let (session, result) ← old.encrypt prims plaintext random message
  let c' := { c with session := Function.update c.session party session }
  match result with
  | none => .ok c'
  | some (buf, length) => do
    let bytes := buf.take (old.encryptMessageLength prims plaintext.length)
    let (record, inner) ← c.toRecord.encrypted prims.ratchetConfig party old.ratchet plaintext random
      (bytes.drop (bytes.length - length))
    .ok { c' with
      toRecord := record
      posted :=
        { messageType := old.encryptMessageType, bytes := bytes, inner := inner } :: c.posted }

/-- `decrypt`, and the record of what it accepted. -/
def deliver (c : Conversation K) (posted : Posted) (maxPlaintextLength : ℕ)
    (isSequential : Bool) : Checked (Conversation K) := do
  let party := posted.inner.sender.peer
  let (session, result) ← (c.session party).decrypt prims posted.messageType posted.bytes
    maxPlaintextLength isSequential
  let c' := { c with session := Function.update c.session party session }
  match result with
  | none => .ok c'
  | some _ =>
    .ok { c' with
      toRecord := c.toRecord.decrypted prims.ratchetConfig (c.session party).ratchet posted.inner }

/-- `decrypt_max_plaintext_length`. -/
def measure (c : Conversation K) (party : Party) (messageType : MessageType) (message : Bytes) :
    Checked (Conversation K) := do
  let (session, _) ← (c.session party).decryptMaxPlaintextLength prims messageType message
  .ok { c with session := Function.update c.session party session }

/-- One event. -/
def step (c : Conversation K) : SessionEvent → Checked (Conversation K)
  | .encrypt party plaintext random message => c.encrypt prims party plaintext random message
  | .deliver posted maxPlaintextLength isSequential =>
    c.deliver prims posted maxPlaintextLength isSequential
  | .measure party messageType message => c.measure prims party messageType message

/-- What honest ends do: what they encrypt is fresh, and the network delivers
nothing but what was sent. -/
def Honest (c : Conversation K) : SessionEvent → Prop
  | .encrypt party _ random message =>
    message.length < 2 ^ SIZE_WIDTH ∧ c.ratchets.Fresh prims.ratchetConfig party random
  | .deliver posted _ _ => posted ∈ c.posted
  | .measure _ _ _ => True

/-- Honest ends, and messages that fail under a wrong key. -/
def Ideal (c : Conversation K) (e : SessionEvent) : Prop :=
  c.Honest prims e ∧
  match e with
  | .deliver posted _ _ => c.ratchets.FailsUnderWrongKey prims.ratchetConfig posted.inner
  | _ => True

/-! ## Scripts -/

/-- What a script is checked for: honest ends, and messages that try no wrong
key. -/
def Plain (c : Conversation K) (e : SessionEvent) : Prop :=
  c.Honest prims e ∧
  match e with
  | .deliver posted _ _ => c.ratchets.TriesOwnKey prims.ratchetConfig posted.inner
  | _ => True

instance (c : Conversation K) : (e : SessionEvent) → Decidable (c.Honest prims e)
  | .encrypt .. => inferInstanceAs (Decidable (_ ∧ _))
  | .deliver .. => inferInstanceAs (Decidable (_ ∈ _))
  | .measure .. => .isTrue trivial

instance (c : Conversation K) : (e : SessionEvent) → Decidable (c.Plain prims e)
  | .encrypt .. => inferInstanceAs (Decidable (_ ∧ True))
  | .deliver .. => inferInstanceAs (Decidable (_ ∧ _))
  | .measure .. => inferInstanceAs (Decidable (_ ∧ True))

theorem ideal_of_plain (c : Conversation K) (e : SessionEvent) (h : c.Plain prims e) :
    c.Ideal prims e := by
  refine ⟨h.1, ?_⟩
  cases e with
  | encrypt | measure => trivial
  | deliver => exact h.2.failsUnderWrongKey

/-- The messages in the order they were posted. -/
def postedAt (c : Conversation K) (n : ℕ) : Posted :=
  c.posted.reverse.getD n { messageType := .MESSAGE, bytes := [], inner := default }

end Conversation

namespace SessionEvent

/-- The party encrypts a plain text of one byte, with that byte for its random. -/
def encrypting (party : Party) (byte : UInt8) (_ : Conversation K) : SessionEvent :=
  .encrypt party [byte] (List.replicate 32 byte) (List.replicate 240 0)

/-- A message that was posted is delivered. -/
def delivering (n : ℕ) (isSequential : Bool) (c : Conversation K) : SessionEvent :=
  .deliver (c.postedAt n) 16 isSequential

end SessionEvent

namespace Conversation

/-! ## The simulation -/

/-- Between events no ratchet has an error left, and every message that was
posted is a framed one of the ratchets. -/
structure Sound (c : Conversation K) : Prop where
  clear : ∀ party, (c.session party).ratchet.lastError = .SUCCESS
  posted : ∀ posted ∈ c.posted, posted.inner ∈ c.sent ∧
    ∃ header, posted.bytes = header ++ posted.inner.bytes ∧
      Session.Frames posted.messageType header posted.inner.bytes

variable {prims} {c c' : Conversation K}

/-- The ratchets after one session has changed. -/
theorem ratchets_update (c : Conversation K) (record : Record) (party : Party)
    (session : Session K) (posted : List Posted) :
    ({ toRecord := record, session := Function.update c.session party session
       posted := posted } : Conversation K).ratchets =
      { toRecord := record
        ratchet := Function.update c.ratchets.ratchet party session.ratchet } := by
  simp only [ratchets, System.mk.injEq, true_and]
  funext other
  by_cases hother : other = party
  · subst hother
    rw [Function.update_self, Function.update_self]
  · rw [Function.update_of_ne hother, Function.update_of_ne hother]

/-- They are the same if the session's own is. -/
theorem ratchets_update_self (c : Conversation K) {party : Party} {session : Session K}
    (h : session.ratchet = (c.session party).ratchet) :
    ({ c with session := Function.update c.session party session } : Conversation K).ratchets =
      c.ratchets := by
  rw [ratchets_update, h]
  simp only [ratchets, System.mk.injEq, true_and]
  exact Function.update_eq_self party fun other => (c.session other).ratchet

/-- A session takes its ratchet's error over. -/
theorem clearError_ratchets (c : Conversation K) {party : Party} {session : Session K}
    {ratchet : Ratchet K} (h : session.ratchet = { ratchet with lastError := .SUCCESS }) :
    ({ c.ratchets with
      ratchet := Function.update c.ratchets.ratchet party ratchet } : System K).step
        prims.ratchetConfig (.clearError party) =
      .ok ({ c with
        session := Function.update c.session party session } : Conversation K).ratchets := by
  rw [ratchets_update, h]
  simp only [System.step, Function.update_self, Function.update_idem]
  rfl

theorem Sound.update (h : c.Sound) {party : Party} {session : Session K}
    (hclear : session.ratchet.lastError = .SUCCESS) (other : Party) :
    (Function.update c.session party session other).ratchet.lastError = .SUCCESS := by
  by_cases hother : other = party
  · subst hother
    rw [Function.update_self]
    exact hclear
  · rw [Function.update_of_ne hother]
    exact h.clear other

section Steps

variable {A : System K → Event → Prop} (hclear : ∀ s party, A s (.clearError party))

include hclear

/-- Encrypting: the ratchet encrypts, and if it fails its error is taken over. -/
theorem Sound.encrypt (h : c.Sound) (hlawful : prims.cipher.Lawful) {party : Party}
    {plaintext random message : Bytes} (hsize : message.length < 2 ^ SIZE_WIDTH)
    (hA : ∀ e, (SessionEvent.encrypt party plaintext random message).Inside e → A c.ratchets e)
    (hstep : c.encrypt prims party plaintext random message = .ok c') :
    c'.Sound ∧ Run (System.step prims.ratchetConfig) A c.ratchets c'.ratchets := by
  obtain ⟨⟨session', result⟩, hencrypt, hstep⟩ := Checked.bind_eq_ok.mp hstep
  cases result with
  | none =>
    obtain rfl := Except.ok.inj hstep
    rcases Session.encrypt_outcome hencrypt with ⟨-, hsame⟩ | ⟨buf, output, maxOutputLength,
      ratchet, hgives, hratchet, hsession, -⟩
    · have hratchet : session'.ratchet = (c.session party).ratchet := by rw [hsame]
      refine ⟨⟨h.update (hratchet ▸ h.clear party), h.posted⟩, ?_⟩
      rw [ratchets_update_self c hratchet]
      exact .start
    · -- the ratchet's error is taken over, which clears it in the ratchet
      obtain rfl := hsession rfl
      refine ⟨⟨h.update rfl, h.posted⟩, ?_⟩
      have hfirst : c.ratchets.step prims.ratchetConfig
          (.encrypt party plaintext random buf output maxOutputLength) =
          .ok { c.ratchets with ratchet := Function.update c.ratchets.ratchet party ratchet } := by
        simp only [System.step, System.encrypt, ratchets, hratchet, Checked.ok_bind]
      exact .step (.clearError party) (.step _ .start (hA _ (.encrypt hgives.room hgives.length))
        hfirst) (hclear _ _) (clearError_ratchets c rfl)
  | some written =>
    obtain ⟨buf', length⟩ := written
    obtain ⟨buf, output, ratchet, bytes, hgives, hratchet, rfl, hlength, hcut, hbytes, hframes⟩ :=
      Session.encrypt_eq_some hlawful.leaves hsize hencrypt
    -- the ratchet's message is the end of what is sent
    have hbody : ((Session.header (c.session party) bytes.length ++ bytes).drop
        ((Session.header (c.session party) bytes.length ++ bytes).length - length)) = bytes := by
      rw [List.length_append, hlength, Nat.add_sub_cancel, List.drop_left]
    simp only [hbytes, hbody] at hstep
    obtain ⟨⟨record, inner⟩, hrecord, hstep⟩ := Checked.bind_eq_ok.mp hstep
    obtain rfl := Except.ok.inj hstep
    have hinner : inner ∈ record.sent ∧ inner.bytes = bytes ∧ ∀ m ∈ c.sent, m ∈ record.sent := by
      obtain ⟨_, -, hrecord⟩ := Checked.bind_eq_ok.mp hrecord
      obtain ⟨rfl, rfl⟩ := Prod.mk.inj (Except.ok.inj hrecord)
      exact ⟨List.mem_cons_self, rfl, fun m hm => List.mem_cons_of_mem _ hm⟩
    refine ⟨⟨h.update ?_, ?_⟩, ?_⟩
    · rw [(Ratchet.frame_of_encrypt hratchet).2.2 rfl]
      exact h.clear party
    · intro posted hmem
      rcases List.mem_cons.mp hmem with rfl | hmem
      · exact ⟨hinner.1, _, by rw [hinner.2.1], by rw [hinner.2.1]; exact hframes⟩
      · obtain ⟨hsent, hframed⟩ := h.posted posted hmem
        exact ⟨hinner.2.2 _ hsent, hframed⟩
    · refine .step _ .start (hA _ (.encrypt hgives.room hgives.length)) ?_
      rw [ratchets_update]
      simp only [System.step, System.encrypt, ratchets, hratchet, Checked.ok_bind, hcut, hrecord]

/-- Decrypting: so does the ratchet, on the body of the message. -/
theorem Sound.deliver (h : c.Sound) {posted : Posted} {maxPlaintextLength : ℕ}
    {isSequential : Bool} (hmem : posted ∈ c.posted)
    (hA : ∀ e, (SessionEvent.deliver posted maxPlaintextLength isSequential).Inside e →
      A c.ratchets e)
    (hstep : c.deliver prims posted maxPlaintextLength isSequential = .ok c') :
    c'.Sound ∧ Run (System.step prims.ratchetConfig) A c.ratchets c'.ratchets := by
  obtain ⟨-, header, hbytes, hframes⟩ := h.posted posted hmem
  obtain ⟨⟨session', result⟩, hdecrypt, hstep⟩ := Checked.bind_eq_ok.mp hstep
  rw [hbytes, Session.decrypt_of_frames hframes] at hdecrypt
  obtain ⟨⟨ratchet, result'⟩, hratchet, hdecrypt⟩ := Checked.bind_eq_ok.mp hdecrypt
  have hinside : A c.ratchets (.deliver posted.inner header [] maxPlaintextLength isSequential) :=
    hA _ .deliver
  cases result' with
  | none =>
    obtain ⟨rfl, rfl⟩ := Session.eq_of_failRatchet hdecrypt
    obtain rfl := Except.ok.inj hstep
    refine ⟨⟨h.update rfl, h.posted⟩, ?_⟩
    have hfirst : c.ratchets.step prims.ratchetConfig
        (.deliver posted.inner header [] maxPlaintextLength isSequential) =
        .ok { c.ratchets with
          ratchet := Function.update c.ratchets.ratchet posted.inner.sender.peer ratchet } := by
      simp only [System.step, System.deliver, ratchets, hratchet, Checked.ok_bind]
    exact .step (.clearError posted.inner.sender.peer) (.step _ .start hinside hfirst)
      (hclear _ _) (clearError_ratchets c rfl)
  | some plaintext =>
    simp only [Except.ok.injEq, Prod.mk.injEq] at hdecrypt
    obtain ⟨rfl, rfl⟩ := hdecrypt
    obtain rfl := Except.ok.inj hstep
    refine ⟨⟨h.update ?_, h.posted⟩, ?_⟩
    · exact (Ratchet.lastError_of_decrypt_some hratchet).trans (h.clear _)
    · refine .step _ .start hinside ?_
      rw [ratchets_update]
      simp only [System.step, System.deliver, ratchets, hratchet, Checked.ok_bind]

/-- **One event of the sessions** is a run of the ratchets inside them. -/
theorem Sound.step (h : c.Sound) (hlawful : prims.cipher.Lawful) {e : SessionEvent}
    (hhonest : c.Honest prims e) (hA : ∀ e', e.Inside e' → A c.ratchets e')
    (hstep : c.step prims e = .ok c') :
    c'.Sound ∧ Run (System.step prims.ratchetConfig) A c.ratchets c'.ratchets := by
  cases e with
  | encrypt party plaintext random message => exact h.encrypt hclear hlawful hhonest.1 hA hstep
  | deliver posted maxPlaintextLength isSequential => exact h.deliver hclear hhonest hA hstep
  | measure party messageType message =>
    obtain ⟨⟨session', result⟩, hmeasure, hstep⟩ := Checked.bind_eq_ok.mp hstep
    obtain rfl := Except.ok.inj hstep
    have hratchet := Session.ratchet_of_decryptMaxPlaintextLength (h.clear party) hmeasure
    refine ⟨⟨h.update (hratchet ▸ h.clear party), h.posted⟩, ?_⟩
    rw [ratchets_update_self c hratchet]
    exact .start

/-- **A run of the sessions** is a run of the ratchets inside them. -/
theorem run_ratchets (hlawful : prims.cipher.Lawful) {start : Conversation K}
    {B : Conversation K → SessionEvent → Prop} (hhonest : ∀ c e, B c e → c.Honest prims e)
    (hA : ∀ c : Conversation K, c.Sound → ∀ e e', B c e → e.Inside e' → A c.ratchets e')
    (hstart : start.Sound) (hrun : Run (Conversation.step prims) B start c) :
    c.Sound ∧ Run (System.step prims.ratchetConfig) A start.ratchets c.ratchets := by
  obtain ⟨s, hs, hsound, rfl⟩ := hrun.simulation (R := fun c s => c.Sound ∧ c.ratchets = s)
    ⟨hstart, rfl⟩ (by
      rintro c _ e c' ⟨hsound, rfl⟩ hB hstep
      obtain ⟨hsound', hrun⟩ := hsound.step hclear hlawful (hhonest c e hB)
        (fun e' => hA c hsound e e' hB) hstep
      exact ⟨_, hrun, hsound', rfl⟩)
  exact ⟨hsound, hs⟩

end Steps

theorem sound_start {zeroKey : K} {sharedSecret : Bytes} {ratchetKey : Curve25519KeyPair}
    {session : Party → Session K} :
    (start prims zeroKey sharedSecret ratchetKey session).Sound := by
  refine ⟨fun party => by cases party <;> rfl, ?_⟩
  intro posted hmem
  cases hmem

end Conversation

end Olm
