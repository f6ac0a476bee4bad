import Mathlib.Logic.Function.Basic
import Olm.Common.Run
import Olm.Conversation.Epochs
import Olm.Ratchet.Sealed

/-!
# Two ratchets and the messages between them

A system of two ratchets set up from one secret, which encrypt whenever they
like, and of a network that delivers what was encrypted as often and in
whatever order it likes. The messages that are under way are only ever
added to, so a delivery may repeat or overtake another, and one that never
happens is a loss.

Besides the ratchets a system keeps a record of its run that the code does
not have: the messages with what they were made from, the ratchet keys in
the order they were made, the Diffie–Hellman outputs behind each root key,
and the messages each end has accepted.
-/

namespace Olm

/-- A message that was encrypted, and what it was made from: `secrets` are
the Diffie–Hellman outputs behind its chain. -/
structure Sent where
  sender : Party
  ratchetKey : Curve25519PublicKey
  counter : ℕ
  secrets : List Curve25519SharedSecret
  plaintext : Bytes
  bytes : Bytes
  deriving DecidableEq

instance : Inhabited Sent where
  default :=
    { sender := .alice, ratchetKey := FixedBytes.zero _, counter := 0, secrets := []
      plaintext := [], bytes := [] }

/-- The record of a run. -/
structure Record where
  secrets : Party → List Curve25519SharedSecret
  ratchetKeys : List Curve25519PublicKey
  sent : List Sent
  accepted : Party → List (Curve25519PublicKey × ℕ)

/-- Two ratchets, and the record of their run. -/
structure System (K : Type) extends Record where
  ratchet : Party → Ratchet K

/-- What can happen. A message is written into a buffer from `output` on,
and read from a buffer with anything around it. `clearError` is what a
session does with an error it has taken over. -/
inductive Event where
  | encrypt (party : Party) (plaintext random buf : Bytes) (output maxOutputLength : ℕ)
  | deliver (message : Sent) (pre post : Bytes) (maxPlaintextLength : ℕ) (isSequential : Bool)
  | clearError (party : Party)

variable {K : Type} (config : RatchetConfig K)

namespace Ratchet

/-- The output that a new sender chain with this key mixes in. -/
def sendingSecrets (ratchet : Ratchet K) (ratchetKey : Curve25519KeyPair) :
    List Curve25519SharedSecret :=
  match ratchet.senderChain.toList, ratchet.receiverChains.toList with
  | [], receiverChain :: _ => [config.curve.sharedSecret ratchetKey receiverChain.ratchetKey]
  | _, _ => []

/-- The output that a new receiver chain with this key mixes in. -/
def receivingSecrets (ratchet : Ratchet K) (ratchetKey : Curve25519PublicKey) :
    List Curve25519SharedSecret :=
  if ratchet.receiverChains.toList.any (fun chain => chain.ratchetKey = ratchetKey) then []
  else
    match ratchet.senderChain.toList with
    | [] => []
    | senderChain :: _ => [config.curve.sharedSecret senderChain.ratchetKey ratchetKey]

end Ratchet

namespace Record

/-- Nothing has happened since Alice made her ratchet key. -/
def start (ratchetKey : Curve25519KeyPair) : Record where
  secrets _ := []
  ratchetKeys := [ratchetKey.publicKey]
  sent := []
  accepted _ := []

/-- A ratchet has encrypted `plaintext` to `bytes`: the record, and the
message in it. -/
def encrypted (record : Record) (party : Party) (ratchet : Ratchet K)
    (plaintext random bytes : Bytes) : Checked (Record × Sent) := do
  let (_, senderChain) ← ratchet.startSenderChain config random
  let ratchetKey := senderChain.ratchetKey.publicKey
  let secrets :=
    ratchet.sendingSecrets config senderChain.ratchetKey ++ record.secrets party
  let message :=
    { sender := party, ratchetKey := ratchetKey, counter := senderChain.chainKey.index
      secrets := secrets, plaintext := plaintext, bytes := bytes }
  .ok ({ record with
    secrets := Function.update record.secrets party secrets
    ratchetKeys :=
      if ratchet.senderChain.toList.isEmpty then ratchetKey :: record.ratchetKeys
      else record.ratchetKeys
    sent := message :: record.sent }, message)

/-- A ratchet has decrypted the message. -/
def decrypted (record : Record) (ratchet : Ratchet K) (message : Sent) : Record :=
  let party := message.sender.peer
  { record with
    secrets := Function.update record.secrets party
      (ratchet.receivingSecrets config message.ratchetKey ++ record.secrets party)
    accepted := Function.update record.accepted party
      ((message.ratchetKey, message.counter) :: record.accepted party) }

end Record

namespace System

/-- Two ratchets set up from one secret, Alice's with her first ratchet key
and Bob's with its public part. -/
def start (zeroKey : K) (sharedSecret : Bytes) (ratchetKey : Curve25519KeyPair) : System K where
  toRecord := .start ratchetKey
  ratchet
    | .alice => (Ratchet.new zeroKey).initialiseAsAlice config sharedSecret ratchetKey
    | .bob => (Ratchet.new zeroKey).initialiseAsBob config sharedSecret ratchetKey.publicKey

/-- `encrypt`, and the record of what it made. -/
def encrypt (s : System K) (party : Party) (plaintext random buf : Bytes)
    (output maxOutputLength : ℕ) : Checked (System K) := do
  let (ratchet, result) ←
    (s.ratchet party).encrypt config plaintext random buf output maxOutputLength
  let s' := { s with ratchet := Function.update s.ratchet party ratchet }
  match result with
  | none => .ok s'
  | some (buf, length) => do
    let (record, _) ← s.toRecord.encrypted config party (s.ratchet party) plaintext random
      ((buf.drop output).take length)
    .ok { s' with toRecord := record }

/-- `decrypt`, and the record of what it accepted. -/
def deliver (s : System K) (message : Sent) (pre post : Bytes) (maxPlaintextLength : ℕ)
    (isSequential : Bool) : Checked (System K) := do
  let party := message.sender.peer
  let (ratchet, result) ← (s.ratchet party).decrypt config (pre ++ (message.bytes ++ post))
    pre.length message.bytes.length maxPlaintextLength isSequential
  let s' := { s with ratchet := Function.update s.ratchet party ratchet }
  match result with
  | none => .ok s'
  | some _ =>
    .ok { s' with toRecord := s.toRecord.decrypted config (s.ratchet party) message }

/-- One event. -/
def step (s : System K) : Event → Checked (System K)
  | .encrypt party plaintext random buf output maxOutputLength =>
    s.encrypt config party plaintext random buf output maxOutputLength
  | .deliver message pre post maxPlaintextLength isSequential =>
    s.deliver config message pre post maxPlaintextLength isSequential
  | .clearError party =>
    .ok { s with
      ratchet := Function.update s.ratchet party
        { s.ratchet party with lastError := .SUCCESS } }

variable {config} in
/-- Encrypting leaves what the ends can accept. -/
theorem frame_of_encrypt {s s' : System K} {party : Party} {plaintext random buf : Bytes}
    {output maxOutputLength : ℕ}
    (h : s.encrypt config party plaintext random buf output maxOutputLength = .ok s') :
    s'.accepted = s.accepted ∧ ∀ other,
      (s'.ratchet other).receiverChains = (s.ratchet other).receiverChains ∧
      (s'.ratchet other).skippedMessageKeys = (s.ratchet other).skippedMessageKeys := by
  obtain ⟨⟨ratchet, result⟩, hencrypt, h⟩ := Checked.bind_eq_ok.mp h
  have hratchet : ∀ other,
      (Function.update s.ratchet party ratchet other).receiverChains =
        (s.ratchet other).receiverChains ∧
      (Function.update s.ratchet party ratchet other).skippedMessageKeys =
        (s.ratchet other).skippedMessageKeys := by
    intro other
    by_cases hother : other = party
    · rw [hother, Function.update_self]
      obtain ⟨hreceivers, hskipped, -⟩ := Ratchet.frame_of_encrypt hencrypt
      exact ⟨hreceivers, hskipped⟩
    · rw [Function.update_of_ne hother]
      exact ⟨rfl, rfl⟩
  cases result with
  | none =>
    obtain rfl := Except.ok.inj h
    exact ⟨rfl, hratchet⟩
  | some written =>
    obtain ⟨⟨record, message⟩, hrecord, h⟩ := Checked.bind_eq_ok.mp h
    obtain ⟨_, -, hrecord⟩ := Checked.bind_eq_ok.mp hrecord
    obtain ⟨rfl, rfl⟩ := Prod.mk.inj (Except.ok.inj hrecord)
    obtain rfl := Except.ok.inj h
    exact ⟨rfl, hratchet⟩

/-! ## Assumptions -/

/-- The next message of an honest end: its ratchet key is new if it is made
for it, and its chain does not get to 2^32 messages. -/
def Fresh (s : System K) (party : Party) (random : Bytes) : Prop :=
  ∀ started senderChain,
    (s.ratchet party).startSenderChain config random = .ok (started, senderChain) →
    senderChain.chainKey.index + 1 < 2 ^ 32 ∧
    ((s.ratchet party).senderChain.toList = [] →
      senderChain.ratchetKey.publicKey ∉ s.ratchetKeys)

/-- What is asked of the chain that the next message is sent on can be decided. -/
instance decidableStarted (ratchet : Ratchet K) (random : Bytes) (P : SenderChain K → Prop)
    [DecidablePred P] :
    Decidable (∀ started senderChain,
      ratchet.startSenderChain config random = .ok (started, senderChain) → P senderChain) :=
  match h : ratchet.startSenderChain config random with
  | .error _ => .isTrue (by intro _ _ hstart; cases hstart)
  | .ok (_, senderChain) =>
    decidable_of_iff (P senderChain) (by
      constructor
      · intro hasked started senderChain' hstart
        obtain ⟨-, rfl⟩ := Prod.mk.inj (Except.ok.inj hstart)
        exact hasked
      · intro hasked
        exact hasked _ _ rfl)

instance (s : System K) (party : Party) (random : Bytes) :
    Decidable (s.Fresh config party random) :=
  inferInstanceAs (Decidable (∀ _ _, _ → _))

/-- What honest ends do: a caller has the room it says, and what it encrypts
is fresh. The network delivers nothing but what was sent. -/
def Honest (s : System K) : Event → Prop
  | .encrypt party _ random buf output maxOutputLength =>
    output + maxOutputLength ≤ buf.length ∧ buf.length < 2 ^ SIZE_WIDTH ∧ s.Fresh config party random
  | .deliver message _ _ _ _ => message ∈ s.sent
  | .clearError _ => True

/-- **The message fails under a wrong key.** Where it makes its receiver try
a new chain, and the outputs behind that chain are not those the message
was made from, it does not open. -/
def FailsUnderWrongKey (s : System K) (message : Sent) : Prop :=
  let ratchet := s.ratchet message.sender.peer
  ∀ senderChain rest, ratchet.senderChain.toList = senderChain :: rest →
    (∀ chain ∈ ratchet.receiverChains.toList, chain.ratchetKey ≠ message.ratchetKey) →
    config.curve.sharedSecret senderChain.ratchetKey message.ratchetKey ::
      s.secrets message.sender.peer ≠ message.secrets →
    Rejects config (messageKeyAt config (createChainKey config ratchet.rootKey
      senderChain.ratchetKey message.ratchetKey).2.key message.counter) message.bytes

/-- Honest ends, and messages that fail under a wrong key. -/
def Ideal (s : System K) (e : Event) : Prop :=
  s.Honest config e ∧
  match e with
  | .deliver message _ _ _ _ => s.FailsUnderWrongKey config message
  | _ => True

/-! ## Scripts -/

/-- **No wrong key is tried**: the chain of the message is stored, or it starts
one, and from the outputs that it was made from. -/
def TriesOwnKey (s : System K) (message : Sent) : Prop :=
  let ratchet := s.ratchet message.sender.peer
  (∃ chain ∈ ratchet.receiverChains.toList, chain.ratchetKey = message.ratchetKey) ∨
  ∀ senderChain ∈ ratchet.senderChain.toList,
    config.curve.sharedSecret senderChain.ratchetKey message.ratchetKey ::
      s.secrets message.sender.peer = message.secrets

instance (s : System K) (message : Sent) : Decidable (s.TriesOwnKey config message) :=
  inferInstanceAs (Decidable (_ ∨ _))

variable {config} in
theorem TriesOwnKey.failsUnderWrongKey {s : System K} {message : Sent}
    (h : s.TriesOwnKey config message) : s.FailsUnderWrongKey config message := by
  intro senderChain rest hsender hnew hwrong
  rcases h with ⟨chain, hchain, hkey⟩ | hown
  · exact absurd hkey (hnew chain hchain)
  · exact absurd (hown senderChain (hsender ▸ List.mem_cons_self)) hwrong

/-- What a script is checked for: honest ends, and messages that try no wrong
key. -/
def Plain (s : System K) (e : Event) : Prop :=
  s.Honest config e ∧
  match e with
  | .deliver message _ _ _ _ => s.TriesOwnKey config message
  | _ => True

instance (s : System K) : (e : Event) → Decidable (s.Honest config e)
  | .encrypt .. => inferInstanceAs (Decidable (_ ∧ _))
  | .deliver .. => inferInstanceAs (Decidable (_ ∈ _))
  | .clearError _ => .isTrue trivial

instance (s : System K) : (e : Event) → Decidable (s.Plain config e)
  | .encrypt .. => inferInstanceAs (Decidable (_ ∧ True))
  | .deliver .. => inferInstanceAs (Decidable (_ ∧ _))
  | .clearError _ => inferInstanceAs (Decidable (_ ∧ True))

theorem ideal_of_plain (s : System K) (e : Event) (h : s.Plain config e) : s.Ideal config e := by
  refine ⟨h.1, ?_⟩
  cases e with
  | encrypt | clearError => trivial
  | deliver => exact h.2.failsUnderWrongKey

/-- The messages in the order they were sent. -/
def sentAt (s : System K) (n : ℕ) : Sent := s.sent.reverse.getD n default

end System

namespace Event

/-- The party encrypts a plain text of one byte, with that byte for its random. -/
def encrypting (party : Party) (byte : UInt8) (_ : System K) : Event :=
  .encrypt party [byte] (List.replicate 32 byte) (List.replicate 80 0) 0 80

/-- A message that was sent is delivered. -/
def delivering (n : ℕ) (s : System K) : Event := .deliver (s.sentAt n) [] [] 16 false

end Event

end Olm
