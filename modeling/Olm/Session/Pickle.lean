import Olm.Common.Calls
import Olm.Ratchet.Pickle
import Olm.Session.Messages
import Olm.Symbolic

/-!
# Pickling a session

The end of `src/session.cpp`. All that a session holds is written except
`last_error`, and a session never reads what an earlier call left there, so
one that was pickled and unpickled replies to every call as the original
would (`restores_pickle`).
-/

namespace Olm.Session

/-- `SESSION_PICKLE_VERSION`. -/
def SESSION_PICKLE_VERSION : UInt32 := 1

/-- `pickle_length`. -/
def pickleLength (session : Session SharedKey) : ℕ :=
  pickleLengthUInt32 SESSION_PICKLE_VERSION + pickleLengthBool session.receivedMessage +
    pickleLengthCurve25519PublicKey session.aliceIdentityKey +
    pickleLengthCurve25519PublicKey session.aliceBaseKey +
    pickleLengthCurve25519PublicKey session.bobOneTimeKey +
    pickleLengthCurve25519PublicKey session.bobPrekey + session.ratchet.pickleLength

/-- `pickle`. -/
def pickle (session : Session SharedKey) : Bytes :=
  pickleUInt32 SESSION_PICKLE_VERSION ++ (pickleBool session.receivedMessage ++
    (session.aliceIdentityKey.val ++ (session.aliceBaseKey.val ++
    (session.bobOneTimeKey.val ++ (session.bobPrekey.val ++ session.ratchet.pickle)))))

/-- What comes after the version. -/
def unpickleBody (stale : Ratchet.Stale) (includesChainIndex : Bool) :
    Unpickler (Session SharedKey) :=
  (Unpickler.field (·.receivedMessage) (fun s a => { s with receivedMessage := a })
    unpickleBool).andThen
  ((Unpickler.field (·.aliceIdentityKey) (fun s a => { s with aliceIdentityKey := a })
    (unpickleBytes _)).andThen
  ((Unpickler.field (·.aliceBaseKey) (fun s a => { s with aliceBaseKey := a })
    (unpickleBytes _)).andThen
  ((Unpickler.field (·.bobOneTimeKey) (fun s a => { s with bobOneTimeKey := a })
    (unpickleBytes _)).andThen
  ((Unpickler.field (·.bobPrekey) (fun s a => { s with bobPrekey := a })
    (unpickleBytes _)).andThen
  (.field (·.ratchet) (fun s a => { s with ratchet := a })
    (Ratchet.unpickle stale includesChainIndex))))))

/-- `unpickle`. The branch that logs writes version `0x80000001`. -/
def unpickle (stale : Ratchet.Stale) : Unpickler (Session SharedKey) := fun session input =>
  match unpickleUInt32 0 input with
  | (_, none) => (session, none)
  | (version, some input) =>
    if version = 1 then unpickleBody stale false session input
    else if version = 0x80000001 then unpickleBody stale true session input
    else ({ session with lastError := .UNKNOWN_PICKLE_VERSION }, none)

/-! ## Round trip -/

theorem length_pickle (session : Session SharedKey) :
    session.pickle.length = session.pickleLength := by
  simp only [pickle, pickleLength, List.length_append, length_pickleUInt32, length_pickleBool,
    FixedBytes.length_val, Ratchet.length_pickle, pickleLengthCurve25519PublicKey, Nat.add_assoc]

/-- **A session that was pickled is unpickled**, over one whose ratchet has
no chains and keys. -/
theorem reads_unpickle (stale : Ratchet.Stale) (target : Session SharedKey)
    {session : Session SharedKey} (hsender : target.ratchet.senderChain = .empty)
    (hreceivers : target.ratchet.receiverChains = .empty)
    (hskipped : target.ratchet.skippedMessageKeys = .empty) (h : session.ratchet.Numbered) :
    (unpickle stale).Reads target session.pickle
      { session with
        lastError := target.lastError
        ratchet := { session.ratchet with lastError := target.ratchet.lastError } } := by
  have hbody : (unpickleBody stale false).Reads target
      (pickleBool session.receivedMessage ++ (session.aliceIdentityKey.val ++
        (session.aliceBaseKey.val ++ (session.bobOneTimeKey.val ++
        (session.bobPrekey.val ++ session.ratchet.pickle)))))
      { session with
        lastError := target.lastError
        ratchet := { session.ratchet with lastError := target.ratchet.lastError } } :=
    .andThen (.field _ (reads_unpickleBool _ session.receivedMessage))
      (.andThen (.field _ (reads_unpickleBytes _ session.aliceIdentityKey))
      (.andThen (.field _ (reads_unpickleBytes _ session.aliceBaseKey))
      (.andThen (.field _ (reads_unpickleBytes _ session.bobOneTimeKey))
      (.andThen (.field _ (reads_unpickleBytes _ session.bobPrekey))
      (.field _ (Ratchet.reads_unpickle stale _ hsender hreceivers hskipped h))))))
  intro rest
  rw [unpickle, pickle, List.append_assoc, reads_unpickleUInt32]
  exact hbody rest

/-! ## Runs of a session -/

variable {K : Type} (prims : Primitives K)

/-- The sessions that can be come by from a new one by setting it up and by
its messages. -/
inductive Reachable (zeroKey : K) : Session K → Prop
  | new : Reachable zeroKey (Session.new zeroKey)
  | newOutboundSession {session session' : Session K} {localAccount : Account}
      {identityKey : Curve25519PublicKey} {signingKey : Ed25519PublicKey}
      {preKey : Curve25519PublicKey} {preKeySignature : Ed25519Signature} {random : Bytes}
      {oneTimeKey : Option Curve25519PublicKey} {result : Option Unit} :
      Reachable zeroKey session →
      session.newOutboundSession prims localAccount identityKey signingKey preKey preKeySignature
        random oneTimeKey = .ok (session', result) → Reachable zeroKey session'
  | newInboundSession {session session' : Session K} {localAccount : Account}
      {theirIdentityKey : Option Curve25519PublicKey} {oneTimeKeyMessage : Bytes}
      {result : Option Unit} :
      Reachable zeroKey session →
      session.newInboundSession prims localAccount theirIdentityKey oneTimeKeyMessage =
        .ok (session', result) → Reachable zeroKey session'
  | encrypt {session session' : Session K} {plaintext random message : Bytes}
      {result : Option (Bytes × ℕ)} :
      Reachable zeroKey session →
      session.encrypt prims plaintext random message = .ok (session', result) →
      Reachable zeroKey session'
  | decryptMaxPlaintextLength {session session' : Session K} {messageType : MessageType}
      {message : Bytes} {result : Option ℕ} :
      Reachable zeroKey session →
      session.decryptMaxPlaintextLength prims messageType message = .ok (session', result) →
      Reachable zeroKey session'
  | decrypt {session session' : Session K} {messageType : MessageType} {message : Bytes}
      {maxPlaintextLength : ℕ} {isSequential : Bool} {result : Option Bytes} :
      Reachable zeroKey session →
      session.decrypt prims messageType message maxPlaintextLength isSequential =
        .ok (session', result) → Reachable zeroKey session'

/-! ## Replies -/

/-- A call on a session. -/
inductive Call where
  | encrypt (plaintext random message : Bytes)
  | decryptMaxPlaintextLength (messageType : MessageType) (message : Bytes)
  | decrypt (messageType : MessageType) (message : Bytes) (maxPlaintextLength : ℕ)
      (isSequential : Bool)

/-- What a call that succeeds gives. -/
inductive Reply where
  | message (buf : Bytes) (length : ℕ)
  | length (maxPlaintextLength : ℕ)
  | plaintext (plaintext : Bytes)
  deriving DecidableEq

/-- A call and its reply, which is the error where the call fails. -/
def call (session : Session K) : Call → Checked (Session K × Except OlmErrorCode Reply)
  | .encrypt plaintext random message =>
    report (·.lastError) (fun (buf, length) => .message buf length)
      (session.encrypt prims plaintext random message)
  | .decryptMaxPlaintextLength messageType message =>
    report (·.lastError) .length (session.decryptMaxPlaintextLength prims messageType message)
  | .decrypt messageType message maxPlaintextLength isSequential =>
    report (·.lastError) .plaintext
      (session.decrypt prims messageType message maxPlaintextLength isSequential)

/-- Calls lead from one session that can be come by to another. -/
theorem Reachable.call {zeroKey : K} {session session' : Session K} {request : Call}
    {reply : Except OlmErrorCode Reply} (h : Reachable prims zeroKey session)
    (hcall : session.call prims request = .ok (session', reply)) :
    Reachable prims zeroKey session' := by
  cases request with
  | encrypt plaintext random message =>
    obtain ⟨result, hrun⟩ := report_eq_ok hcall
    exact h.encrypt hrun
  | decryptMaxPlaintextLength messageType message =>
    obtain ⟨result, hrun⟩ := report_eq_ok hcall
    exact h.decryptMaxPlaintextLength hrun
  | decrypt messageType message maxPlaintextLength isSequential =>
    obtain ⟨result, hrun⟩ := report_eq_ok hcall
    exact h.decrypt hrun

/-- Equal up to the error an earlier call left. -/
def SameButError (session session' : Session K) : Prop :=
  ∃ code, session' = { session with lastError := code }

/-- **An old error never shows.** -/
theorem keepsReplies_sameButError : KeepsReplies (call prims) (call prims) SameButError := by
  rintro session session' request ⟨code, rfl⟩
  have hfailed : ∀ {α : Type} (f : α → Reply) (failed : OlmErrorCode), SameReply SameButError
      (report (·.lastError) f (session.fail failed))
      (report (·.lastError) f ({ session with lastError := code }.fail failed)) :=
    fun f failed => .report_none ⟨failed, rfl⟩ rfl
  cases request with
  | encrypt plaintext random message =>
    refine .report_ite (hfailed _ _) (.report_bind fun header => .report_bind ?_)
    rintro ⟨ratchet, none | result⟩
    · exact .report_none ⟨_, rfl⟩ rfl
    · exact .report_some result ⟨code, rfl⟩
  | decryptMaxPlaintextLength messageType message =>
    refine .report_bind ?_
    rintro (_ | body)
    · exact hfailed _ _
    · refine .report_bind ?_
      rintro ⟨ratchet, none | result⟩
      · exact .report_none ⟨_, rfl⟩ rfl
      · exact .report_some result ⟨code, rfl⟩
  | decrypt messageType message maxPlaintextLength isSequential =>
    refine .report_bind ?_
    rintro (_ | body)
    · exact hfailed _ _
    · refine .report_bind ?_
      rintro ⟨ratchet, none | result⟩
      · exact .report_none ⟨_, rfl⟩ rfl
      · exact .report_some result ⟨code, rfl⟩

/-! ## What every run keeps -/

section Settled

variable {prims} {session session' : Session K}

/-- Between calls the indices are in range, and the ratchet has no error
left: the session takes it over. -/
structure Settled (session : Session K) : Prop where
  numbered : session.ratchet.Numbered
  noError : session.ratchet.lastError = .SUCCESS

theorem settled_new (zeroKey : K) : (Session.new zeroKey).Settled :=
  ⟨Ratchet.numbered_new zeroKey, rfl⟩

/-- It depends on the ratchet only. -/
theorem Settled.congr (h : session.Settled) (hratchet : session'.ratchet = session.ratchet) :
    session'.Settled := by
  constructor
  · rw [hratchet]
    exact h.numbered
  · rw [hratchet]
    exact h.noError

theorem Settled.of_fail {α : Type} {result : Option α} {code : OlmErrorCode} (h : session.Settled)
    (hrun : session.fail code = .ok (session', result)) : session'.Settled := by
  obtain ⟨rfl, -⟩ := eq_of_fail hrun
  exact h.congr rfl

theorem Settled.newOutboundSession {localAccount : Account} {identityKey : Curve25519PublicKey}
    {signingKey : Ed25519PublicKey} {preKey : Curve25519PublicKey}
    {preKeySignature : Ed25519Signature} {random : Bytes}
    {oneTimeKey : Option Curve25519PublicKey} {result : Option Unit} (h : session.Settled)
    (hrun : session.newOutboundSession prims localAccount identityKey signingKey preKey
      preKeySignature random oneTimeKey = .ok (session', result)) : session'.Settled := by
  unfold Session.newOutboundSession at hrun
  split at hrun
  · exact h.of_fail hrun
  · simp only [Checked.bind_eq_ok] at hrun
    obtain ⟨base, -, ratchetKey, -, hrun⟩ := hrun
    split at hrun
    · refine Settled.of_fail ?_ hrun
      exact h.congr rfl
    · simp only [Except.ok.injEq, Prod.mk.injEq] at hrun
      obtain ⟨rfl, -⟩ := hrun
      exact ⟨h.numbered.initialiseAsAlice _ _, h.noError⟩

theorem Settled.newInboundSessionFromKeys {localAccount : Account}
    {ratchetKey : Curve25519PublicKey} {result : Option Unit} (h : session.Settled)
    (hrun : session.newInboundSessionFromKeys prims localAccount ratchetKey =
      .ok (session', result)) : session'.Settled := by
  unfold Session.newInboundSessionFromKeys at hrun
  dsimp only at hrun
  split at hrun
  · exact h.of_fail hrun
  · split at hrun
    · exact h.of_fail hrun
    · simp only [Except.ok.injEq, Prod.mk.injEq] at hrun
      obtain ⟨rfl, -⟩ := hrun
      exact ⟨h.numbered.initialiseAsBob _ _, h.noError⟩

theorem Settled.newInboundSession {localAccount : Account}
    {theirIdentityKey : Option Curve25519PublicKey} {oneTimeKeyMessage : Bytes}
    {result : Option Unit} (h : session.Settled)
    (hrun : session.newInboundSession prims localAccount theirIdentityKey oneTimeKeyMessage =
      .ok (session', result)) : session'.Settled := by
  unfold Session.newInboundSession at hrun
  obtain ⟨reader, -, hrun⟩ := Checked.bind_eq_ok.mp hrun
  split at hrun
  · exact h.of_fail hrun
  · obtain ⟨differs, -, hrun⟩ := Checked.bind_eq_ok.mp hrun
    split at hrun
    · exact h.of_fail hrun
    · simp only [Checked.bind_eq_ok] at hrun
      obtain ⟨identityKey, -, baseKey, -, oneTimeKey, -, prekey, -, body, -, messageReader, -,
        hrun⟩ := hrun
      split at hrun
      · refine Settled.of_fail ?_ hrun
        exact h.congr rfl
      · obtain ⟨ratchetKey, -, hrun⟩ := Checked.bind_eq_ok.mp hrun
        refine Settled.newInboundSessionFromKeys ?_ hrun
        exact h.congr rfl

theorem Settled.encrypt {plaintext random message : Bytes} {result : Option (Bytes × ℕ)}
    (h : session.Settled)
    (hrun : session.encrypt prims plaintext random message = .ok (session', result)) :
    session'.Settled := by
  rcases encrypt_outcome hrun with ⟨-, rfl⟩ | ⟨buf, output, maxOutputLength, ratchet, -, hratchet,
    hnone, hsome⟩
  · exact h.congr rfl
  · have hnumbered := h.numbered.encrypt hratchet
    cases result with
    | none =>
      rw [hnone rfl]
      exact ⟨hnumbered.congr rfl rfl rfl, rfl⟩
    | some written =>
      rw [hsome rfl]
      exact ⟨hnumbered, ((Ratchet.frame_of_encrypt hratchet).2.2 rfl).trans h.noError⟩

theorem Settled.decrypt {messageType : MessageType} {message : Bytes} {maxPlaintextLength : ℕ}
    {isSequential : Bool} {result : Option Bytes} (h : session.Settled)
    (hrun : session.decrypt prims messageType message maxPlaintextLength isSequential =
      .ok (session', result)) : session'.Settled := by
  have hnoError := noError_of_decrypt h.noError hrun
  rcases decrypt_outcome hrun with ⟨-, -, rfl⟩ | ⟨body, bodyLength, ratchet, -, hratchet, hnone,
    hsome⟩
  · exact h.congr rfl
  · have hnumbered := h.numbered.decrypt hratchet
    cases result with
    | none =>
      rw [hnone rfl] at hnoError ⊢
      exact ⟨hnumbered.congr rfl rfl rfl, hnoError⟩
    | some plaintext =>
      rw [hsome rfl] at hnoError ⊢
      exact ⟨hnumbered, hnoError⟩

theorem Reachable.settled {zeroKey : K} (h : Reachable prims zeroKey session) :
    session.Settled := by
  induction h with
  | new => exact settled_new zeroKey
  | newOutboundSession _ hrun ih => exact ih.newOutboundSession hrun
  | newInboundSession _ hrun ih => exact ih.newInboundSession hrun
  | encrypt _ hrun ih => exact ih.encrypt hrun
  | decryptMaxPlaintextLength _ hrun ih =>
    exact ih.congr (ratchet_of_decryptMaxPlaintextLength ih.noError hrun)
  | decrypt _ hrun ih => exact ih.decrypt hrun

end Settled

/-! ## Pickling and unpickling -/

/-- What a pickle restores. -/
structure Restores (session restored : Session K) : Prop where
  receivedMessage : restored.receivedMessage = session.receivedMessage
  aliceIdentityKey : restored.aliceIdentityKey = session.aliceIdentityKey
  aliceBaseKey : restored.aliceBaseKey = session.aliceBaseKey
  bobOneTimeKey : restored.bobOneTimeKey = session.bobOneTimeKey
  bobPrekey : restored.bobPrekey = session.bobPrekey
  rootKey : restored.ratchet.rootKey = session.ratchet.rootKey
  senderChain : restored.ratchet.senderChain = session.ratchet.senderChain
  receiverChains : restored.ratchet.receiverChains = session.ratchet.receiverChains
  skippedMessageKeys : restored.ratchet.skippedMessageKeys = session.ratchet.skippedMessageKeys

/-- **A session survives its pickle**, whatever calls it went through: as many
bytes are written as the length says, a new session reads all of them and
nothing else, holds the same afterwards, and replies to all later calls as
the original does. -/
theorem restores_pickle {prims : Primitives SharedKey} {session : Session SharedKey}
    (h : Reachable prims (FixedBytes.zero _) session) (stale : Ratchet.Stale) :
    session.pickle.length = session.pickleLength ∧
    ∃ restored, unpickle stale (Session.new (FixedBytes.zero _)) session.pickle =
        (restored, some []) ∧
      session.Restores restored ∧
      ∀ calls, replies (call prims) restored calls = replies (call prims) session calls := by
  have hsettled := h.settled
  have hreads := reads_unpickle stale (Session.new (FixedBytes.zero _)) rfl rfl rfl hsettled.numbered []
  rw [List.append_nil] at hreads
  refine ⟨length_pickle session, _, hreads, ⟨rfl, rfl, rfl, rfl, rfl, rfl, rfl, rfl, rfl⟩, ?_⟩
  intro calls
  refine ((keepsReplies_sameButError prims).replies_eq ⟨.SUCCESS, ?_⟩ calls).symm
  -- the error of a ratchet was never set
  have hratchet : session.ratchet = { session.ratchet with lastError := .SUCCESS } := by
    rw [← hsettled.noError]
  exact congrArg (fun ratchet => { session with lastError := .SUCCESS, ratchet := ratchet })
    hratchet.symm

/-- A session on a message of an account that has sent nothing yet. -/
def accepted : Session SharedKey :=
  match (Session.new (FixedBytes.zero _)).newInboundSession
      (.ofHashes .xor .accepting .zero .identity) Account.sevens none zeroPreKeyMessage with
  | .ok (session, _) => session
  | .error _ => Session.new (FixedBytes.zero _)

theorem newInboundSession_accepted : (Session.new (FixedBytes.zero _)).newInboundSession
    (.ofHashes .xor .accepting .zero .identity) Account.sevens none zeroPreKeyMessage =
      .ok (accepted, some ()) := by
  decide +kernel

/-- The same, once it has got the second message of its chain and not the first,
and answered. -/
def answered : Session SharedKey :=
  afterCalls (call (.ofHashes .xor .accepting .zero .identity)) accepted
    [.decrypt .MESSAGE (paddingMessage 1 0) 16 false,
      .encrypt [1, 2, 3] (List.replicate 32 1) (List.replicate 100 0)]

/-- A skipped key and both kinds of chains come back. -/
theorem restores_pickle_answered :
    answered.ratchet.senderChain.toList.map (·.chainKey.index) = [1] ∧
    answered.ratchet.receiverChains.toList.map (·.chainKey.index) = [2] ∧
    answered.ratchet.skippedMessageKeys.toList.map (·.messageKey.index) = [0] ∧
    answered.pickle.length = answered.pickleLength ∧
    ∃ restored, unpickle .zero (Session.new (FixedBytes.zero _)) answered.pickle =
        (restored, some []) ∧
      answered.Restores restored ∧
      ∀ calls,
        replies (call (.ofHashes .xor .accepting .zero .identity)) restored calls =
          replies (call (.ofHashes .xor .accepting .zero .identity)) answered calls :=
  ⟨by decide +kernel, by decide +kernel, by decide +kernel,
    restores_pickle (afterCalls_invariant (fun _ _ _ _ => Reachable.call _)
      (.newInboundSession .new newInboundSession_accepted) _) .zero⟩

end Olm.Session
