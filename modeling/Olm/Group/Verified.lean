import Olm.Group.Cache
import Olm.Symbolic

/-!
# What a verified session has seen

`signing_key_verified` says that there was evidence for the key of a session.
`Monitored` keeps beside the session whether there was, for the key that is
stored now. Nothing ever clears the flag, though, and both a key without a
signature and one with a signature that does not verify are stored over what
was there: on an object that is verified already, either leaves the flag of
the old key on the new one.
-/

namespace Olm

/-- A session object, and whether there was evidence for the key it holds
now: it came in a session key whose signature verified, or a message has been
decrypted since it came. -/
structure Monitored where
  session : InboundGroupSession
  evidence : Bool

namespace Monitored

open InboundGroupSession

variable (prims : GroupPrimitives)

/-- One call. What installs a key decides alone whether there is evidence for
it; what fails before leaves the old key and its evidence. -/
def step (s : Monitored) : GroupCall → Checked Monitored
  | .initInboundGroupSession sessionKey => do
    let (session, _) ← s.session.initInboundGroupSession prims sessionKey
    .ok ⟨session, if overwrites sessionKey SESSION_KEY_RAW_LENGTH SESSION_KEY_VERSION then
      signatureVerifies prims sessionKey else s.evidence⟩
  | .importInboundGroupSession sessionKey => do
    let (session, _) ← s.session.importInboundGroupSession prims sessionKey
    .ok ⟨session, if overwrites sessionKey SESSION_EXPORT_RAW_LENGTH SESSION_EXPORT_VERSION then
      false else s.evidence⟩
  | .groupDecrypt message maxPlaintextLength => do
    let d ← s.session.groupDecrypt prims message maxPlaintextLength
    .ok ⟨d.session, s.evidence || d.plaintext.isSome⟩
  | .exportInboundGroupSession key messageIndex => do
    let (session, _) ← s.session.exportInboundGroupSession prims key messageIndex
    .ok ⟨session, s.evidence⟩

/-- What the object should not be asked for while it is verified: to take a
key in the export format, or one whose signature does not verify. -/
def Unproven : GroupCall → Prop
  | .initInboundGroupSession sessionKey =>
    overwrites sessionKey SESSION_KEY_RAW_LENGTH SESSION_KEY_VERSION = true ∧
      signatureVerifies prims sessionKey = false
  | .importInboundGroupSession sessionKey =>
    overwrites sessionKey SESSION_EXPORT_RAW_LENGTH SESSION_EXPORT_VERSION = true
  | _ => False

/-- The flag is only set where there was evidence. -/
def Justified (s : Monitored) : Prop :=
  s.session.inboundGroupSessionIsVerified = true → s.evidence = true

variable {prims} {s s' : Monitored} {c : GroupCall}

/-- A decryption that fails leaves the flag, and so does `_get_megolm`. -/
theorem signingKeyVerified_of_getMegolm (session : InboundGroupSession) (messageIndex : UInt32) :
    (session.getMegolm prims messageIndex).1.signingKeyVerified = session.signingKeyVerified := by
  unfold getMegolm
  split
  · rfl
  split
  · rfl
  · rfl

/-- One call keeps the flag justified. -/
theorem Justified.step (h : s.Justified)
    (hassumed : s.session.inboundGroupSessionIsVerified = true → ¬ Unproven prims c)
    (hstep : s.step prims c = .ok s') : s'.Justified := by
  cases c with
  | initInboundGroupSession sessionKey =>
    obtain ⟨⟨session', result⟩, hinit, hstep⟩ := Checked.bind_eq_ok.mp hstep
    cases hstep
    intro hverified
    rcases initFromSessionKey_outcome hinit with ⟨hover, -, code, rfl⟩ | ⟨hover, m, signingKey,
      ⟨hexport, -⟩ | ⟨-, hsignature, -, rfl⟩ | ⟨-, hsignature, -⟩⟩
    · -- nothing was overwritten, so the evidence stands
      rw [if_neg Bool.false_ne_true] at hover
      dsimp only
      rw [hover, if_neg Bool.false_ne_true]
      exact h hverified
    · cases hexport
    · rw [if_neg Bool.false_ne_true] at hover
      -- overwritten without a valid signature: assumed away for a verified object
      exact absurd ⟨hover, hsignature⟩ (hassumed hverified)
    · rw [if_neg Bool.false_ne_true] at hover
      dsimp only
      rw [hover, if_pos rfl]
      exact hsignature
  | importInboundGroupSession sessionKey =>
    obtain ⟨⟨session', result⟩, himport, hstep⟩ := Checked.bind_eq_ok.mp hstep
    cases hstep
    intro hverified
    rcases initFromSessionKey_outcome himport with ⟨hover, -, code, rfl⟩ | ⟨hover, m, signingKey,
      ⟨-, -, rfl⟩ | ⟨hsigned, -⟩ | ⟨hsigned, -⟩⟩
    · rw [if_pos rfl] at hover
      dsimp only
      rw [hover, if_neg Bool.false_ne_true]
      exact h hverified
    · rw [if_pos rfl] at hover
      -- an import has no signature
      exact absurd hover (hassumed hverified)
    · cases hsigned
    · cases hsigned
  | groupDecrypt message maxPlaintextLength =>
    obtain ⟨d, hdecrypt, hstep⟩ := Checked.bind_eq_ok.mp hstep
    cases hstep
    intro hverified
    rw [groupDecrypt_eq] at hdecrypt
    obtain ⟨parts, -, hdecrypt⟩ := Checked.bind_eq_ok.mp hdecrypt
    cases parts with
    | error code =>
      cases hdecrypt
      dsimp only
      rw [h hverified, Bool.true_or]
    | ok parts =>
      obtain ⟨⟨session', plaintext⟩, hdecoded, hdecrypt⟩ := Checked.bind_eq_ok.mp hdecrypt
      cases hdecrypt
      dsimp only at hverified ⊢
      -- only a message that decrypts sets the flag, and it is evidence itself
      have hflag := @signingKeyVerified_of_getMegolm prims s.session parts.messageIndex
      rcases decryptDecoded_outcome hdecoded with ⟨-, code, rfl⟩ | ⟨-, hm⟩ |
        ⟨advanced, m, hm, ⟨-, rfl⟩ | ⟨hsome, -⟩⟩
      · rw [h hverified, Bool.true_or]
      · rw [hm] at hflag
        rw [h (hflag.symm.trans hverified), Bool.true_or]
      · rw [hm] at hflag
        rw [h (hflag.symm.trans hverified), Bool.true_or]
      · rw [hsome, Bool.or_true]
  | exportInboundGroupSession key messageIndex =>
    obtain ⟨⟨session', result⟩, hexport, hstep⟩ := Checked.bind_eq_ok.mp hstep
    cases hstep
    intro hverified
    refine h ?_
    rcases exportInboundGroupSession_outcome hexport with rfl | rfl
    · exact hverified
    · exact (@signingKeyVerified_of_getMegolm prims s.session messageIndex).symm.trans
        hverified

/-- **A session that reports to be verified is**, in every run of calls on one
object that never hand a verified object a key without evidence. -/
theorem justified_of_run
    (hrun : Run (step prims)
      (fun s c => s.session.inboundGroupSessionIsVerified = true → ¬ Unproven prims c)
      ⟨.new, false⟩ s) :
    s.session.inboundGroupSessionIsVerified = true → s.evidence = true := by
  have hstart : (⟨.new, false⟩ : Monitored).Justified := fun h => by cases h
  exact Run.invariant (P := Justified) hstart
    (fun s c s' h hassumed hstep => h.step hassumed hstep) hrun

/-- An object that was given the session key of a sender. -/
def initialised : Monitored where
  session := { InboundGroupSession.new.installed OutboundGroupSession.atLimit.ratchet
    OutboundGroupSession.atLimit.signingKey.publicKey with signingKeyVerified := true }
  evidence := true

theorem step_initialised : (⟨.new, false⟩ : Monitored).step .symbolic (.initInboundGroupSession
    (Base64.encode (OutboundGroupSession.atLimit.sessionKeyRaw .symbolic))) = .ok initialised := by
  obtain ⟨hover, hsignature⟩ : overwrites
        (Base64.encode (OutboundGroupSession.atLimit.sessionKeyRaw .symbolic))
        SESSION_KEY_RAW_LENGTH SESSION_KEY_VERSION = true ∧
      signatureVerifies .symbolic
        (Base64.encode (OutboundGroupSession.atLimit.sessionKeyRaw .symbolic)) = true := by
    rcases initFromSessionKey_outcome (initInboundGroupSession_atLimit .new) with ⟨-, hnone, -⟩ |
      ⟨hover, m, signingKey, ⟨hexport, -⟩ | ⟨-, -, hnone, -⟩ | ⟨-, hsignature, -⟩⟩
    · cases hnone
    · cases hexport
    · cases hnone
    · exact ⟨hover, hsignature⟩
  unfold step
  dsimp only
  rw [initInboundGroupSession_atLimit, Checked.ok_bind]
  dsimp only
  rw [hover, if_pos rfl, hsignature]
  rfl

theorem justified_of_run_symbolic : initialised.session.inboundGroupSessionIsVerified = true ∧
    initialised.evidence = true := by
  have hrun : Run (step .symbolic)
      (fun s c => s.session.inboundGroupSessionIsVerified = true → ¬ Unproven .symbolic c)
      ⟨.new, false⟩ initialised :=
    .step _ .start (fun h => by cases h) step_initialised
  exact ⟨rfl, justified_of_run hrun rfl⟩

/-- **A call that hands a verified object a key without evidence** leaves the
flag where there is none. -/
theorem not_justified_of_unproven (hverified : s.session.inboundGroupSessionIsVerified = true)
    (hc : Unproven prims c) (hstep : s.step prims c = .ok s') : ¬ s'.Justified := by
  cases c with
  | initInboundGroupSession sessionKey =>
    obtain ⟨⟨session', result⟩, hinit, hstep⟩ := Checked.bind_eq_ok.mp hstep
    cases hstep
    obtain ⟨hover, hsignature⟩ := hc
    rcases initFromSessionKey_outcome hinit with ⟨hnot, -⟩ | ⟨-, m, signingKey, ⟨hexport, -⟩ |
      ⟨-, -, -, rfl⟩ | ⟨-, hsigned, -⟩⟩
    · rw [if_neg Bool.false_ne_true, hover] at hnot
      cases hnot
    · cases hexport
    · intro hjustified
      have hevidence := hjustified hverified
      dsimp only at hevidence
      rw [hover, if_pos rfl, hsignature] at hevidence
      cases hevidence
    · rw [hsignature] at hsigned
      cases hsigned
  | importInboundGroupSession sessionKey =>
    obtain ⟨⟨session', result⟩, himport, hstep⟩ := Checked.bind_eq_ok.mp hstep
    cases hstep
    have hover : overwrites sessionKey SESSION_EXPORT_RAW_LENGTH SESSION_EXPORT_VERSION = true := hc
    rcases initFromSessionKey_outcome himport with ⟨hnot, -⟩ | ⟨-, m, signingKey, ⟨-, -, rfl⟩ |
      ⟨hsigned, -⟩ | ⟨hsigned, -⟩⟩
    · rw [if_pos rfl, hover] at hnot
      cases hnot
    · intro hjustified
      have hevidence := hjustified hverified
      dsimp only at hevidence
      rw [hover, if_pos rfl] at hevidence
      cases hevidence
    · cases hsigned
    · cases hsigned
  | groupDecrypt message maxPlaintextLength => exact hc.elim
  | exportInboundGroupSession key messageIndex => exact hc.elim

/-- A key in the export format that nothing speaks for. -/
def forgedExport : Bytes :=
  Base64.encode (exportRaw OutboundGroupSession.atLimit.ratchet ⟨List.replicate 32 1, rfl⟩)

/-- The flag is wrong of an object that was given a session key and then a
key in the export format. -/
theorem not_justified : ∃ s : Monitored, Run (step .symbolic) (fun _ _ => True) ⟨.new, false⟩ s ∧
    s.session.inboundGroupSessionIsVerified = true ∧ s.evidence = false := by
  have hover : overwrites forgedExport SESSION_EXPORT_RAW_LENGTH SESSION_EXPORT_VERSION = true := by
    unfold forgedExport exportRaw
    rw [overwrites_encode, sessionKeyBody_length]
    rfl
  have himport : initialised.step .symbolic (.importInboundGroupSession forgedExport) =
      .ok ⟨initialised.session.installed OutboundGroupSession.atLimit.ratchet
        ⟨List.replicate 32 1, rfl⟩, false⟩ := by
    unfold step forgedExport
    dsimp only
    rw [importInboundGroupSession_exportRaw, Checked.ok_bind]
    dsimp only
    unfold forgedExport at hover
    rw [hover, if_pos rfl]
  exact ⟨_, .step _ (.step _ .start trivial step_initialised) trivial himport, rfl, rfl⟩

end Monitored

end Olm
