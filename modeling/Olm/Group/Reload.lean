import Olm.Common.Calls
import Olm.Group.Messages
import Olm.Group.Pickle
import Olm.Symbolic

/-!
# A group session from its pickle

All of a session is pickled but its `last_error`, which no call looks at. So
a session that was unpickled replies to every call as the one that was
pickled. A pickle of version 1 has no `signing_key_verified`, and the session
is verified.
-/

namespace Olm

/-! ## Ratchets -/

namespace Megolm

theorem length_pickle (m : Megolm) : m.pickle.length = m.pickleLength := by
  rw [pickle, pickleLength, List.length_append, getData_length, length_pickleUInt32]

/-- The parts are where they were put. -/
theorem withData_dataArray (m old : Megolm) : (old.withData m.dataArray).data = m.data := by
  have h0 : m.dataArray.val.drop 0 = (m.data 0).val ++
      ((m.data 1).val ++ ((m.data 2).val ++ (m.data 3).val)) := by
    simp only [List.drop_zero, dataArray, getData, List.append_assoc]
  have h1 := drop_add_of_drop_eq_append _ h0
  have h2 := drop_add_of_drop_eq_append _ h1
  have h3 := drop_add_of_drop_eq_append _ h2
  rw [← List.append_nil (m.data 3).val] at h3
  simp only [FixedBytes.length_val, Nat.zero_add] at h1 h2 h3
  funext part
  obtain ⟨_ | _ | _ | _ | part, hpart⟩ := part
  · exact FixedBytes.slice_of_drop_eq_append (part_le 0) h0
  · exact FixedBytes.slice_of_drop_eq_append (part_le 1) h1
  · exact FixedBytes.slice_of_drop_eq_append (part_le 2) h2
  · exact FixedBytes.slice_of_drop_eq_append (part_le 3) h3
  · exact absurd hpart (Nat.not_lt_of_le (Nat.le_add_left 4 part))

theorem reads_unpickle (old m : Megolm) : unpickle.Reads old m.pickle m := by
  have hreads : unpickle.Reads old m.pickle
      { data := (old.withData m.dataArray).data, counter := m.counter } :=
    (Unpickler.Reads.field _ (reads_unpickleBytes old.dataArray m.dataArray)).andThen
      (.field _ (reads_unpickleUInt32 _ m.counter))
  rw [withData_dataArray] at hreads
  exact hreads

/-- The parts of the data, one after another, are the data. -/
theorem dataArray_withData (m : Megolm) (data : FixedBytes MEGOLM_RATCHET_LENGTH) :
    (m.withData data).dataArray = data := by
  have hlength := data.property
  apply Subtype.ext
  show (data.val.drop 0).take 32 ++ (data.val.drop 32).take 32 ++ (data.val.drop 64).take 32 ++
    (data.val.drop 96).take 32 = data.val
  have hlast : (data.val.drop 96).take 32 = data.val.drop 96 := by
    rw [List.take_of_length_le]
    rw [List.length_drop, hlength]
    decide
  have hcut (pos : ℕ) : (data.val.drop pos).take 32 ++ data.val.drop (pos + 32) =
      data.val.drop pos := by
    rw [← List.drop_drop, List.take_append_drop]
  rw [hlast, List.append_assoc, List.append_assoc, hcut 64, hcut 32, hcut 0, List.drop_zero]

theorem writesBack_unpickle : unpickle.WritesBack pickle :=
  (Unpickler.WritesBack.field (writesBack_unpickleBytes _) dataArray_withData).andThen
    (.field writesBack_unpickleUInt32 fun _ _ => rfl) fun _ => .field _ fun _ _ h => h

end Megolm

/-! ## Calls of the sender -/

/-- What a call on a group session gives. -/
inductive GroupReply where
  | length (length : ℕ)
  | text (buf : Bytes) (length : ℕ)
  | messageIndex (messageIndex : UInt32)
  | isVerified (verified : Bool)
  /-- The index that was stored, and the plain text or the error. -/
  | decryption (messageIndex : Option UInt32) (plaintext : Except OlmErrorCode Bytes)
  deriving DecidableEq

/-- An encryption into the room for it does not fail. -/
theorem GroupPrimitives.megolmCipher_encrypt_ne_none (prims : GroupPrimitives)
    (key plaintext buf : Bytes) (ciphertext output n : ℕ) :
    prims.megolmCipher.encrypt key plaintext buf ciphertext
      (prims.megolmCipher.encryptCiphertextLength plaintext.length) output
      (n + prims.megolmCipher.macLength) ≠ .ok none := by
  have hguard : ¬(aesEncryptCbcLength plaintext.length < aesEncryptCbcLength plaintext.length ∨
      n + MAC_LENGTH < MAC_LENGTH) := by
    omega
  intro h
  have hrun : AesSha256.encrypt prims.hashes prims.aes (asciiBytes "MEGOLM_KEYS") key plaintext buf
      ciphertext (aesEncryptCbcLength plaintext.length) output (n + MAC_LENGTH) = .ok none := h
  unfold AesSha256.encrypt at hrun
  rw [if_neg hguard] at hrun
  simp only [Checked.bind_eq_ok] at hrun
  obtain ⟨_, -, _, -, _, -, hrun⟩ := hrun
  cases hrun

namespace OutboundGroupSession

/-- The calls on a session that was initialised. -/
inductive Call where
  | groupEncryptMessageLength (plaintextLength : ℕ)
  | groupEncrypt (plaintext message : Bytes)
  | outboundGroupSessionId (id : Bytes)
  | outboundGroupSessionMessageIndex
  | outboundGroupSessionKey (key : Bytes)
  | pickleOutboundGroupSession (key pickled : Bytes)

/-- A call and its reply, or the error that it sets. -/
def reply (prims : GroupPrimitives) (session : OutboundGroupSession) :
    Call → Checked (OutboundGroupSession × Except OlmErrorCode GroupReply)
  | .groupEncryptMessageLength plaintextLength =>
    .ok (session, .ok (.length (session.groupEncryptMessageLength prims plaintextLength)))
  | .groupEncrypt plaintext message =>
    report (·.lastError) (fun (buf, length) => .text buf length)
      (session.groupEncrypt prims plaintext message)
  | .outboundGroupSessionId id =>
    report (·.lastError) (fun (buf, length) => .text buf length) (session.outboundGroupSessionId id)
  | .outboundGroupSessionMessageIndex =>
    .ok (session, .ok (.messageIndex session.outboundGroupSessionMessageIndex))
  | .outboundGroupSessionKey key =>
    report (·.lastError) (fun (buf, length) => .text buf length)
      (session.outboundGroupSessionKey prims key)
  | .pickleOutboundGroupSession key pickled =>
    report (·.lastError) (fun (buf, length) => .text buf length)
      (session.pickleOutboundGroupSession prims.hashes prims.aes key pickled)

/-- The same but for the error of an earlier call. -/
def Alike (session session' : OutboundGroupSession) : Prop :=
  ∃ code, session' = { session with lastError := code }

/-- **No call looks at the error of an earlier one.** -/
theorem keepsReplies_alike (prims : GroupPrimitives) :
    KeepsReplies (reply prims) (reply prims) Alike := by
  rintro session _ request ⟨code, rfl⟩
  have hfailed : ∀ {α : Type} (f : α → GroupReply) (failed : OlmErrorCode), SameReply Alike
      (report (·.lastError) f (session.fail failed))
      (report (·.lastError) f
        (OutboundGroupSession.fail { session with lastError := code } failed)) :=
    fun f failed => .report_none ⟨failed, rfl⟩ rfl
  cases request with
  | groupEncryptMessageLength plaintextLength => exact .ok _ ⟨code, rfl⟩
  | outboundGroupSessionMessageIndex => exact .ok _ ⟨code, rfl⟩
  | outboundGroupSessionId id =>
    refine .report_ite (hfailed _ _) (.report_bind fun written => ?_)
    exact .report_some _ ⟨code, rfl⟩
  | outboundGroupSessionKey key =>
    refine .report_ite (hfailed _ _) ?_
    refine .report_bind fun _ => .report_bind fun _ => .report_bind fun _ => .report_bind fun _ =>
      .report_bind fun _ => .report_bind fun _ => .report_bind fun written => ?_
    exact .report_some _ ⟨code, rfl⟩
  | pickleOutboundGroupSession key pickled =>
    refine .report_ite (hfailed _ _) (.report_bind fun _ => .report_bind fun written => ?_)
    exact .report_some _ ⟨code, rfl⟩
  | groupEncrypt plaintext message =>
    refine .report_ite (hfailed _ _) ?_
    simp only [encrypt, bind_assoc]
    refine .report_bind fun writer => .report_bind_of_eq fun sealed hsealed => ?_
    cases sealed with
    | none => exact absurd hsealed (prims.megolmCipher_encrypt_ne_none _ _ _ _ _ _)
    | some message =>
      simp only [bind_assoc]
      refine .report_bind fun _ => .report_bind fun message => ?_
      simp only [Checked.ok_bind]
      refine .report_bind fun written => ?_
      exact .report_some _ ⟨code, rfl⟩

end OutboundGroupSession

/-! ## Calls of the receiver -/

namespace InboundGroupSession

/-- The calls on a session that was initialised. -/
inductive Call where
  | groupDecryptMaxPlaintextLength (message : Bytes)
  | groupDecrypt (message : Bytes) (maxPlaintextLength : ℕ)
  | inboundGroupSessionId (id : Bytes)
  | inboundGroupSessionFirstKnownIndex
  | inboundGroupSessionIsVerified
  | exportInboundGroupSession (key : Bytes) (messageIndex : UInt32)
  | pickleInboundGroupSession (key pickled : Bytes)

/-- What a decryption replies. -/
def decryptionReply (decryption : GroupDecryption) : Except OlmErrorCode GroupReply :=
  .ok (.decryption decryption.messageIndex
    (decryption.plaintext.elim (.error decryption.session.lastError) .ok))

/-- A call and its reply, or the error that it sets. -/
def reply (prims : GroupPrimitives) (session : InboundGroupSession) :
    Call → Checked (InboundGroupSession × Except OlmErrorCode GroupReply)
  | .groupDecryptMaxPlaintextLength message =>
    report (·.lastError) .length (session.groupDecryptMaxPlaintextLength prims message)
  | .groupDecrypt message maxPlaintextLength => do
    let decryption ← session.groupDecrypt prims message maxPlaintextLength
    .ok (decryption.session, decryptionReply decryption)
  | .inboundGroupSessionId id =>
    report (·.lastError) (fun (buf, length) => .text buf length) (session.inboundGroupSessionId id)
  | .inboundGroupSessionFirstKnownIndex =>
    .ok (session, .ok (.messageIndex session.inboundGroupSessionFirstKnownIndex))
  | .inboundGroupSessionIsVerified =>
    .ok (session, .ok (.isVerified session.inboundGroupSessionIsVerified))
  | .exportInboundGroupSession key messageIndex =>
    report (·.lastError) (fun (buf, length) => .text buf length)
      (session.exportInboundGroupSession prims key messageIndex)
  | .pickleInboundGroupSession key pickled =>
    report (·.lastError) (fun (buf, length) => .text buf length)
      (session.pickleInboundGroupSession prims.hashes prims.aes key pickled)

/-- The same but for the error of an earlier call. -/
def Alike (session session' : InboundGroupSession) : Prop :=
  ∃ code, session' = { session with lastError := code }

/-- Both find the same ratchet, or fail alike. -/
theorem getMegolm_withError (prims : GroupPrimitives) (session : InboundGroupSession)
    (code : OlmErrorCode) (messageIndex : UInt32) :
    (∃ s m, session.getMegolm prims messageIndex = (s, some m) ∧
      ({ session with lastError := code } : InboundGroupSession).getMegolm prims messageIndex =
        ({ s with lastError := code }, some m)) ∨
    ∃ s, session.getMegolm prims messageIndex = (s, none) ∧
      ({ session with lastError := code } : InboundGroupSession).getMegolm prims messageIndex =
        (s, none) := by
  unfold getMegolm
  by_cases hlatest : messageIndex - session.latestRatchet.counter < (1 : UInt32) <<< 31
  · exact .inl ⟨_, _, by rw [if_pos hlatest], by simp only [if_pos hlatest]⟩
  · by_cases hinitial : (1 : UInt32) <<< 31 ≤ messageIndex - session.initialRatchet.counter
    · exact .inr ⟨_, by rw [if_neg hlatest, if_pos hinitial],
        by simp only [if_neg hlatest, if_pos hinitial]⟩
    · exact .inl ⟨_, _, by rw [if_neg hlatest, if_neg hinitial],
        by simp only [if_neg hlatest, if_neg hinitial]⟩

/-- **No call looks at the error of an earlier one.** -/
theorem keepsReplies_alike (prims : GroupPrimitives) :
    KeepsReplies (reply prims) (reply prims) Alike := by
  rintro session _ request ⟨code, rfl⟩
  have hfailed : ∀ {α : Type} (f : α → GroupReply) (failed : OlmErrorCode), SameReply Alike
      (report (·.lastError) f (session.fail failed))
      (report (·.lastError) f
        (InboundGroupSession.fail { session with lastError := code } failed)) :=
    fun f failed => .report_none ⟨failed, rfl⟩ rfl
  cases request with
  | inboundGroupSessionFirstKnownIndex => exact .ok _ ⟨code, rfl⟩
  | inboundGroupSessionIsVerified => exact .ok _ ⟨code, rfl⟩
  | inboundGroupSessionId id =>
    refine .report_ite (hfailed _ _) (.report_bind fun written => ?_)
    exact .report_some _ ⟨code, rfl⟩
  | pickleInboundGroupSession key pickled =>
    refine .report_ite (hfailed _ _) (.report_bind fun _ => .report_bind fun written => ?_)
    exact .report_some _ ⟨code, rfl⟩
  | groupDecryptMaxPlaintextLength message =>
    refine .report_bind fun decoded => ?_
    obtain ⟨message, _ | rawMessageLength⟩ := decoded
    · exact hfailed _ _
    · refine .report_bind fun results => .report_ite (hfailed _ _) (.report_ite (hfailed _ _) ?_)
      exact .report_some _ ⟨code, rfl⟩
  | exportInboundGroupSession key messageIndex =>
    refine .report_ite (hfailed _ _) ?_
    rcases getMegolm_withError prims session code messageIndex with
      ⟨s, m, hfound, hfound'⟩ | ⟨s, hnone, hnone'⟩
    · rw [hfound, hfound']
      refine .report_bind fun _ => .report_bind fun _ => .report_bind fun _ => .report_bind fun _ =>
        .report_bind fun written => ?_
      exact .report_some _ ⟨code, rfl⟩
    · rw [hnone, hnone']
      exact .report_none ⟨s.lastError, rfl⟩ rfl
  | groupDecrypt message maxPlaintextLength =>
    simp only [reply, groupDecrypt_eq, bind_assoc]
    refine .bind fun parts => ?_
    cases parts with
    | error failed => exact .ok _ ⟨failed, rfl⟩
    | ok parts =>
      simp only [decryptDecoded, bind_assoc]
      refine .bind fun signature => .bind fun input => ?_
      by_cases hverify : (!prims.ed25519.verify session.signingKey input signature) = true
      · rw [if_pos hverify, if_pos hverify]
        exact .ok _ ⟨_, rfl⟩
      · rw [if_neg hverify, if_neg hverify]
        by_cases hroom : maxPlaintextLength <
            prims.megolmCipher.decryptMaxPlaintextLength parts.ciphertextLength
        · rw [if_pos hroom, if_pos hroom]
          exact .ok _ ⟨_, rfl⟩
        · rw [if_neg hroom, if_neg hroom]
          rcases getMegolm_withError prims session code parts.messageIndex with
            ⟨s, m, hfound, hfound'⟩ | ⟨s, hnone, hnone'⟩
          · rw [hfound, hfound']
            simp only [bind_assoc]
            refine .bind fun plaintext => ?_
            cases plaintext with
            | none => exact .ok _ ⟨_, rfl⟩
            | some plaintext => exact .ok _ ⟨code, rfl⟩
          · rw [hnone, hnone']
            exact .ok _ ⟨s.lastError, rfl⟩

end InboundGroupSession

/-! ## Pickling and unpickling -/

section Common

variable (hashes : Hashes) {aes : Aes256} {σ : Type} (setError : σ → OlmErrorCode → σ)
variable (unknown : UInt32 → Prop) [DecidablePred unknown] (unpickleFields : UInt32 → Unpickler σ)

/-- The text that a session is pickled to. -/
theorem pickleGroupSession_eq (aes : Aes256) (session : σ) (key raw : Bytes) {pickled : Bytes}
    (hroom : encOutputLength raw.length ≤ pickled.length) :
    pickleGroupSession hashes aes setError raw.length raw session key pickled =
      .ok (session, some (encText hashes aes key raw ++ pickled.drop (encOutputLength raw.length),
        encOutputLength raw.length)) := by
  obtain ⟨written, hwrite, hencode⟩ := Checked.bind_eq_ok.mp (encOutput_eq hashes aes key raw hroom)
  rw [pickleGroupSession, if_neg (Nat.not_lt_of_le hroom), hwrite, Checked.ok_bind, hencode,
    Checked.ok_bind]

/-- The fields of a version that is known are read back. -/
theorem unpickleGroupSession_encText (haes : aes.Inverts) {target restored : σ} {version : UInt32}
    (key : Bytes) {fields : Bytes} (hversion : ¬unknown version)
    (hreads : (unpickleFields version).Reads target fields restored)
    (hsize : aesEncryptCbcLength (pickleUInt32 version ++ fields).length + MAC_LENGTH <
      2 ^ SIZE_WIDTH) :
    unpickleGroupSession hashes aes setError unknown unpickleFields target key
        (encText hashes aes key (pickleUInt32 version ++ fields)) =
      .ok (restored, some (encText hashes aes key (pickleUInt32 version ++ fields)).length) := by
  obtain ⟨rest, hinput⟩ := encInput_encText hashes haes key (pickleUInt32 version ++ fields) hsize
  have hfields := hreads []
  rw [List.append_nil] at hfields
  rw [unpickleGroupSession, hinput, Checked.ok_bind]
  dsimp only
  rw [List.take_left, unpickleGroupContents, reads_unpickleUInt32]
  dsimp only
  rw [if_neg hversion, hfields]

/-- **The text of a session is read back**: it is as long as the length says,
and gives what the fields are read as. -/
theorem exists_text_of_reads (haes : aes.Inverts) (session : σ) {target restored : σ}
    {version : UInt32} (key : Bytes) {fields pickled : Bytes} {rawLength : ℕ}
    (hversion : ¬unknown version) (hreads : (unpickleFields version).Reads target fields restored)
    (hlength : (pickleUInt32 version ++ fields).length = rawLength)
    (hsize : aesEncryptCbcLength rawLength + MAC_LENGTH < 2 ^ SIZE_WIDTH)
    (hroom : encOutputLength rawLength ≤ pickled.length) :
    ∃ text : Bytes, text.length = encOutputLength rawLength ∧
      pickleGroupSession hashes aes setError rawLength (pickleUInt32 version ++ fields) session key
        pickled = .ok (session, some (text ++ pickled.drop text.length, text.length)) ∧
      unpickleGroupSession hashes aes setError unknown unpickleFields target key text =
        .ok (restored, some text.length) := by
  subst hlength
  have htext := encText_length hashes aes key (pickleUInt32 version ++ fields)
  refine ⟨encText hashes aes key (pickleUInt32 version ++ fields), htext, ?_, ?_⟩
  · rw [htext]
    exact pickleGroupSession_eq hashes setError aes session key _ hroom
  · exact unpickleGroupSession_encText hashes setError unknown unpickleFields haes key hversion
      hreads hsize

end Common

namespace OutboundGroupSession

theorem length_pickle (session : OutboundGroupSession) :
    session.pickle.length = session.rawPickleLength := by
  rw [pickle, rawPickleLength, List.length_append, List.length_append, length_pickleUInt32,
    Megolm.length_pickle, length_pickleEd25519KeyPair, Nat.add_assoc]

theorem reads_unpickleFields (target session : OutboundGroupSession) :
    unpickleFields.Reads target (session.ratchet.pickle ++ pickleEd25519KeyPair session.signingKey)
      { session with lastError := target.lastError } :=
  (Unpickler.Reads.field _ (Megolm.reads_unpickle _ session.ratchet)).andThen
    (.field _ (reads_unpickleEd25519KeyPair _ session.signingKey))

/-- **A session of the sender survives its pickle**: it is pickled to as many
bytes as the length says, and any session that these are unpickled over has
its ratchet and its key pair, and replies to every call as it does. -/
def Survives (prims : GroupPrimitives) (session target : OutboundGroupSession)
    (key pickled : Bytes) : Prop :=
  ∃ text : Bytes, text.length = session.pickleOutboundGroupSessionLength ∧
    session.pickleOutboundGroupSession prims.hashes prims.aes key pickled =
      .ok (session, some (text ++ pickled.drop text.length, text.length)) ∧
    ∃ restored, target.unpickleOutboundGroupSession prims.hashes prims.aes key text =
        .ok (restored, some text.length) ∧
      restored.ratchet = session.ratchet ∧ restored.signingKey = session.signingKey ∧
      ∀ calls, replies (reply prims) restored calls = replies (reply prims) session calls

theorem survives {prims : GroupPrimitives} (haes : prims.aes.Inverts)
    (session target : OutboundGroupSession) (key : Bytes) {pickled : Bytes}
    (hroom : session.pickleOutboundGroupSessionLength ≤ pickled.length) :
    session.Survives prims target key pickled := by
  have hsize : aesEncryptCbcLength session.rawPickleLength + MAC_LENGTH < 2 ^ SIZE_WIDTH := by
    show aesEncryptCbcLength 232 + MAC_LENGTH < 2 ^ SIZE_WIDTH
    decide
  obtain ⟨text, hlength, hpickle, hunpickle⟩ := exists_text_of_reads prims.hashes
    (fun (session : OutboundGroupSession) code => { session with lastError := code })
    (fun pickleVersion => pickleVersion ≠ PICKLE_VERSION) (fun _ => unpickleFields) haes session key
    (not_not.mpr rfl) (reads_unpickleFields target session) (length_pickle session) hsize hroom
  refine ⟨text, hlength, hpickle, _, hunpickle, rfl, rfl, ?_⟩
  intro calls
  exact ((keepsReplies_alike prims).replies_eq ⟨target.lastError, rfl⟩ calls).symm

end OutboundGroupSession

namespace InboundGroupSession

theorem length_pickle (session : InboundGroupSession) :
    session.pickle.length = session.rawPickleLength := by
  simp only [pickle, rawPickleLength, List.length_append, length_pickleUInt32,
    Megolm.length_pickle, FixedBytes.length_val, length_pickleBool, Nat.add_assoc]

/-- What both versions have in front of the flag. -/
theorem reads_upTo_flag (target session : InboundGroupSession) {restored : InboundGroupSession}
    {version : UInt32} {bytes : Bytes}
    (hflag : Unpickler.Reads
      (if version = 1 then fun s input => ({ s with signingKeyVerified := true }, some input)
      else Unpickler.field (·.signingKeyVerified) (fun s a => { s with signingKeyVerified := a })
        unpickleBool)
      { session with
        signingKeyVerified := target.signingKeyVerified, lastError := target.lastError }
      bytes restored) :
    (unpickleFields version).Reads target (session.initialRatchet.pickle ++
      (session.latestRatchet.pickle ++ (session.signingKey.val ++ bytes))) restored :=
  (Unpickler.Reads.field _ (Megolm.reads_unpickle _ session.initialRatchet)).andThen
    ((Unpickler.Reads.field _ (Megolm.reads_unpickle _ session.latestRatchet)).andThen
    ((Unpickler.Reads.field _ (reads_unpickleBytes _ session.signingKey)).andThen hflag))

theorem reads_unpickleFields (target session : InboundGroupSession) :
    (unpickleFields PICKLE_VERSION).Reads target (session.initialRatchet.pickle ++
      (session.latestRatchet.pickle ++ (session.signingKey.val ++
        pickleBool session.signingKeyVerified)))
      { session with lastError := target.lastError } := by
  refine reads_upTo_flag target session ?_
  rw [if_neg (by decide)]
  exact .field _ (reads_unpickleBool _ session.signingKeyVerified)

/-- What version 1 wrote, which did not have the flag. -/
def pickleFieldsVersion1 (session : InboundGroupSession) : Bytes :=
  session.initialRatchet.pickle ++ (session.latestRatchet.pickle ++ session.signingKey.val)

theorem reads_unpickleFields_one (target session : InboundGroupSession) :
    (unpickleFields 1).Reads target session.pickleFieldsVersion1
      { session with signingKeyVerified := true, lastError := target.lastError } := by
  have hreads : (unpickleFields 1).Reads target (session.initialRatchet.pickle ++
      (session.latestRatchet.pickle ++ (session.signingKey.val ++ [])))
      { session with signingKeyVerified := true, lastError := target.lastError } :=
    reads_upTo_flag target session fun _ => rfl
  rw [List.append_nil] at hreads
  exact hreads

/-- What was read of a pickle of version 1 is what it says. -/
theorem writesBack_unpickleFields_one {target restored : InboundGroupSession} {input : Bytes}
    (h : unpickleFields 1 target input = (restored, some [])) :
    input = restored.pickleFieldsVersion1 ∧ restored.signingKeyVerified = true := by
  have hback : (unpickleFields 1).WritesBack fun s =>
      s.initialRatchet.pickle ++ (s.latestRatchet.pickle ++ (s.signingKey.val ++ [])) := by
    have hset : Unpickler.WritesBack
        (fun (s : InboundGroupSession) input => ({ s with signingKeyVerified := true }, some input))
        fun _ => [] := by
      intro s s' input rest h
      exact Option.some.inj (congrArg Prod.snd h)
    refine (Unpickler.WritesBack.field Megolm.writesBack_unpickle fun _ _ => rfl).andThen
      ((Unpickler.WritesBack.field Megolm.writesBack_unpickle fun _ _ => rfl).andThen
      ((Unpickler.WritesBack.field (writesBack_unpickleBytes _) fun _ _ => rfl).andThen hset
        fun _ _ _ h => h) fun _ => .andThen (.field _ fun _ _ h => h) fun _ _ h => h)
      fun _ => .andThen (.field _ fun _ _ h => h)
        (.andThen (.field _ fun _ _ h => h) fun _ _ h => h)
  refine ⟨?_, ?_⟩
  · have hinput := hback target restored input [] h
    simp only [List.append_nil] at hinput
    exact hinput
  · obtain ⟨_, _, -, h⟩ := Unpickler.andThen_eq_some.mp h
    obtain ⟨_, _, -, h⟩ := Unpickler.andThen_eq_some.mp h
    obtain ⟨_, _, -, h⟩ := Unpickler.andThen_eq_some.mp h
    rw [if_pos rfl] at h
    obtain ⟨rfl, -⟩ := Prod.mk.inj h
    rfl

/-- **A session of the receiver survives its pickle.** -/
def Survives (prims : GroupPrimitives) (session target : InboundGroupSession)
    (key pickled : Bytes) : Prop :=
  ∃ text : Bytes, text.length = session.pickleInboundGroupSessionLength ∧
    session.pickleInboundGroupSession prims.hashes prims.aes key pickled =
      .ok (session, some (text ++ pickled.drop text.length, text.length)) ∧
    ∃ restored, target.unpickleInboundGroupSession prims.hashes prims.aes key text =
        .ok (restored, some text.length) ∧
      restored.initialRatchet = session.initialRatchet ∧
      restored.latestRatchet = session.latestRatchet ∧
      restored.signingKey = session.signingKey ∧
      restored.signingKeyVerified = session.signingKeyVerified ∧
      ∀ calls, replies (reply prims) restored calls = replies (reply prims) session calls

theorem survives {prims : GroupPrimitives} (haes : prims.aes.Inverts)
    (session target : InboundGroupSession) (key : Bytes) {pickled : Bytes}
    (hroom : session.pickleInboundGroupSessionLength ≤ pickled.length) :
    session.Survives prims target key pickled := by
  have hsize : aesEncryptCbcLength session.rawPickleLength + MAC_LENGTH < 2 ^ SIZE_WIDTH := by
    show aesEncryptCbcLength 301 + MAC_LENGTH < 2 ^ SIZE_WIDTH
    decide
  obtain ⟨text, hlength, hpickle, hunpickle⟩ := exists_text_of_reads prims.hashes
    (fun (session : InboundGroupSession) code => { session with lastError := code })
    (fun pickleVersion => pickleVersion < 1 ∨ pickleVersion > PICKLE_VERSION) unpickleFields haes
    session key (by decide) (reads_unpickleFields target session) (length_pickle session) hsize
    hroom
  refine ⟨text, hlength, hpickle, _, hunpickle, rfl, rfl, rfl, rfl, ?_⟩
  intro calls
  exact ((keepsReplies_alike prims).replies_eq ⟨target.lastError, rfl⟩ calls).symm

/-- What is unpickled of a text whose contents begin with version 1. -/
theorem eq_of_unpickle_version1 {hashes : Hashes} {aes : Aes256}
    {target restored : InboundGroupSession} {key pickled buf : Bytes} {rawLength n : ℕ}
    (hinput : encInput hashes aes key pickled = .ok (buf, .ok rawLength))
    (hversion : (buf.take rawLength).take 4 = pickleUInt32 1)
    (h : target.unpickleInboundGroupSession hashes aes key pickled = .ok (restored, some n)) :
    n = pickled.length ∧
      buf.take rawLength = pickleUInt32 1 ++ restored.pickleFieldsVersion1 ∧
      restored.signingKeyVerified = true := by
  obtain ⟨raw, hraw⟩ : ∃ raw, buf.take rawLength = raw := ⟨_, rfl⟩
  have hcut := List.take_append_drop 4 raw
  rw [hraw] at hversion
  rw [hversion] at hcut
  unfold unpickleInboundGroupSession unpickleGroupSession at h
  rw [hinput, Checked.ok_bind] at h
  dsimp only at h
  rw [hraw, ← hcut, unpickleGroupContents, reads_unpickleUInt32] at h
  dsimp only at h
  rw [if_neg (by decide)] at h
  rcases hfields : unpickleFields 1 target (raw.drop 4) with ⟨s, _ | _ | ⟨b, rest⟩⟩
  · rw [hfields] at h
    cases h
  · rw [hfields] at h
    cases h
    obtain ⟨hback, hverified⟩ := writesBack_unpickleFields_one hfields
    exact ⟨rfl, by rw [hraw, ← hcut, hback], hverified⟩
  · rw [hfields] at h
    cases h

end InboundGroupSession

/-! ## Both -/

/-- **Group sessions survive their pickles**, whatever their state, over any
session; a pickle of version 1 has the ratchets and the key of a session that
is verified, and no other is accepted with that version; and the `int` of the
flag is what was stored of it through a `bool`. -/
theorem groupSessions_survive_pickle {prims : GroupPrimitives} (haes : prims.aes.Inverts)
    (key : Bytes) :
    (∀ (session target : OutboundGroupSession) (pickled : Bytes),
      session.pickleOutboundGroupSessionLength ≤ pickled.length →
      session.Survives prims target key pickled) ∧
    (∀ (session target : InboundGroupSession) (pickled : Bytes),
      session.pickleInboundGroupSessionLength ≤ pickled.length →
      session.Survives prims target key pickled) ∧
    (∀ (session target : InboundGroupSession) (text : Bytes),
      text = encText prims.hashes prims.aes key
        (pickleUInt32 1 ++ session.pickleFieldsVersion1) →
      target.unpickleInboundGroupSession prims.hashes prims.aes key text =
        .ok ({ session with signingKeyVerified := true, lastError := target.lastError },
          some text.length)) ∧
    (∀ (target restored : InboundGroupSession) (pickled buf : Bytes) (rawLength n : ℕ),
      encInput prims.hashes prims.aes key pickled = .ok (buf, .ok rawLength) →
      (buf.take rawLength).take 4 = pickleUInt32 1 →
      target.unpickleInboundGroupSession prims.hashes prims.aes key pickled =
        .ok (restored, some n) →
      buf.take rawLength = pickleUInt32 1 ++ restored.pickleFieldsVersion1 ∧
        restored.signingKeyVerified = true) ∧
    ∀ value, (IntFlag.storeBool ⟨FixedBytes.zero _⟩ value).isSet = value := by
  refine ⟨fun session target pickled hroom => session.survives haes target key hroom,
    fun session target pickled hroom => session.survives haes target key hroom, ?_, ?_,
    IntFlag.isSet_storeBool⟩
  · rintro session target text rfl
    have hlength : (pickleUInt32 1 ++ session.pickleFieldsVersion1).length = 300 := by
      simp only [InboundGroupSession.pickleFieldsVersion1, List.length_append, length_pickleUInt32,
        Megolm.length_pickle, FixedBytes.length_val]
      rfl
    have hsize : aesEncryptCbcLength (pickleUInt32 1 ++ session.pickleFieldsVersion1).length +
        MAC_LENGTH < 2 ^ SIZE_WIDTH := by
      rw [hlength]
      decide
    exact unpickleGroupSession_encText prims.hashes _ _ InboundGroupSession.unpickleFields haes
      key (by decide) (InboundGroupSession.reads_unpickleFields_one target session) hsize
  · intro target restored pickled buf rawLength n hinput hversion h
    exact (InboundGroupSession.eq_of_unpickle_version1 hinput hversion h).2

/-- A session whose ratchet has run to 7, over the block cipher that does nothing. -/
theorem groupSessions_survive_pickle_symbolic :
    (InboundGroupSession.mk (.init (fun _ => FixedBytes.zero _) 5)
      (.init (fun _ => FixedBytes.zero _) 7) (FixedBytes.zero _) true .SUCCESS).Survives
      GroupPrimitives.symbolic .new [1, 2, 3] (List.replicate 448 0) :=
  (groupSessions_survive_pickle Aes256.identity_inverts [1, 2, 3]).2.1 _ .new _ (by
    rw [List.length_replicate]
    decide)

end Olm
