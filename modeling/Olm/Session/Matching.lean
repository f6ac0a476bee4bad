import Olm.Session.Handshake
import Olm.Session.Pickle

/-!
# Which session a pre-key message is for

`matches_inbound_session` reads a message again and compares its identity,
base and one-time key with those of the session. `new_inbound_session`
derives the session from these and from the prekey, and wants a ratchet key
in the message inside. The matcher was not taught about the prekey, so a
message with another one is routed to a session that it would not have set
up.
-/

namespace Olm.Session

variable {K : Type} {prims : Primitives K}

/-! ## The answer -/

/-- A session that a message names the keys of, those that the matcher
compares. -/
structure Matches (session : Session K) (theirIdentityKey : Option Curve25519PublicKey)
    (message : Bytes) (reader : PreKeyMessageReader) : Prop where
  decoded : decodeOneTimeKeyMessage message 0 message.length = .ok reader
  checked : checkMessageFields reader theirIdentityKey.isSome = true
  identityKey : reader.identityKey.value.isSome = true →
    loadKey message reader.identityKey = .ok session.aliceIdentityKey
  expected : ∀ key ∈ theirIdentityKey, key = session.aliceIdentityKey
  baseKey : loadKey message reader.baseKey = .ok session.aliceBaseKey
  oneTimeKey : loadKey message reader.oneTimeKey = .ok session.bobOneTimeKey

theorem fieldIsKey_eq_ok {buf : Bytes} {field : StringField} {key : Curve25519PublicKey}
    {same : Bool} (h : fieldIsKey buf field key = .ok same) :
    same = true ↔ loadKey buf field = .ok key := by
  obtain ⟨bytes, hbytes, h⟩ := Checked.bind_eq_ok.mp h
  simp only [Except.ok.injEq] at h
  rw [← h, decide_eq_true_eq, hbytes, Except.ok.injEq]

theorem fieldIsKey_of_loadKey {buf : Bytes} {field : StringField} {key : Curve25519PublicKey}
    (h : loadKey buf field = .ok key) : fieldIsKey buf field key = .ok true := by
  rw [fieldIsKey, h, Checked.ok_bind, decide_eq_true rfl]

variable {session session' : Session K} {localAccount : Account}
  {theirIdentityKey : Option Curve25519PublicKey} {message : Bytes}

/-- The comparisons, one after another. -/
theorem matchesInboundSession_of_checked {reader : PreKeyMessageReader}
    (hreader : decodeOneTimeKeyMessage message 0 message.length = .ok reader)
    (hchecked : checkMessageFields reader theirIdentityKey.isSome = true) :
    session.matchesInboundSession theirIdentityKey message =
      ((if reader.identityKey.value.isSome then
          fieldIsKey message reader.identityKey session.aliceIdentityKey else .ok true) >>=
        fun same₁ => (if same₁ && theirIdentityKey.all (fun key => key = session.aliceIdentityKey)
          then fieldIsKey message reader.baseKey session.aliceBaseKey else .ok false) >>=
        fun same₂ => if same₂ then fieldIsKey message reader.oneTimeKey session.bobOneTimeKey
          else .ok false) := by
  rw [matchesInboundSession, hreader, Checked.ok_bind]
  dsimp only
  rw [hchecked, Bool.not_true, if_neg Bool.false_ne_true]
  split
  · refine congrArg _ (funext fun same₁ => ?_)
    split <;> rfl
  · refine congrArg _ (funext fun same₁ => ?_)
    split <;> rfl

/-- **When the matcher says yes.** -/
theorem matchesInboundSession_iff :
    session.matchesInboundSession theirIdentityKey message = .ok true ↔
      ∃ reader, session.Matches theirIdentityKey message reader := by
  constructor
  · intro h
    obtain ⟨reader, hreader, -⟩ := Checked.bind_eq_ok.mp h
    cases hchecked : checkMessageFields reader theirIdentityKey.isSome with
    | false => simp [matchesInboundSession, hreader, hchecked] at h
    | true =>
      rw [matchesInboundSession_of_checked hreader hchecked] at h
      obtain ⟨same₁, h₁, h⟩ := Checked.bind_eq_ok.mp h
      obtain ⟨same₂, h₂, h₃⟩ := Checked.bind_eq_ok.mp h
      cases same₂ with
      | false => simp at h₃
      | true =>
        split at h₂
        · rename_i hsame
          rw [Bool.and_eq_true, Option.all_eq_true] at hsame
          obtain ⟨rfl, hexpected⟩ := hsame
          refine ⟨reader, hreader, hchecked, ?_, ?_, (fieldIsKey_eq_ok h₂).mp rfl,
            (fieldIsKey_eq_ok h₃).mp rfl⟩
          · intro hsome
            rw [if_pos hsome] at h₁
            exact (fieldIsKey_eq_ok h₁).mp rfl
          · intro key hkey
            exact of_decide_eq_true (hexpected key hkey)
        · simp at h₂
  · rintro ⟨reader, h⟩
    have hexpected : theirIdentityKey.all (fun key => key = session.aliceIdentityKey) = true := by
      rw [Option.all_eq_true]
      intro key hkey
      exact decide_eq_true (h.expected key hkey)
    have hidentity : (if reader.identityKey.value.isSome then
        fieldIsKey message reader.identityKey session.aliceIdentityKey else .ok true) =
          .ok true := by
      split
      · rename_i hsome
        exact fieldIsKey_of_loadKey (h.identityKey hsome)
      · rfl
    rw [matchesInboundSession_of_checked h.decoded h.checked, hidentity, Checked.ok_bind,
      hexpected, Bool.and_self, if_pos rfl, fieldIsKey_of_loadKey h.baseKey, Checked.ok_bind,
      if_pos rfl, fieldIsKey_of_loadKey h.oneTimeKey]

/-! ## Calls between the set-up and the question -/

/-- The session is another one after some of its messages. -/
inductive Later (prims : Primitives K) (session : Session K) : Session K → Prop
  | refl : Later prims session session
  | call {before after : Session K} {request : Call} {reply : Except OlmErrorCode Reply} :
      Later prims session before → before.call prims request = .ok (after, reply) →
      Later prims session after

/-- The four keys of the set-up are the same. -/
structure KeepsKeys (session session' : Session K) : Prop where
  aliceIdentityKey : session'.aliceIdentityKey = session.aliceIdentityKey
  aliceBaseKey : session'.aliceBaseKey = session.aliceBaseKey
  bobOneTimeKey : session'.bobOneTimeKey = session.bobOneTimeKey
  bobPrekey : session'.bobPrekey = session.bobPrekey

theorem KeepsKeys.refl (session : Session K) : KeepsKeys session session := ⟨rfl, rfl, rfl, rfl⟩

theorem KeepsKeys.symm (h : KeepsKeys session session') : KeepsKeys session' session :=
  ⟨h.aliceIdentityKey.symm, h.aliceBaseKey.symm, h.bobOneTimeKey.symm, h.bobPrekey.symm⟩

theorem KeepsKeys.trans {session'' : Session K} (h : KeepsKeys session session')
    (h' : KeepsKeys session' session'') : KeepsKeys session session'' :=
  ⟨h'.aliceIdentityKey.trans h.aliceIdentityKey, h'.aliceBaseKey.trans h.aliceBaseKey,
    h'.bobOneTimeKey.trans h.bobOneTimeKey, h'.bobPrekey.trans h.bobPrekey⟩

theorem keepsKeys_of_encrypt {plaintext random message : Bytes} {result : Option (Bytes × ℕ)}
    (h : session.encrypt prims plaintext random message = .ok (session', result)) :
    KeepsKeys session session' := by
  rcases encrypt_outcome h with ⟨-, rfl⟩ | ⟨_, _, _, ratchet, -, -, hnone, hsome⟩
  · exact ⟨rfl, rfl, rfl, rfl⟩
  · cases result with
    | none =>
      rw [hnone rfl]
      exact ⟨rfl, rfl, rfl, rfl⟩
    | some written =>
      rw [hsome rfl]
      exact ⟨rfl, rfl, rfl, rfl⟩

theorem keepsKeys_of_decryptMaxPlaintextLength {messageType : MessageType} {message : Bytes}
    {result : Option ℕ}
    (h : session.decryptMaxPlaintextLength prims messageType message = .ok (session', result)) :
    KeepsKeys session session' := by
  rcases decryptMaxPlaintextLength_outcome h with ⟨-, rfl⟩ | ⟨-, rfl⟩ | ⟨-, rfl⟩
  · exact ⟨rfl, rfl, rfl, rfl⟩
  · exact ⟨rfl, rfl, rfl, rfl⟩
  · exact .refl _

theorem keepsKeys_of_decrypt {messageType : MessageType} {message : Bytes}
    {maxPlaintextLength : ℕ} {isSequential : Bool} {result : Option Bytes}
    (h : session.decrypt prims messageType message maxPlaintextLength isSequential =
      .ok (session', result)) : KeepsKeys session session' := by
  rcases decrypt_outcome h with ⟨-, -, rfl⟩ | ⟨_, _, ratchet, -, -, hnone, hsome⟩
  · exact ⟨rfl, rfl, rfl, rfl⟩
  · cases result with
    | none =>
      rw [hnone rfl]
      exact ⟨rfl, rfl, rfl, rfl⟩
    | some plaintext =>
      rw [hsome rfl]
      exact ⟨rfl, rfl, rfl, rfl⟩

theorem keepsKeys_of_call {request : Call} {reply : Except OlmErrorCode Reply}
    (h : session.call prims request = .ok (session', reply)) : KeepsKeys session session' := by
  cases request with
  | encrypt =>
    obtain ⟨result, h⟩ := report_eq_ok h
    exact keepsKeys_of_encrypt h
  | decryptMaxPlaintextLength =>
    obtain ⟨result, h⟩ := report_eq_ok h
    exact keepsKeys_of_decryptMaxPlaintextLength h
  | decrypt =>
    obtain ⟨result, h⟩ := report_eq_ok h
    exact keepsKeys_of_decrypt h

/-- **The keys of the set-up stay**, whatever messages follow. -/
theorem Later.keepsKeys (h : Later prims session session') : KeepsKeys session session' := by
  induction h with
  | refl => exact .refl session
  | call _ hcall ih => exact ih.trans (keepsKeys_of_call hcall)

/-- So the answers are the same. -/
theorem Matches.congr {reader : PreKeyMessageReader}
    (h : session.Matches theirIdentityKey message reader) (hkeys : KeepsKeys session session') :
    session'.Matches theirIdentityKey message reader where
  decoded := h.decoded
  checked := h.checked
  identityKey := by rw [hkeys.aliceIdentityKey]; exact h.identityKey
  expected := by rw [hkeys.aliceIdentityKey]; exact h.expected
  baseKey := by rw [hkeys.aliceBaseKey]; exact h.baseKey
  oneTimeKey := by rw [hkeys.bobOneTimeKey]; exact h.oneTimeKey

/-! ## Setting up again -/

/-- The message names all that a session is set up from: its identity key
and the prekey of this session, and a ratchet key in the message inside. -/
def NamesRest (macLength : ℕ) (session : Session K) (message : Bytes) : Prop :=
  ∃ reader messageReader, decodeOneTimeKeyMessage message 0 message.length = .ok reader ∧
    reader.identityKey.value.isSome = true ∧
    loadKey message reader.prekey = .ok session.bobPrekey ∧
    embeddedMessage macLength message reader = .ok messageReader ∧ messageReader.ratchetKey.IsKey

/-- A new session that is set up from the message has the keys of this one:
the four keys, the root key and the key of the chain it starts with. -/
def SetsUpAgain (prims : Primitives K) (zeroKey : K) (session : Session K) (localAccount : Account)
    (theirIdentityKey : Option Curve25519PublicKey) (message : Bytes) : Prop :=
  ∃ again, (Session.new zeroKey).newInboundSession prims localAccount theirIdentityKey message =
      .ok (again, some ()) ∧
    KeepsKeys session again ∧ inboundKeys again = inboundKeys session

/-- A message that names all of it is read. -/
theorem Matches.exists_reading {reader : PreKeyMessageReader}
    (h : session.Matches theirIdentityKey message reader)
    (hrest : NamesRest prims.cipher.macLength session message) :
    ∃ reading : Reading prims.cipher.macLength theirIdentityKey message,
      reading.aliceIdentityKey = session.aliceIdentityKey ∧
      reading.aliceBaseKey = session.aliceBaseKey ∧
      reading.bobOneTimeKey = session.bobOneTimeKey ∧
      reading.bobPrekey = session.bobPrekey := by
  obtain ⟨reader', messageReader, hreader, hidentity, hprekey, hmessage, hratchet⟩ := hrest
  obtain rfl : reader = reader' := Except.ok.inj (h.decoded.symm.trans hreader)
  obtain ⟨reader', hreader', hbounds⟩ :=
    decodeOneTimeKeyMessage_bounds (le_of_eq (Nat.zero_add message.length))
  obtain rfl : reader = reader' := Except.ok.inj (hreader.symm.trans hreader')
  rw [Nat.zero_add] at hbounds
  obtain ⟨hkey, hsome, -, -⟩ := checkMessageFields_iff.mp h.checked
  have hisKey : reader.identityKey.IsKey := hkey.resolve_right fun habsent => by
    rw [habsent.1] at hidentity
    cases hidentity
  obtain ⟨key, hload, hdiffers⟩ :=
    identityKeyDiffers_of_holdsKey hbounds.identityKey hisKey.holdsKey theirIdentityKey
  have hkeyEq : key = session.aliceIdentityKey :=
    Except.ok.inj (hload.symm.trans (h.identityKey hidentity))
  obtain ⟨messageReader', hmessage', hinner⟩ :=
    embeddedMessage_bounds prims.cipher.macLength hbounds hsome
  obtain rfl : messageReader = messageReader' := Except.ok.inj (hmessage.symm.trans hmessage')
  obtain ⟨ratchetKey, hratchetKey⟩ := loadKey_of_holdsKey hinner.ratchetKey hratchet.holdsKey
  obtain ⟨body, hbody, hdecoded⟩ := Checked.bind_eq_ok.mp hmessage
  refine ⟨{
    reader := reader, body := body, messageReader := messageReader
    aliceIdentityKey := session.aliceIdentityKey, aliceBaseKey := session.aliceBaseKey
    bobOneTimeKey := session.bobOneTimeKey, bobPrekey := session.bobPrekey
    ratchetKey := ratchetKey, decoded := hreader, checked := h.checked, same := ?_
    identityKey_read := h.identityKey hidentity, baseKey_read := h.baseKey
    oneTimeKey_read := h.oneTimeKey, prekey_read := hprekey
    body_eq := hbody, body_decoded := hdecoded
    ratchetKey_some := hratchet.1, ratchetKey_length := hratchet.2
    ratchetKey_read := hratchetKey }, rfl, rfl, rfl, rfl⟩
  -- the identity key in the message is the expected one
  rw [hdiffers, Except.ok.injEq, Option.any_eq_false]
  intro theirs htheirs
  rw [hkeyEq, h.expected theirs htheirs]
  simp

/-- **When a message that matches sets the same session up.** -/
theorem Matches.setsUpAgain_iff {zeroKey : K} {expected : Option Curve25519PublicKey}
    {message' : Bytes} {reader : PreKeyMessageReader}
    (hset : (Session.new zeroKey).newInboundSession prims localAccount expected message =
      .ok (session, some ()))
    (h : session.Matches theirIdentityKey message' reader) :
    SetsUpAgain prims zeroKey session localAccount theirIdentityKey message' ↔
      NamesRest prims.cipher.macLength session message' := by
  constructor
  · rintro ⟨again, hagain, hkeys, -⟩
    obtain ⟨reading, hreading⟩ := newInboundSession_eq_some hagain
    obtain ⟨_, _, -, -, rfl⟩ := newInboundSessionFromKeys_eq_some hreading
    obtain ⟨pos, hpos, -⟩ := Checked.bind_eq_ok.mp reading.identityKey_read
    refine ⟨reading.reader, reading.messageReader, reading.decoded, ?_, ?_, ?_,
      reading.ratchetKey_some, reading.ratchetKey_length⟩
    · cases hvalue : reading.reader.identityKey.value with
      | none => simp [hvalue, nonNull] at hpos
      | some pos => rfl
    · rw [reading.prekey_read, ← hkeys.bobPrekey]
      rfl
    · rw [embeddedMessage, reading.body_eq, Checked.ok_bind, reading.body_decoded]
  · intro hrest
    obtain ⟨reading', hidentity, hbase, hone, hprekey⟩ := h.exists_reading hrest
    obtain ⟨reading, hreading⟩ := newInboundSession_eq_some hset
    obtain ⟨ourPrekey, oneTimeKey, hfoundPrekey, hfoundKey, hsession⟩ :=
      newInboundSessionFromKeys_eq_some hreading
    -- the keys that are looked up are those of the first set-up
    have hstore : reading'.store (Session.new zeroKey) = reading.store (Session.new zeroKey) := by
      subst hsession
      simp only [Reading.store, hidentity, hbase, hone, hprekey]
    have hagain := @Reading.newInboundSession_eq _ prims _ _ reading' (Session.new zeroKey)
      localAccount
    rw [hstore, newInboundSessionFromKeys_of_found reading'.ratchetKey hfoundPrekey hfoundKey]
      at hagain
    refine ⟨_, hagain, ?_, ?_⟩
    · rw [hsession]
      exact ⟨rfl, rfl, rfl, rfl⟩
    · rw [hsession]
      rfl

/-! ## The messages that it should say yes to -/

/-- The message that a session was set up from. -/
theorem matches_of_newInboundSession {session₀ : Session K}
    {expected : Option Curve25519PublicKey}
    (hset : session₀.newInboundSession prims localAccount expected message =
      .ok (session, some ()))
    (htheirs : ∀ theirs ∈ theirIdentityKey, theirs = session.aliceIdentityKey) :
    ∃ reader, session.Matches theirIdentityKey message reader := by
  obtain ⟨reading, hreading⟩ := newInboundSession_eq_some hset
  obtain ⟨_, _, -, -, rfl⟩ := newInboundSessionFromKeys_eq_some hreading
  have hchecked := checkMessageFields_iff.mp reading.checked
  have hkey : reading.reader.identityKey.IsKey := hchecked.1.resolve_right fun habsent => by
    have hread := reading.identityKey_read
    rw [loadKey_of_absent habsent.1] at hread
    cases hread
  exact ⟨reading.reader, reading.decoded, checkMessageFields_iff.mpr ⟨.inl hkey, hchecked.2⟩,
    fun _ => reading.identityKey_read, htheirs, reading.baseKey_read, reading.oneTimeKey_read⟩

/-- A message with the keys of the session in its header. -/
theorem matches_of_header {sender : Session K} {body : Bytes}
    (hreceived : sender.receivedMessage = false) (hbody : body.length < 2 ^ SIZE_WIDTH)
    (hkeys : KeepsKeys sender session)
    (htheirs : ∀ theirs ∈ theirIdentityKey, theirs = session.aliceIdentityKey) :
    ∃ reader, session.Matches theirIdentityKey (sender.header body.length ++ body) reader := by
  obtain ⟨reader, hreader, -, hone, hbase, hidentity, hmessage⟩ :=
    exists_reader_of_header hreceived hbody
  refine ⟨reader, hreader, ?_, ?_, htheirs, ?_, ?_⟩
  · rw [checkMessageFields_iff, hmessage]
    exact ⟨.inl (loadKey_of_reads hidentity).1, rfl, (loadKey_of_reads hbase).1,
      (loadKey_of_reads hone).1⟩
  · intro _
    rw [(loadKey_of_reads hidentity).2, hkeys.aliceIdentityKey]
  · rw [(loadKey_of_reads hbase).2, hkeys.aliceBaseKey]
  · rw [(loadKey_of_reads hone).2, hkeys.bobOneTimeKey]

/-- A pre-key message that a session gives out. -/
def EmitsPreKey (prims : Primitives K) (session : Session K) (bytes : Bytes) : Prop :=
  session.encryptMessageType = .PRE_KEY ∧
  ∃ plaintext random message session' buf length, message.length < 2 ^ SIZE_WIDTH ∧
    session.encrypt prims plaintext random message = .ok (session', some (buf, length)) ∧
    bytes = buf.take (session.encryptMessageLength prims plaintext.length)

/-- It has the keys of the session in its header. -/
theorem EmitsPreKey.header_eq {bytes : Bytes} (hlawful : prims.cipher.Lawful)
    (h : EmitsPreKey prims session bytes) :
    session.receivedMessage = false ∧
      ∃ body : Bytes, body.length < 2 ^ SIZE_WIDTH ∧ bytes = session.header body.length ++ body := by
  obtain ⟨htype, plaintext, random, message, session', buf, length, hsize, hrun, rfl⟩ := h
  obtain ⟨given, output, ratchet, body, hgives, -, -, -, -, htake, -⟩ :=
    encrypt_eq_some hlawful.leaves hsize hrun
  refine ⟨?_, body, ?_, htake⟩
  · unfold encryptMessageType at htype
    cases hreceived : session.receivedMessage with
    | false => rfl
    | true => simp [hreceived] at htype
  · have hroom := hgives.room
    have hlength := hgives.length
    omega

/-- **All pre-key messages of a session are for the same session.** -/
theorem matches_of_emits {sender before after session₀ : Session K} {bytes : Bytes}
    {expected : Option Curve25519PublicKey} (hlawful : prims.cipher.Lawful)
    (hset : session₀.newInboundSession prims localAccount expected message =
      .ok (session, some ()))
    (hbefore : Later prims sender before) (hmessage : EmitsPreKey prims before message)
    (hafter : Later prims sender after) (hbytes : EmitsPreKey prims after bytes)
    (htheirs : ∀ theirs ∈ theirIdentityKey, theirs = session.aliceIdentityKey) :
    ∃ reader, session.Matches theirIdentityKey bytes reader := by
  obtain ⟨hreceived, body, hbody, rfl⟩ := hmessage.header_eq hlawful
  obtain ⟨hreceived', body', hbody', rfl⟩ := hbytes.header_eq hlawful
  refine matches_of_header hreceived' hbody' ?_ htheirs
  -- the session holds the keys that its own message names, which are the sender's
  obtain ⟨reader, hreader, hprekey, hone, hbase, hidentity, -⟩ :=
    exists_reader_of_header hreceived hbody
  obtain ⟨reading, hreading⟩ := newInboundSession_eq_some hset
  obtain ⟨_, _, -, -, rfl⟩ := newInboundSessionFromKeys_eq_some hreading
  obtain rfl : reader = reading.reader := Except.ok.inj (hreader.symm.trans reading.decoded)
  have hkeys : KeepsKeys before (reading.store session₀) :=
    ⟨Except.ok.inj (reading.identityKey_read.symm.trans (loadKey_of_reads hidentity).2),
      Except.ok.inj (reading.baseKey_read.symm.trans (loadKey_of_reads hbase).2),
      Except.ok.inj (reading.oneTimeKey_read.symm.trans (loadKey_of_reads hone).2),
      Except.ok.inj (reading.prekey_read.symm.trans (loadKey_of_reads hprekey).2)⟩
  have hsame := (hafter.keepsKeys.symm.trans hbefore.keepsKeys).trans hkeys
  exact ⟨hsame.aliceIdentityKey, hsame.aliceBaseKey, hsame.bobOneTimeKey, hsame.bobPrekey⟩

/-! ## The matcher and the set-up -/

/-- **What the answer is worth.** A message that the matcher says yes to sets
the session up again exactly when it names what the matcher does not
compare. The message of the set-up gets a yes, and with it all pre-key
messages of its sender. -/
theorem matchesInboundSession_law {zeroKey : K} {expected : Option Curve25519PublicKey}
    {later : Session K} (hlawful : prims.cipher.Lawful)
    (hset : (Session.new zeroKey).newInboundSession prims localAccount expected message =
      .ok (session, some ()))
    (hlater : Later prims session later) :
    (∀ (theirIdentityKey : Option Curve25519PublicKey) (message' : Bytes),
      later.matchesInboundSession theirIdentityKey message' = .ok true →
      (SetsUpAgain prims zeroKey session localAccount theirIdentityKey message' ↔
        NamesRest prims.cipher.macLength session message')) ∧
    ∀ theirIdentityKey : Option Curve25519PublicKey,
      (∀ theirs ∈ theirIdentityKey, theirs = session.aliceIdentityKey) →
      later.matchesInboundSession theirIdentityKey message = .ok true ∧
      ∀ sender before after bytes, Later prims sender before → EmitsPreKey prims before message →
        Later prims sender after → EmitsPreKey prims after bytes →
        later.matchesInboundSession theirIdentityKey bytes = .ok true := by
  have hkeys := hlater.keepsKeys
  constructor
  · intro theirIdentityKey message' hmatches
    obtain ⟨reader, hmatches⟩ := matchesInboundSession_iff.mp hmatches
    exact (hmatches.congr hkeys.symm).setsUpAgain_iff hset
  · intro theirIdentityKey htheirs
    constructor
    · obtain ⟨reader, hmatches⟩ := matches_of_newInboundSession hset htheirs
      exact matchesInboundSession_iff.mpr ⟨reader, hmatches.congr hkeys⟩
    · intro sender before after bytes hbefore hmessage hafter hbytes
      obtain ⟨reader, hmatches⟩ :=
        matches_of_emits hlawful hset hbefore hmessage hafter hbytes htheirs
      exact matchesInboundSession_iff.mpr ⟨reader, hmatches.congr hkeys⟩

/-! ### A message with another prekey -/

/-- The message of all zeros, but for a prekey that the account does not
have. -/
def otherPrekeyMessage : Bytes :=
  preKeyMessageOf 3 [(PREKEY_ID_TAG, .nines), (ONE_TIME_KEY_ID_TAG, FixedBytes.zero _),
    (BASE_KEY_TAG, FixedBytes.zero _), (IDENTITY_KEY_TAG, FixedBytes.zero _)]

/-- The session of the message of all zeros. -/
def zeroSession : Session SymbolicKey :=
  match (Session.new SymbolicKey.zero).newInboundSession .symbolic Account.sevens none
      zeroPreKeyMessage with
  | .ok (session, _) => session
  | .error _ => Session.new .zero

theorem newInboundSession_zeroSession :
    (Session.new SymbolicKey.zero).newInboundSession .symbolic Account.sevens none
      zeroPreKeyMessage = .ok (zeroSession, some ()) := by decide +kernel

/-- It matches, and sets nothing up. -/
theorem not_setsUpAgain :
    (Session.new SymbolicKey.zero).newInboundSession .symbolic Account.sevens none
      zeroPreKeyMessage = .ok (zeroSession, some ()) ∧
    zeroSession.matchesInboundSession none otherPrekeyMessage = .ok true ∧
    ¬ SetsUpAgain .symbolic SymbolicKey.zero zeroSession Account.sevens none otherPrekeyMessage := by
  have hfails : (Session.new SymbolicKey.zero).newInboundSession .symbolic Account.sevens
      none otherPrekeyMessage = .ok ({ Session.new SymbolicKey.zero with
        lastError := .BAD_MESSAGE_KEY_ID, bobPrekey := .nines }, none) := by decide +kernel
  refine ⟨newInboundSession_zeroSession, by decide +kernel, ?_⟩
  rintro ⟨again, hagain, -⟩
  rw [hfails, Except.ok.injEq, Prod.mk.injEq] at hagain
  exact nomatch hagain.2

/-- The two messages by the law: the one gets a yes, and what the other
names is not all. -/
theorem matchesInboundSession_law_symbolic :
    zeroSession.matchesInboundSession none zeroPreKeyMessage = .ok true ∧
    (SetsUpAgain .symbolic SymbolicKey.zero zeroSession Account.sevens none zeroPreKeyMessage ↔
      NamesRest Primitives.symbolic.cipher.macLength zeroSession zeroPreKeyMessage) :=
  have hlaw := matchesInboundSession_law Cipher.symbolic_lawful newInboundSession_zeroSession .refl
  ⟨(hlaw.2 none (fun _ h => nomatch h)).1,
    hlaw.1 none zeroPreKeyMessage (hlaw.2 none (fun _ h => nomatch h)).1⟩

end Olm.Session
