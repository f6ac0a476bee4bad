import Olm.Account.Prekeys
import Olm.Message.Bounds
import Olm.Session.Setup

/-!
# What an inbound session accepts

`check_message_fields` looks at four of the five fields of a pre-key
message, and at neither version. `new_inbound_session` then copies a key
out of all five, the one that was not looked at too, and out of an identity
key that may be absent where one was expected. This module says which
messages are well formed, and for which ones the set-up reads nothing it
should not and refuses what is not well formed.
-/

namespace Olm

/-- A field that holds a key. -/
def StringField.IsKey (field : StringField) : Prop :=
  field.value.isSome = true ∧ field.length = CURVE25519_KEY_LENGTH

/-- A field that a key can be copied out of. -/
def StringField.HoldsKey (field : StringField) : Prop :=
  field.value.isSome = true ∧ CURVE25519_KEY_LENGTH ≤ field.length

instance (field : StringField) : Decidable field.IsKey := inferInstanceAs (Decidable (_ ∧ _))

instance (field : StringField) : Decidable field.HoldsKey := inferInstanceAs (Decidable (_ ∧ _))

theorem StringField.IsKey.holdsKey {field : StringField} (h : field.IsKey) : field.HoldsKey :=
  ⟨h.1, le_of_eq h.2.symm⟩

namespace Session

variable {K : Type} {prims : Primitives K}

/-- The message inside a pre-key message. -/
def embeddedMessage (macLength : ℕ) (message : Bytes) (reader : PreKeyMessageReader) :
    Checked MessageReader := do
  decodeMessage message (← nonNull reader.message.value) reader.message.length macLength

/-- **A well-formed pre-key message**: version 3 outside and inside, the
five keys of 32 bytes. The identity key may be absent where one is
expected. -/
def WellFormed (macLength : ℕ) (theirIdentityKey : Option Curve25519PublicKey) (message : Bytes) :
    Prop :=
  ∃ reader messageReader,
    decodeOneTimeKeyMessage message 0 message.length = .ok reader ∧
    reader.version = PROTOCOL_VERSION ∧
    reader.baseKey.IsKey ∧ reader.oneTimeKey.IsKey ∧ reader.prekey.IsKey ∧
    (reader.identityKey.IsKey ∨
      reader.identityKey.value = none ∧ theirIdentityKey.isSome = true) ∧
    embeddedMessage macLength message reader = .ok messageReader ∧
    messageReader.version = PROTOCOL_VERSION ∧ messageReader.ratchetKey.IsKey

/-! ## Reading a key -/

section Reads

variable {buf : Bytes} {field : StringField} {start : ℕ}

theorem loadKey_of_holdsKey (hbounds : field.InBounds start buf.length) (h : field.HoldsKey) :
    ∃ key, loadKey buf field = .ok key := by
  obtain ⟨pos, hpos⟩ := Option.isSome_iff_exists.mp h.1
  have hfit := hbounds pos hpos
  obtain ⟨key, hkey, -⟩ := loadArray_of_le
    (by have := h.2; omega : pos + CURVE25519_KEY_LENGTH ≤ buf.length)
  refine ⟨key, ?_⟩
  rw [loadKey, hpos, nonNull, Checked.ok_bind, hkey]

theorem loadKey_of_absent (h : field.value = none) : loadKey buf field = .error .nullRead := by
  rw [loadKey, h, nonNull, Checked.error_bind]

theorem identityKeyDiffers_of_absent (h : field.value = none)
    (theirIdentityKey : Option Curve25519PublicKey) :
    identityKeyDiffers buf field theirIdentityKey = .ok false := by
  simp [identityKeyDiffers, h]

theorem identityKeyDiffers_of_holdsKey (hbounds : field.InBounds start buf.length)
    (h : field.HoldsKey) (theirIdentityKey : Option Curve25519PublicKey) :
    ∃ key, loadKey buf field = .ok key ∧
      identityKeyDiffers buf field theirIdentityKey =
        .ok (theirIdentityKey.any (fun theirs => theirs ≠ key)) := by
  obtain ⟨pos, hpos⟩ := Option.isSome_iff_exists.mp h.1
  obtain ⟨key, hkey⟩ := loadKey_of_holdsKey hbounds h
  have hload : loadArray CURVE25519_KEY_LENGTH buf pos = .ok key := by
    rw [← hkey, loadKey, hpos, nonNull, Checked.ok_bind]
  refine ⟨key, hkey, ?_⟩
  cases theirIdentityKey with
  | none => simp [identityKeyDiffers, hpos]
  | some theirs => simp [identityKeyDiffers, hpos, hload]

theorem fieldIsKey_of_holdsKey (hbounds : field.InBounds start buf.length) (h : field.HoldsKey)
    (key : Curve25519PublicKey) : ∃ same, fieldIsKey buf field key = .ok same := by
  obtain ⟨bytes, hbytes⟩ := loadKey_of_holdsKey hbounds h
  exact ⟨_, by rw [fieldIsKey, hbytes, Checked.ok_bind]⟩

end Reads

/-! ## The exits of the set-up -/

/-- What `check_message_fields` makes sure of. -/
theorem checkMessageFields_iff {reader : PreKeyMessageReader} {haveTheirIdentityKey : Bool} :
    checkMessageFields reader haveTheirIdentityKey = true ↔
      (reader.identityKey.IsKey ∨
        reader.identityKey.value = none ∧ haveTheirIdentityKey = true) ∧
      reader.message.value.isSome = true ∧ reader.baseKey.IsKey ∧ reader.oneTimeKey.IsKey := by
  unfold checkMessageFields StringField.IsKey
  cases reader.identityKey.value <;> cases haveTheirIdentityKey <;>
    simp [and_assoc]

section Exits

variable {session : Session K} {localAccount : Account}
  {theirIdentityKey : Option Curve25519PublicKey} {message : Bytes}
  {reader : PreKeyMessageReader}

theorem newInboundSession_of_not_checked
    (hreader : decodeOneTimeKeyMessage message 0 message.length = .ok reader)
    (hchecked : checkMessageFields reader theirIdentityKey.isSome = false) :
    session.newInboundSession prims localAccount theirIdentityKey message =
      session.fail .BAD_MESSAGE_FORMAT := by
  simp [newInboundSession, hreader, hchecked]

theorem newInboundSession_of_differs
    (hreader : decodeOneTimeKeyMessage message 0 message.length = .ok reader)
    (hchecked : checkMessageFields reader theirIdentityKey.isSome = true)
    (hdiffers : identityKeyDiffers message reader.identityKey theirIdentityKey = .ok true) :
    session.newInboundSession prims localAccount theirIdentityKey message =
      session.fail .BAD_MESSAGE_KEY_ID := by
  simp [newInboundSession, hreader, hchecked, hdiffers]

/-- An identity key that is absent is read all the same. -/
theorem newInboundSession_of_identityKey_absent
    (hreader : decodeOneTimeKeyMessage message 0 message.length = .ok reader)
    (hchecked : checkMessageFields reader theirIdentityKey.isSome = true)
    (habsent : reader.identityKey.value = none) :
    session.newInboundSession prims localAccount theirIdentityKey message = .error .nullRead := by
  simp [newInboundSession, hreader, hchecked, identityKeyDiffers_of_absent habsent,
    loadKey_of_absent habsent]

theorem newInboundSession_of_not_ratchetKey (session : Session K) (localAccount : Account)
    {messageReader : MessageReader}
    {identityKey baseKey oneTimeKey prekey : Curve25519PublicKey}
    (hreader : decodeOneTimeKeyMessage message 0 message.length = .ok reader)
    (hchecked : checkMessageFields reader theirIdentityKey.isSome = true)
    (hsame : identityKeyDiffers message reader.identityKey theirIdentityKey = .ok false)
    (hidentity : loadKey message reader.identityKey = .ok identityKey)
    (hbase : loadKey message reader.baseKey = .ok baseKey)
    (hone : loadKey message reader.oneTimeKey = .ok oneTimeKey)
    (hprekey : loadKey message reader.prekey = .ok prekey)
    (hmessage : embeddedMessage prims.cipher.macLength message reader = .ok messageReader)
    (hratchet : ¬ messageReader.ratchetKey.IsKey) :
    ∃ session', session.newInboundSession prims localAccount theirIdentityKey message =
      .ok (session', none) ∧ session'.lastError = .BAD_MESSAGE_FORMAT := by
  obtain ⟨body, hbody, hmessage⟩ := Checked.bind_eq_ok.mp hmessage
  have hnot : messageReader.ratchetKey.value = none ∨
      ¬ messageReader.ratchetKey.length = CURVE25519_KEY_LENGTH := by
    unfold StringField.IsKey at hratchet
    rw [Option.isSome_iff_ne_none] at hratchet
    tauto
  simp [newInboundSession, hreader, hchecked, hsame, hidentity, hbase, hone, hprekey, hbody,
    hmessage, hnot, fail]

/-- Looking the keys up always comes to an end, and a key that is not found
is the one error. -/
theorem newInboundSessionFromKeys_returns (prims : Primitives K) (session : Session K)
    (localAccount : Account) (ratchetKey : Curve25519PublicKey) :
    ∃ session' result,
      session.newInboundSessionFromKeys prims localAccount ratchetKey = .ok (session', result) ∧
      session'.aliceIdentityKey = session.aliceIdentityKey ∧
      (result = none → session'.lastError = .BAD_MESSAGE_KEY_ID) := by
  unfold newInboundSessionFromKeys
  dsimp only
  split
  · exact ⟨_, none, rfl, rfl, fun _ => rfl⟩
  · cases localAccount.lookupPrekey session.bobPrekey with
    | none => exact ⟨_, none, rfl, rfl, fun _ => rfl⟩
    | some ourPrekey => exact ⟨_, some (), rfl, rfl, fun h => nomatch h⟩

end Exits

/-! ## When the set-up is safe -/

/-- `new_inbound_session` goes on to copy the keys out of the message. -/
def CopiesKeys (theirIdentityKey : Option Curve25519PublicKey) (message : Bytes)
    (reader : PreKeyMessageReader) : Prop :=
  checkMessageFields reader theirIdentityKey.isSome = true ∧
    identityKeyDiffers message reader.identityKey theirIdentityKey = .ok false

/-- **What a set-up from any bytes should do**: return, so that nothing was
read through a null pointer or outside the message; copy keys only out of
fields that hold one; accept nothing but a well-formed message, with the
identity key that was expected; and name the version or the format when it
refuses another. -/
structure ChecksInbound (prims : Primitives K) (session : Session K) (localAccount : Account)
    (theirIdentityKey : Option Curve25519PublicKey) (message : Bytes) : Prop where
  returns : ∃ session' result,
    session.newInboundSession prims localAccount theirIdentityKey message =
      .ok (session', result) ∧
    (result.isSome = true → WellFormed prims.cipher.macLength theirIdentityKey message ∧
      ∀ key, theirIdentityKey = some key → session'.aliceIdentityKey = key) ∧
    (¬ WellFormed prims.cipher.macLength theirIdentityKey message → result = none ∧
      (session'.lastError = .BAD_MESSAGE_VERSION ∨ session'.lastError = .BAD_MESSAGE_FORMAT))
  copies : ∀ reader, decodeOneTimeKeyMessage message 0 message.length = .ok reader →
    CopiesKeys theirIdentityKey message reader →
    reader.identityKey.HoldsKey ∧ reader.baseKey.HoldsKey ∧ reader.oneTimeKey.HoldsKey ∧
      reader.prekey.HoldsKey
  matches_returns : ∃ same, session.matchesInboundSession theirIdentityKey message = .ok same

/-- What `check_message_fields` leaves open in a message it passes: the
identity key is there, and either both versions are 3 and the prekey and
the ratchet key inside are keys, or the set-up is refused for the ratchet
key after a prekey that can be copied. -/
def CoversRest (macLength : ℕ) (theirIdentityKey : Option Curve25519PublicKey) (message : Bytes) :
    Prop :=
  ∀ reader messageReader,
    decodeOneTimeKeyMessage message 0 message.length = .ok reader →
    checkMessageFields reader theirIdentityKey.isSome = true →
    embeddedMessage macLength message reader = .ok messageReader →
    reader.identityKey.value.isSome = true ∧
    ((reader.version = PROTOCOL_VERSION ∧ reader.prekey.IsKey ∧
        messageReader.version = PROTOCOL_VERSION ∧ messageReader.ratchetKey.IsKey) ∨
      (identityKeyDiffers message reader.identityKey theirIdentityKey = .ok false ∧
        reader.prekey.HoldsKey ∧ ¬ messageReader.ratchetKey.IsKey))

section Safe

variable {theirIdentityKey : Option Curve25519PublicKey} {message : Bytes} {macLength : ℕ}
  {reader : PreKeyMessageReader} {messageReader : MessageReader}

theorem wellFormed_iff
    (hreader : decodeOneTimeKeyMessage message 0 message.length = .ok reader)
    (hchecked : checkMessageFields reader theirIdentityKey.isSome = true)
    (hmessage : embeddedMessage macLength message reader = .ok messageReader) :
    WellFormed macLength theirIdentityKey message ↔
      reader.version = PROTOCOL_VERSION ∧ reader.prekey.IsKey ∧
        messageReader.version = PROTOCOL_VERSION ∧ messageReader.ratchetKey.IsKey := by
  obtain ⟨hidentity, -, hbase, hone⟩ := checkMessageFields_iff.mp hchecked
  constructor
  · rintro ⟨reader', messageReader', hreader', hversion, -, -, hprekey, -, hmessage', hinner,
      hratchet⟩
    obtain rfl : reader = reader' := Except.ok.inj (hreader.symm.trans hreader')
    obtain rfl : messageReader = messageReader' := Except.ok.inj (hmessage.symm.trans hmessage')
    exact ⟨hversion, hprekey, hinner, hratchet⟩
  · rintro ⟨hversion, hprekey, hinner, hratchet⟩
    exact ⟨reader, messageReader, hreader, hversion, hbase, hone, hprekey, hidentity, hmessage,
      hinner, hratchet⟩

/-- A well-formed message passes `check_message_fields`. -/
theorem WellFormed.checked (h : WellFormed macLength theirIdentityKey message)
    (hreader : decodeOneTimeKeyMessage message 0 message.length = .ok reader) :
    checkMessageFields reader theirIdentityKey.isSome = true := by
  obtain ⟨reader', messageReader, hreader', -, hbase, hone, -, hidentity, hmessage, -⟩ := h
  obtain rfl : reader = reader' := Except.ok.inj (hreader.symm.trans hreader')
  refine checkMessageFields_iff.mpr ⟨hidentity, ?_, hbase, hone⟩
  obtain ⟨body, hbody, -⟩ := Checked.bind_eq_ok.mp hmessage
  cases hvalue : reader.message.value with
  | none => simp [hvalue, nonNull] at hbody
  | some pos => rfl

theorem embeddedMessage_bounds (macLength : ℕ) (hbounds : reader.InBounds 0 message.length)
    (h : reader.message.value.isSome = true) :
    ∃ messageReader, embeddedMessage macLength message reader = .ok messageReader ∧
      messageReader.InBounds 0 message.length := by
  obtain ⟨pos, hpos⟩ := Option.isSome_iff_exists.mp h
  have hfit := (hbounds.message pos hpos).2
  obtain ⟨messageReader, hdecode, hinner, -, -⟩ := decodeMessage_bounds macLength hfit
  refine ⟨messageReader, by rw [embeddedMessage, hpos, nonNull, Checked.ok_bind, hdecode], ?_, ?_⟩
  · intro at_ hat
    have := hinner.ratchetKey at_ hat
    omega
  · intro at_ hat
    have := hinner.ciphertext at_ hat
    omega

/-- **`matches_inbound_session` always returns.** -/
theorem matchesInboundSession_returns (session : Session K)
    (theirIdentityKey : Option Curve25519PublicKey) (message : Bytes) :
    ∃ same, session.matchesInboundSession theirIdentityKey message = .ok same := by
  obtain ⟨reader, hreader, hbounds⟩ :=
    decodeOneTimeKeyMessage_bounds (le_of_eq (Nat.zero_add message.length))
  rw [Nat.zero_add] at hbounds
  simp only [matchesInboundSession, hreader, Checked.ok_bind]
  split
  · exact ⟨false, rfl⟩
  · rename_i hchecked
    obtain ⟨hidentity, -, hbase, hone⟩ := checkMessageFields_iff.mp (by simpa using hchecked)
    obtain ⟨same₂, h₂⟩ := fieldIsKey_of_holdsKey hbounds.baseKey hbase.holdsKey session.aliceBaseKey
    obtain ⟨same₃, h₃⟩ :=
      fieldIsKey_of_holdsKey hbounds.oneTimeKey hone.holdsKey session.bobOneTimeKey
    rcases hidentity with hkey | ⟨habsent, -⟩
    · obtain ⟨same₁, h₁⟩ :=
        fieldIsKey_of_holdsKey hbounds.identityKey hkey.holdsKey session.aliceIdentityKey
      simp only [hkey.1, if_true, h₁, h₂, h₃, Checked.ok_bind, Bool.false_eq_true, if_false]
      split
      · cases same₂ <;> exact ⟨_, rfl⟩
      · exact ⟨false, rfl⟩
    · simp only [habsent, Option.isSome_none, h₂, h₃, Checked.ok_bind, Bool.false_eq_true, if_false]
      split
      · cases same₂ <;> exact ⟨_, rfl⟩
      · exact ⟨false, rfl⟩

theorem coversRest_iff
    (hreader : decodeOneTimeKeyMessage message 0 message.length = .ok reader)
    (hchecked : checkMessageFields reader theirIdentityKey.isSome = true)
    (hmessage : embeddedMessage macLength message reader = .ok messageReader) :
    CoversRest macLength theirIdentityKey message ↔
      reader.identityKey.value.isSome = true ∧
      (WellFormed macLength theirIdentityKey message ∨
        (identityKeyDiffers message reader.identityKey theirIdentityKey = .ok false ∧
          reader.prekey.HoldsKey ∧ ¬ messageReader.ratchetKey.IsKey)) := by
  rw [wellFormed_iff hreader hchecked hmessage]
  constructor
  · intro h
    exact h reader messageReader hreader hchecked hmessage
  · intro h reader' messageReader' hreader' _ hmessage'
    obtain rfl : reader = reader' := Except.ok.inj (hreader.symm.trans hreader')
    obtain rfl : messageReader = messageReader' := Except.ok.inj (hmessage.symm.trans hmessage')
    exact h

end Safe

section Main

variable {session : Session K} {localAccount : Account}
  {theirIdentityKey : Option Curve25519PublicKey} {message : Bytes}
  {reader : PreKeyMessageReader} {messageReader : MessageReader}

/-- A message that `check_message_fields` refuses is refused for its format. -/
theorem checksInbound_of_not_checked
    (hreader : decodeOneTimeKeyMessage message 0 message.length = .ok reader)
    (hchecked : checkMessageFields reader theirIdentityKey.isSome = false) :
    ChecksInbound prims session localAccount theirIdentityKey message where
  returns := by
    refine ⟨_, none, newInboundSession_of_not_checked hreader hchecked, ?_, ?_⟩
    · intro h
      simp at h
    · intro _
      exact ⟨rfl, .inr rfl⟩
  copies := by
    rintro reader' hreader' ⟨hchecked', -⟩
    obtain rfl : reader = reader' := Except.ok.inj (hreader.symm.trans hreader')
    rw [hchecked] at hchecked'
    exact absurd hchecked' Bool.false_ne_true
  matches_returns := matchesInboundSession_returns session theirIdentityKey message

/-- Where another identity key was expected, the set-up is refused before
the rest of the message is looked at. -/
theorem checksInbound_iff_of_differs
    (hreader : decodeOneTimeKeyMessage message 0 message.length = .ok reader)
    (hchecked : checkMessageFields reader theirIdentityKey.isSome = true)
    (hdiffers : identityKeyDiffers message reader.identityKey theirIdentityKey = .ok true) :
    ChecksInbound prims session localAccount theirIdentityKey message ↔
      WellFormed prims.cipher.macLength theirIdentityKey message := by
  have hrun : session.newInboundSession prims localAccount theirIdentityKey message =
      session.fail .BAD_MESSAGE_KEY_ID := newInboundSession_of_differs hreader hchecked hdiffers
  constructor
  · intro h
    obtain ⟨session', result, hrun', -, hrefused⟩ := h.returns
    by_contra hnot
    obtain ⟨-, herror⟩ := hrefused hnot
    rw [hrun, fail, Except.ok.injEq, Prod.mk.injEq] at hrun'
    rw [← hrun'.1] at herror
    rcases herror with herror | herror <;> exact OlmErrorCode.noConfusion herror
  · intro hwell
    refine ⟨⟨_, none, hrun, fun h => absurd h Bool.false_ne_true, fun h => absurd hwell h⟩, ?_,
      matchesInboundSession_returns session theirIdentityKey message⟩
    rintro reader' hreader' ⟨-, hsame⟩
    obtain rfl : reader = reader' := Except.ok.inj (hreader.symm.trans hreader')
    rw [hdiffers, Except.ok.injEq] at hsame
    cases hsame

/-- Past that, the keys are copied, and what happens next is up to the
ratchet key inside the message and to the account. -/
theorem checksInbound_iff_of_same
    (hreader : decodeOneTimeKeyMessage message 0 message.length = .ok reader)
    (hbounds : reader.InBounds 0 message.length)
    (hchecked : checkMessageFields reader theirIdentityKey.isSome = true)
    (hidentity : reader.identityKey.IsKey)
    (hsame : identityKeyDiffers message reader.identityKey theirIdentityKey = .ok false)
    (hmessage : embeddedMessage prims.cipher.macLength message reader = .ok messageReader)
    (hinner : messageReader.InBounds 0 message.length) :
    ChecksInbound prims session localAccount theirIdentityKey message ↔
      WellFormed prims.cipher.macLength theirIdentityKey message ∨
        (reader.prekey.HoldsKey ∧ ¬ messageReader.ratchetKey.IsKey) := by
  obtain ⟨-, -, hbase, hone⟩ := checkMessageFields_iff.mp hchecked
  have hwell := wellFormed_iff hreader hchecked hmessage
  have hmatches := matchesInboundSession_returns session theirIdentityKey message
  obtain ⟨identityKey, hidentityRead, hdiffers⟩ :=
    identityKeyDiffers_of_holdsKey hbounds.identityKey hidentity.holdsKey theirIdentityKey
  obtain ⟨baseKey, hbaseRead⟩ := loadKey_of_holdsKey hbounds.baseKey hbase.holdsKey
  obtain ⟨oneTimeKey, honeRead⟩ := loadKey_of_holdsKey hbounds.oneTimeKey hone.holdsKey
  by_cases hprekey : reader.prekey.HoldsKey
  · have hcopies : ∀ reader', decodeOneTimeKeyMessage message 0 message.length = .ok reader' →
        CopiesKeys theirIdentityKey message reader' →
        reader'.identityKey.HoldsKey ∧ reader'.baseKey.HoldsKey ∧ reader'.oneTimeKey.HoldsKey ∧
          reader'.prekey.HoldsKey := by
      intro reader' hreader' _
      obtain rfl : reader = reader' := Except.ok.inj (hreader.symm.trans hreader')
      exact ⟨hidentity.holdsKey, hbase.holdsKey, hone.holdsKey, hprekey⟩
    obtain ⟨prekey, hprekeyRead⟩ := loadKey_of_holdsKey hbounds.prekey hprekey
    by_cases hratchet : messageReader.ratchetKey.IsKey
    · -- all keys are there: the account decides, and its one error is `BAD_MESSAGE_KEY_ID`
      obtain ⟨body, hbody, hdecode⟩ := Checked.bind_eq_ok.mp hmessage
      obtain ⟨ratchetKey, hratchetRead⟩ :=
        loadKey_of_holdsKey hinner.ratchetKey hratchet.holdsKey
      let reading : Reading prims.cipher.macLength theirIdentityKey message :=
        { reader := reader, body := body, messageReader := messageReader
          aliceIdentityKey := identityKey, aliceBaseKey := baseKey, bobOneTimeKey := oneTimeKey
          bobPrekey := prekey, ratchetKey := ratchetKey, decoded := hreader
          checked := hchecked, same := hsame, identityKey_read := hidentityRead
          baseKey_read := hbaseRead, oneTimeKey_read := honeRead, prekey_read := hprekeyRead
          body_eq := hbody, body_decoded := hdecode, ratchetKey_some := hratchet.1
          ratchetKey_length := hratchet.2, ratchetKey_read := hratchetRead }
      have hrun := reading.newInboundSession_eq session localAccount
      obtain ⟨session', result, hkeys, hstored, herror⟩ :=
        newInboundSessionFromKeys_returns prims (reading.store session) localAccount
          reading.ratchetKey
      rw [hkeys] at hrun
      constructor
      · intro h
        obtain ⟨session'', result', hrun', -, hrefused⟩ := h.returns
        rw [hrun, Except.ok.injEq, Prod.mk.injEq] at hrun'
        obtain ⟨rfl, rfl⟩ := hrun'
        by_contra hnot
        obtain ⟨hnone, hcode⟩ := hrefused (fun h => hnot (.inl h))
        rw [herror hnone] at hcode
        rcases hcode with hcode | hcode <;> exact OlmErrorCode.noConfusion hcode
      · -- the identity key that is stored is the one that was expected
        rintro (h | ⟨-, h⟩)
        · refine ⟨⟨session', result, hrun, fun _ => ⟨h, ?_⟩, fun hnot => absurd h hnot⟩, hcopies,
            hmatches⟩
          rintro key rfl
          rw [hsame, Except.ok.injEq] at hdiffers
          have heq : key = identityKey := by simpa using hdiffers.symm
          exact hstored.trans heq.symm
        · exact absurd hratchet h
    · -- no ratchet key: `BAD_MESSAGE_FORMAT`, which is right
      have hnot : ¬ WellFormed prims.cipher.macLength theirIdentityKey message :=
        fun h => hratchet (hwell.mp h).2.2.2
      obtain ⟨session', hrun, hcode⟩ := newInboundSession_of_not_ratchetKey session localAccount
        hreader hchecked hsame hidentityRead hbaseRead honeRead hprekeyRead hmessage hratchet
      refine ⟨fun _ => .inr ⟨hprekey, hratchet⟩, fun _ => ⟨⟨session', none, hrun, ?_, ?_⟩, hcopies,
        hmatches⟩⟩
      · intro h
        cases h
      · intro _
        exact ⟨rfl, .inr hcode⟩
  · -- the prekey would be copied out of a field that is missing or too short
    constructor
    · intro h
      exact absurd (h.copies reader hreader ⟨hchecked, hsame⟩).2.2.2 hprekey
    · rintro (h | ⟨h, -⟩)
      · exact absurd (hwell.mp h).2.1.holdsKey hprekey
      · exact absurd h hprekey

/-- **When a set-up from any bytes does what it should**: when
`check_message_fields` refuses them, or nothing it leaves open is wrong. -/
theorem checksInbound_iff (prims : Primitives K) (session : Session K) (localAccount : Account)
    (theirIdentityKey : Option Curve25519PublicKey) (message : Bytes) :
    ChecksInbound prims session localAccount theirIdentityKey message ↔
      CoversRest prims.cipher.macLength theirIdentityKey message := by
  obtain ⟨reader, hreader, hbounds⟩ :=
    decodeOneTimeKeyMessage_bounds (le_of_eq (Nat.zero_add message.length))
  rw [Nat.zero_add] at hbounds
  cases hchecked : checkMessageFields reader theirIdentityKey.isSome with
  | false =>
    -- refused before anything is copied
    refine iff_of_true (checksInbound_of_not_checked hreader hchecked) ?_
    intro reader' _ hreader' hchecked' _
    obtain rfl : reader = reader' := Except.ok.inj (hreader.symm.trans hreader')
    rw [hchecked] at hchecked'
    exact absurd hchecked' Bool.false_ne_true
  | true =>
    obtain ⟨hidentity, hsome, hbase, hone⟩ := checkMessageFields_iff.mp hchecked
    obtain ⟨messageReader, hmessage, hinner⟩ :=
      embeddedMessage_bounds prims.cipher.macLength hbounds hsome
    rw [coversRest_iff hreader hchecked hmessage]
    -- an identity key that is absent passes the check where one is expected
    rcases hidentity with hidentity | ⟨habsent, -⟩
    · obtain ⟨identityKey, hread, hdiffers⟩ :=
        identityKeyDiffers_of_holdsKey hbounds.identityKey hidentity.holdsKey theirIdentityKey
      cases hany : theirIdentityKey.any (fun theirs => theirs ≠ identityKey) with
      | true =>
        rw [hany] at hdiffers
        rw [checksInbound_iff_of_differs hreader hchecked hdiffers, hdiffers]
        simp [hidentity.1]
      | false =>
        rw [hany] at hdiffers
        rw [checksInbound_iff_of_same hreader hbounds hchecked hidentity hdiffers hmessage hinner]
        simp [hidentity.1, hdiffers]
    · refine iff_of_false ?_ ?_
      · intro h
        obtain ⟨session', result, hrun, -⟩ := h.returns
        rw [newInboundSession_of_identityKey_absent hreader hchecked habsent] at hrun
        cases hrun
      · rintro ⟨hsome, -⟩
        rw [habsent] at hsome
        exact Bool.false_ne_true hsome

/-- Without its prekey a message makes the set-up read through a null
pointer, and so it does without its identity key where one is expected; of
version 0 it is accepted. -/
theorem not_checksInbound :
    let session := Session.new SymbolicKey.zero
    let zero : Curve25519PublicKey := FixedBytes.zero _
    let keyless := preKeyMessageOf 3
      [(ONE_TIME_KEY_ID_TAG, zero), (BASE_KEY_TAG, zero), (IDENTITY_KEY_TAG, zero)]
    let nameless := preKeyMessageOf 3
      [(PREKEY_ID_TAG, zero), (ONE_TIME_KEY_ID_TAG, zero), (BASE_KEY_TAG, zero)]
    let old := preKeyMessageOf 0 [(PREKEY_ID_TAG, zero), (ONE_TIME_KEY_ID_TAG, zero),
      (BASE_KEY_TAG, zero), (IDENTITY_KEY_TAG, zero)]
    session.newInboundSession .symbolic Account.new none keyless = .error .nullRead ∧
    session.newInboundSession .symbolic Account.new (some zero) nameless =
      .error .nullRead ∧
    (∃ session', session.newInboundSession .symbolic Account.new none old =
      .ok (session', some ())) ∧
    ¬ ChecksInbound .symbolic session Account.new none keyless := by
  intro session zero keyless nameless old
  have hkeyless : session.newInboundSession .symbolic Account.new none keyless =
      .error .nullRead := by decide +kernel
  refine ⟨hkeyless, by decide +kernel, ⟨{ session with
    ratchet := session.ratchet.initialiseAsBob Primitives.symbolic.ratchetConfig [0, 0, 0] zero },
    by decide +kernel⟩, ?_⟩
  intro h
  obtain ⟨session', result, hrun, -⟩ := h.returns
  rw [hkeyless] at hrun
  cases hrun

end Main

/-! ## The prekeys it accepts -/

/-- The prekey of a set-up that succeeds is one the account found. -/
theorem lookupPrekey_of_newInboundSession {session session' : Session K} {localAccount : Account}
    {theirIdentityKey : Option Curve25519PublicKey} {message : Bytes}
    (h : session.newInboundSession prims localAccount theirIdentityKey message =
      .ok (session', some ())) :
    (localAccount.lookupPrekey session'.bobPrekey).isSome = true := by
  obtain ⟨reading, h⟩ := newInboundSession_eq_some h
  obtain ⟨ourPrekey, bobOneTimeKey, hprekey, -, rfl⟩ := newInboundSessionFromKeys_eq_some h
  exact Option.isSome_iff_exists.mpr ⟨ourPrekey, hprekey⟩

/-- **Which prekeys are found.** A key is found as it should be unless a slot
that is not in use holds it and none in use does; in a run that reads
pickles into new accounts only the zero key can be such a key. Where keys
are found as they should be, a session is set up for a prekey in use. -/
theorem findsPrekeys_law (prims : Primitives K) :
    (∀ (account : Account) (publicKey : Curve25519PublicKey),
      account.FindsPrekeys publicKey ↔
        (account.IsLeftOver publicKey → account.IsPrekey publicKey)) ∧
    (∀ account, Account.Reachable prims.curve prims.ed25519 Account.IntoNew account →
      ∀ publicKey, account.FindsPrekeys publicKey ↔
        (publicKey ≠ FixedBytes.zero _ ∨ account.numPrekeys = 2 ∨ account.IsPrekey publicKey)) ∧
    (∀ (session session' : Session K) (account : Account)
      (theirIdentityKey : Option Curve25519PublicKey) (message : Bytes),
      session.newInboundSession prims account theirIdentityKey message = .ok (session', some ()) →
      (account.FindsPrekeys session'.bobPrekey → account.IsPrekey session'.bobPrekey)) := by
  refine ⟨fun _ _ => Account.findsPrekeys_iff, ?_, ?_⟩
  · intro account hreachable publicKey
    rw [Account.findsPrekeys_iff, hreachable.leftOverZero.isLeftOver_iff]
    tauto
  · intro session session' account theirIdentityKey message h hfinds
    exact hfinds.mp (lookupPrekey_of_newInboundSession h)

/-- After `new_account`, the prekey is found and the session it is named for
is set up. -/
theorem findsPrekeys_law_sevens :
    let prekey := Account.sevens.currentPrekey.key.publicKey
    let message := preKeyMessageOf 3 [(PREKEY_ID_TAG, prekey), (ONE_TIME_KEY_ID_TAG, prekey),
      (BASE_KEY_TAG, FixedBytes.zero _), (IDENTITY_KEY_TAG, FixedBytes.zero _)]
    Account.sevens.FindsPrekeys prekey ∧
    ∃ session', (Session.new SymbolicKey.zero).newInboundSession .symbolic Account.sevens none
      message = .ok (session', some ()) ∧ Account.sevens.IsPrekey session'.bobPrekey := by
  intro prekey message
  have hlaw := findsPrekeys_law Primitives.symbolic
  have hreachable : Account.Reachable Curve25519.xor Ed25519.accepting Account.IntoNew
      Account.sevens := .step .new (.newAccount Account.newAccount_sevens)
  have hfinds : Account.sevens.FindsPrekeys prekey :=
    (hlaw.2.1 _ hreachable prekey).mpr (.inl (by decide +kernel))
  have hrun : (Session.new SymbolicKey.zero).newInboundSession .symbolic Account.sevens none
      message = .ok ({ Session.new SymbolicKey.zero with
        bobOneTimeKey := prekey, bobPrekey := prekey
        ratchet := (Session.new SymbolicKey.zero).ratchet.initialiseAsBob
          Primitives.symbolic.ratchetConfig (handedOver (inboundSecrets .symbolic
            Account.sevens.identityKeys.curve25519Key Account.sevens.currentPrekey.key
            Account.sevens.currentPrekey.key (FixedBytes.zero _) (FixedBytes.zero _) true))
          (FixedBytes.zero _) }, some ()) := by decide +kernel
  exact ⟨hfinds, _, hrun, hlaw.2.2 _ _ _ _ _ hrun hfinds⟩

/-- After `new_account` the zero key is found in the slot of the previous
prekey, and a session is set up with it. -/
theorem not_findsPrekeys :
    Account.Reachable Curve25519.xor Ed25519.accepting Account.IntoNew Account.sevens ∧
    ¬ Account.sevens.FindsPrekeys (FixedBytes.zero _) ∧
    ¬ Account.sevens.IsPrekey (FixedBytes.zero _) ∧
    ∃ session', (Session.new SymbolicKey.zero).newInboundSession .symbolic Account.sevens none
      zeroPreKeyMessage = .ok (session', some ()) ∧ session'.bobPrekey = FixedBytes.zero _ := by
  have hnot : ¬ Account.sevens.IsPrekey (FixedBytes.zero _) := by decide +kernel
  have hfound : (Account.sevens.lookupPrekey (FixedBytes.zero _)).isSome = true := by
    decide +kernel
  have hrun : (Session.new SymbolicKey.zero).newInboundSession .symbolic Account.sevens none
      zeroPreKeyMessage = .ok ({ Session.new SymbolicKey.zero with
        ratchet := (Session.new SymbolicKey.zero).ratchet.initialiseAsBob
          Primitives.symbolic.ratchetConfig [0, 0, 0] (FixedBytes.zero _) }, some ()) := by
    decide +kernel
  exact ⟨.step .new (.newAccount Account.newAccount_sevens), fun h => hnot (h.mp hfound), hnot,
    _, hrun, rfl⟩

end Session

end Olm
