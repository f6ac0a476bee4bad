import Olm.Base64.Alphabet
import Olm.Common.Calls
import Olm.Session.Errors
import Olm.Session.SetupFailure

/-!
# Keys and messages as texts

The functions of `src/olm.cpp` that take keys, signatures and messages in
base64. A key is decoded to an array where its text has the length for it,
a message over itself.
-/

namespace Olm

/-- `b64_input`: the buffer, with what the text decodes to at its front, and
how long that is. `none` stands for the error. -/
def b64Input (input : Bytes) : Checked (Bytes × Option ℕ) :=
  match decodeBase64Length input.length with
  | none => .ok (input, none)
  | some rawLength => do
    let (input, _) ← decodeBase64 (.within 0) input.length input 0
    .ok (input, some rawLength)

/-- What is done with a text: the caller refuses it, or goes on with the bytes. -/
def onDecoded {α : Type} (text : Bytes) (refuse : Checked α) (call : Bytes → Checked α) :
    Checked α := do
  match ← b64Input text with
  | (_, none) => refuse
  | (input, some rawLength) => call (input.take rawLength)

/-- The text of a key has another length than one of `n` bytes. -/
def KeyLengthDiffers (n : ℕ) (text : Bytes) : Prop := decodeBase64Length text.length ≠ some n

instance (n : ℕ) (text : Bytes) : Decidable (KeyLengthDiffers n text) :=
  inferInstanceAs (Decidable (_ ≠ _))

/-- `decode_base64` of a key, to an array that it overwrites as a whole. -/
def decodeKey (n : ℕ) (text : Bytes) : Checked (FixedBytes n) := do
  let (key, _) ← decodeBase64 (.object text) text.length (List.replicate n 0) 0
  loadArray n key 0

/-! ## Sessions -/

namespace Session

variable {K : Type} (prims : Primitives K)

/-- `olm_create_outbound_session`, and `olm_create_outbound_session_without_otk`
where there is no one-time key. -/
def createOutboundSession (session : Session K) (account : Account)
    (theirIdentityKey theirSigningKey theirPreKey theirPreKeySignature : Bytes)
    (theirOneTimeKey : Option Bytes) (random : Bytes) : Checked (Session K × Option Unit) :=
  if KeyLengthDiffers CURVE25519_KEY_LENGTH theirIdentityKey ∨
      KeyLengthDiffers ED25519_PUBLIC_KEY_LENGTH theirSigningKey ∨
      theirOneTimeKey.any (fun key => KeyLengthDiffers CURVE25519_KEY_LENGTH key) ∨
      KeyLengthDiffers CURVE25519_KEY_LENGTH theirPreKey ∨
      KeyLengthDiffers ED25519_SIGNATURE_LENGTH theirPreKeySignature then
    session.fail .INVALID_BASE64
  else do
    let identityKey ← decodeKey CURVE25519_KEY_LENGTH theirIdentityKey
    let signingKey ← decodeKey ED25519_PUBLIC_KEY_LENGTH theirSigningKey
    let oneTimeKey ← theirOneTimeKey.mapM (decodeKey CURVE25519_KEY_LENGTH)
    let preKey ← decodeKey CURVE25519_KEY_LENGTH theirPreKey
    let rawPreKeySignature ← decodeKey ED25519_SIGNATURE_LENGTH theirPreKeySignature
    session.newOutboundSession prims account identityKey signingKey preKey rawPreKeySignature random
      oneTimeKey

/-- `olm_create_outbound_session`. -/
def olmCreateOutboundSession (session : Session K) (account : Account)
    (theirIdentityKey theirSigningKey theirPreKey theirPreKeySignature theirOneTimeKey
      random : Bytes) : Checked (Session K × Option Unit) :=
  session.createOutboundSession prims account theirIdentityKey theirSigningKey theirPreKey
    theirPreKeySignature (some theirOneTimeKey) random

/-- `olm_create_outbound_session_without_otk`. -/
def olmCreateOutboundSessionWithoutOtk (session : Session K) (account : Account)
    (theirIdentityKey theirSigningKey theirPreKey theirPreKeySignature random : Bytes) :
    Checked (Session K × Option Unit) :=
  session.createOutboundSession prims account theirIdentityKey theirSigningKey theirPreKey
    theirPreKeySignature none random

/-- `olm_create_inbound_session`. -/
def olmCreateInboundSession (session : Session K) (account : Account)
    (oneTimeKeyMessage : Bytes) : Checked (Session K × Option Unit) :=
  onDecoded oneTimeKeyMessage (session.fail .INVALID_BASE64)
    (session.newInboundSession prims account none)

/-- `olm_create_inbound_session_from`. -/
def olmCreateInboundSessionFrom (session : Session K) (account : Account)
    (theirIdentityKey oneTimeKeyMessage : Bytes) : Checked (Session K × Option Unit) :=
  if KeyLengthDiffers CURVE25519_KEY_LENGTH theirIdentityKey then session.fail .INVALID_BASE64
  else do
    let identityKey ← decodeKey CURVE25519_KEY_LENGTH theirIdentityKey
    onDecoded oneTimeKeyMessage (session.fail .INVALID_BASE64)
      (session.newInboundSession prims account (some identityKey))

/-- The end of the functions that compare a session with a message. -/
def matchesRaw (session : Session K) (theirIdentityKey : Option Curve25519PublicKey)
    (oneTimeKeyMessage : Bytes) : Checked (Session K × Option Bool) := do
  let same ← session.matchesInboundSession theirIdentityKey oneTimeKeyMessage
  .ok (session, some same)

/-- `olm_matches_inbound_session`. -/
def olmMatchesInboundSession (session : Session K) (oneTimeKeyMessage : Bytes) :
    Checked (Session K × Option Bool) :=
  onDecoded oneTimeKeyMessage (session.fail .INVALID_BASE64) (session.matchesRaw none)

/-- `olm_matches_inbound_session_from`. -/
def olmMatchesInboundSessionFrom (session : Session K)
    (theirIdentityKey oneTimeKeyMessage : Bytes) : Checked (Session K × Option Bool) :=
  if KeyLengthDiffers CURVE25519_KEY_LENGTH theirIdentityKey then session.fail .INVALID_BASE64
  else do
    let identityKey ← decodeKey CURVE25519_KEY_LENGTH theirIdentityKey
    onDecoded oneTimeKeyMessage (session.fail .INVALID_BASE64)
      (session.matchesRaw (some identityKey))

/-- `olm_decrypt_max_plaintext_length`. -/
def olmDecryptMaxPlaintextLength (session : Session K) (messageType : MessageType)
    (message : Bytes) : Checked (Session K × Option ℕ) :=
  onDecoded message (session.fail .INVALID_BASE64)
    (session.decryptMaxPlaintextLength prims messageType)

/-- `olm_decrypt`. -/
def olmDecrypt (session : Session K) (messageType : MessageType) (message : Bytes)
    (maxPlaintextLength : ℕ) : Checked (Session K × Option Bytes) :=
  onDecoded message (session.fail .INVALID_BASE64) fun message =>
    session.decrypt prims messageType message maxPlaintextLength false

/-- `olm_decrypt_sequential`. -/
def olmDecryptSequential (session : Session K) (messageType : MessageType) (message : Bytes)
    (maxPlaintextLength : ℕ) : Checked (Session K × Option Bytes) :=
  onDecoded message (session.fail .INVALID_BASE64) fun message =>
    session.decrypt prims messageType message maxPlaintextLength true

end Session

/-! ## Signatures -/

/-- `Utility`. -/
structure Utility where
  lastError : OlmErrorCode

namespace Utility

variable (ed25519 : Ed25519)

/-- `last_error = code; return std::size_t(-1);` -/
def fail {α : Type} (utility : Utility) (code : OlmErrorCode) : Checked (Utility × Option α) :=
  .ok ({ utility with lastError := code }, none)

/-- `ed25519_verify`. -/
def ed25519Verify (utility : Utility) (key : Ed25519PublicKey) (message signature : Bytes) :
    Checked (Utility × Option Unit) :=
  if signature.length < ED25519_SIGNATURE_LENGTH then utility.fail .BAD_MESSAGE_MAC
  else do
    let signature ← loadArray ED25519_SIGNATURE_LENGTH signature 0
    if !ed25519.verify key message signature then utility.fail .BAD_MESSAGE_MAC
    else .ok (utility, some ())

/-- `olm_ed25519_verify`. -/
def olmEd25519Verify (utility : Utility) (key message signature : Bytes) :
    Checked (Utility × Option Unit) :=
  if KeyLengthDiffers CURVE25519_KEY_LENGTH key then utility.fail .INVALID_BASE64
  else do
    let verifyKey ← decodeKey ED25519_PUBLIC_KEY_LENGTH key
    onDecoded signature (utility.fail .INVALID_BASE64)
      (utility.ed25519Verify ed25519 verifyKey message)

end Utility

/-! ## What is refused -/

open Base64

theorem b64Input_of_some {text : Bytes} {k : ℕ} (h : decodeBase64Length text.length = some k) :
    ∃ rest, b64Input text = .ok (decode text ++ rest, some k) := by
  obtain ⟨rest, hdecode⟩ := decodeBase64_within_of_length h
  refine ⟨rest, ?_⟩
  rw [b64Input, h]
  dsimp only
  rw [hdecode, Checked.ok_bind]

/-- **What `onDecoded` does**: the length alone says whether a text is
refused, and otherwise the call gets what it decodes to. -/
theorem onDecoded_eq {α : Type} (text : Bytes) (refuse : Checked α) (call : Bytes → Checked α) :
    onDecoded text refuse call =
      if text.length % 4 = 1 then refuse else call (decode text) := by
  unfold onDecoded
  cases hlength : decodeBase64Length text.length with
  | none =>
    rw [if_pos (decodeBase64Length_eq_none.mp hlength), b64Input, hlength]
    rfl
  | some k =>
    have hne : ¬text.length % 4 = 1 := by
      rw [← decodeBase64Length_eq_none, hlength]
      exact Option.some_ne_none k
    obtain ⟨rest, hinput⟩ := b64Input_of_some hlength
    rw [hinput, if_neg hne, Checked.ok_bind]
    dsimp only
    rw [List.take_left' (length_decode hlength)]

/-- A key whose text has the length for it is decoded. -/
theorem decodeKey_of_length {n : ℕ} {text : Bytes} (h : decodeBase64Length text.length = some n) :
    ∃ key, decodeKey n text = .ok key ∧ key.val = decode text := by
  have hlength := length_decode h
  have hdecode := (decodesAlike_decode h).decodes [] (List.replicate n 0) []
    (by rw [List.length_replicate, hlength])
  simp only [List.nil_append, List.append_nil, List.length_nil] at hdecode
  have hle : 0 + n ≤ (decode text).length := by omega
  obtain ⟨key, hkey, hval⟩ := loadArray_of_le hle
  rw [List.drop_zero, List.take_of_length_le (by omega)] at hval
  refine ⟨key, ?_, hval⟩
  rw [decodeKey, hdecode, Checked.ok_bind]
  exact hkey

/-- `last_error = INVALID_BASE64; return std::size_t(-1);` -/
abbrev Declines {σ α : Type} (lastError : σ → OlmErrorCode) (call : Checked (σ × Option α)) :
    Prop := FailsWith lastError .INVALID_BASE64 call

theorem refuses_onDecoded_iff {σ α : Type} {lastError : σ → OlmErrorCode} {text : Bytes}
    {refuse : Checked (σ × Option α)} {call : Bytes → Checked (σ × Option α)}
    (hrefuse : Declines lastError refuse) (hcall : ∀ raw, ¬Declines lastError (call raw)) :
    Declines lastError (onDecoded text refuse call) ↔ text.length % 4 = 1 := by
  rw [onDecoded_eq]
  exact failsWith_ite_iff hrefuse (hcall _)

/-! ### Sessions -/

variable {K : Type}

theorem Ratchet.not_refuses_fail {α : Type} {ratchet : Ratchet K} {code : OlmErrorCode}
    (h : code ≠ .INVALID_BASE64) : ¬Declines (·.lastError) (ratchet.fail (α := α) code) :=
  mt failsWith_none.mp h

/-- The ratchet does not know of base64. -/
theorem Ratchet.not_refuses_decrypt {config : RatchetConfig K} {ratchet : Ratchet K} {buf : Bytes}
    {input inputLength maxPlaintextLength : ℕ} {isSequential : Bool}
    (hclear : ratchet.lastError = .SUCCESS) :
    ¬Declines (·.lastError)
      (ratchet.decrypt config buf input inputLength maxPlaintextLength isSequential) := by
  unfold Ratchet.decrypt
  refine not_failsWith_bind fun reader => ?_
  refine not_failsWith_ite (not_refuses_fail (by decide)) ?_
  refine not_failsWith_ite (not_refuses_fail (by decide)) ?_
  refine not_failsWith_ite (not_refuses_fail (by decide)) ?_
  refine not_failsWith_ite (not_refuses_fail (by decide)) ?_
  rintro ⟨ratchet', h, hcode⟩
  simp only [Checked.bind_eq_ok] at h
  obtain ⟨pos, hpos, ratchetKey, hkey, h⟩ := h
  have hload : (nonNull reader.ratchetKey.value >>= loadArray CURVE25519_KEY_LENGTH buf) =
      .ok ratchetKey := by rw [hpos, Checked.ok_bind, hkey]
  cases decryptReader_outcome hload h with
  | notAcknowledged | newChainGap | outOfOrder | alreadyDecrypted | existingGap => cases hcode
  | newChainMac | existingMac =>
    rw [errorOf, if_pos hclear] at hcode
    cases hcode

namespace Session

variable {prims : Primitives K} {session : Session K} {account : Account}

theorem refuses_fail {α : Type} {code : OlmErrorCode} :
    Declines (·.lastError) (session.fail (α := α) code) ↔ code = .INVALID_BASE64 := failsWith_none

theorem not_refuses_fail {α : Type} {code : OlmErrorCode} (h : code ≠ .INVALID_BASE64) :
    ¬Declines (·.lastError) (session.fail (α := α) code) := mt refuses_fail.mp h

theorem not_refuses_newOutboundSession {identityKey preKey : Curve25519PublicKey}
    {signingKey : Ed25519PublicKey} {preKeySignature : Ed25519Signature} {random : Bytes}
    {oneTimeKey : Option Curve25519PublicKey} :
    ¬Declines (·.lastError) (session.newOutboundSession prims account identityKey signingKey preKey
      preKeySignature random oneTimeKey) := by
  rintro ⟨session', h, hcode⟩
  rcases newOutboundSession_eq_none h with ⟨-, rfl⟩ | ⟨-, _, -, rfl⟩
  · cases hcode
  · cases hcode

theorem not_refuses_newInboundSessionFromKeys {ratchetKey : Curve25519PublicKey} :
    ¬Declines (·.lastError) (session.newInboundSessionFromKeys prims account ratchetKey) := by
  unfold newInboundSessionFromKeys
  dsimp only
  refine not_failsWith_ite (not_refuses_fail (by decide)) ?_
  split
  · exact not_refuses_fail (by decide)
  · exact not_failsWith_some

theorem not_refuses_newInboundSession {theirIdentityKey : Option Curve25519PublicKey}
    {oneTimeKeyMessage : Bytes} :
    ¬Declines (·.lastError)
      (session.newInboundSession prims account theirIdentityKey oneTimeKeyMessage) := by
  unfold newInboundSession
  refine not_failsWith_bind fun reader => ?_
  refine not_failsWith_ite (not_refuses_fail (by decide)) ?_
  refine not_failsWith_bind fun differs => ?_
  refine not_failsWith_ite (not_refuses_fail (by decide)) ?_
  refine not_failsWith_bind fun aliceIdentityKey => not_failsWith_bind fun aliceBaseKey => ?_
  refine not_failsWith_bind fun bobOneTimeKey => not_failsWith_bind fun bobPrekey => ?_
  refine not_failsWith_bind fun body => not_failsWith_bind fun messageReader => ?_
  refine not_failsWith_ite (not_refuses_fail (by decide)) ?_
  exact not_failsWith_bind fun ratchetKey => not_refuses_newInboundSessionFromKeys

theorem not_refuses_matchesRaw {theirIdentityKey : Option Curve25519PublicKey}
    {oneTimeKeyMessage : Bytes} :
    ¬Declines (·.lastError) (session.matchesRaw theirIdentityKey oneTimeKeyMessage) :=
  not_failsWith_bind fun _ => not_failsWith_some

theorem not_refuses_decryptMaxPlaintextLength {messageType : MessageType} {message : Bytes} :
    ¬Declines (·.lastError) (session.decryptMaxPlaintextLength prims messageType message) := by
  rintro ⟨session', h, hcode⟩
  rcases decryptMaxPlaintextLength_outcome h with ⟨-, rfl⟩ | ⟨-, rfl⟩ | ⟨hsome, -⟩
  · cases hcode
  · cases hcode
  · cases hsome

/-- The code of a session that fails is one of its own, or the ratchet's. -/
theorem not_refuses_decrypt {messageType : MessageType} {message : Bytes} {maxPlaintextLength : ℕ}
    {isSequential : Bool} (hclear : session.ratchet.lastError = .SUCCESS) :
    ¬Declines (·.lastError)
      (session.decrypt prims messageType message maxPlaintextLength isSequential) := by
  rintro ⟨session', h, hcode⟩
  rcases decrypt_outcome h with ⟨-, -, rfl⟩ | ⟨body, bodyLength, ratchet, -, hratchet, hnone, -⟩
  · cases hcode
  · rw [hnone rfl] at hcode
    exact Ratchet.not_refuses_decrypt hclear ⟨ratchet, hratchet, hcode⟩

/-! ### Sessions stay settled

A text that is refused changes the session's own `last_error` only. -/

variable {session' : Session K}

theorem Settled.onDecoded {α : Type} {result : Option α} {text : Bytes}
    {call : Bytes → Checked (Session K × Option α)} (h : session.Settled)
    (hcall : ∀ raw, call raw = .ok (session', result) → session'.Settled)
    (hrun : onDecoded text (session.fail .INVALID_BASE64) call = .ok (session', result)) :
    session'.Settled := by
  rw [onDecoded_eq] at hrun
  split at hrun
  · exact h.of_fail hrun
  · exact hcall _ hrun

theorem Settled.createOutboundSession {result : Option Unit}
    {theirIdentityKey theirSigningKey theirPreKey theirPreKeySignature random : Bytes}
    {theirOneTimeKey : Option Bytes} (h : session.Settled)
    (hrun : session.createOutboundSession prims account theirIdentityKey theirSigningKey theirPreKey
      theirPreKeySignature theirOneTimeKey random = .ok (session', result)) : session'.Settled := by
  unfold Session.createOutboundSession at hrun
  split at hrun
  · exact h.of_fail hrun
  · simp only [Checked.bind_eq_ok] at hrun
    obtain ⟨identityKey, -, signingKey, -, oneTimeKey, -, preKey, -, signature, -, hrun⟩ := hrun
    exact h.newOutboundSession hrun

theorem Settled.olmCreateInboundSession {result : Option Unit} {oneTimeKeyMessage : Bytes}
    (h : session.Settled)
    (hrun : session.olmCreateInboundSession prims account oneTimeKeyMessage =
      .ok (session', result)) : session'.Settled :=
  h.onDecoded (fun _ => h.newInboundSession) hrun

theorem Settled.olmCreateInboundSessionFrom {result : Option Unit}
    {theirIdentityKey oneTimeKeyMessage : Bytes} (h : session.Settled)
    (hrun : session.olmCreateInboundSessionFrom prims account theirIdentityKey oneTimeKeyMessage =
      .ok (session', result)) : session'.Settled := by
  unfold Session.olmCreateInboundSessionFrom at hrun
  split at hrun
  · exact h.of_fail hrun
  · obtain ⟨identityKey, -, hrun⟩ := Checked.bind_eq_ok.mp hrun
    exact h.onDecoded (fun _ => h.newInboundSession) hrun

theorem Settled.olmDecryptMaxPlaintextLength {result : Option ℕ} {messageType : MessageType}
    {message : Bytes} (h : session.Settled)
    (hrun : session.olmDecryptMaxPlaintextLength prims messageType message =
      .ok (session', result)) : session'.Settled :=
  h.onDecoded (fun _ hcall => h.congr (ratchet_of_decryptMaxPlaintextLength h.noError hcall)) hrun

theorem Settled.olmDecrypt {result : Option Bytes} {messageType : MessageType} {message : Bytes}
    {maxPlaintextLength : ℕ} (h : session.Settled)
    (hrun : session.olmDecrypt prims messageType message maxPlaintextLength =
      .ok (session', result)) : session'.Settled :=
  h.onDecoded (fun _ => h.decrypt) hrun

theorem Settled.olmDecryptSequential {result : Option Bytes} {messageType : MessageType}
    {message : Bytes} {maxPlaintextLength : ℕ} (h : session.Settled)
    (hrun : session.olmDecryptSequential prims messageType message maxPlaintextLength =
      .ok (session', result)) : session'.Settled :=
  h.onDecoded (fun _ => h.decrypt) hrun

end Session

end Olm
