import Olm.PickleFlaws
import Olm.Sas.Model
import Olm.Session.Texts

/-!
# The calls that take texts

All functions of the library that take base64. None looks at the characters:
each refuses a text for its length, or reads it as it is. So a call reports
`INVALID_BASE64` on what is not base64 exactly where the length gives it away
(`refusesOtherTexts`).
-/

namespace Olm

/-- What the functions compute with. -/
structure Library (K : Type) where
  prims : Primitives K
  group : GroupPrimitives
  pk : PkPrimitives
  hashes : Hashes
  aes : Aes256

/-- A call with a text of base64. Between calls a session has no error left in
its ratchet. -/
inductive TextCall (K : Type) where
  | createOutboundSession (session : Session K) (account : Account)
      (theirIdentityKey theirSigningKey theirPreKey theirPreKeySignature theirOneTimeKey
        random : Bytes)
  | createOutboundSessionWithoutOtk (session : Session K) (account : Account)
      (theirIdentityKey theirSigningKey theirPreKey theirPreKeySignature random : Bytes)
  | createInboundSession (session : Session K) (account : Account) (oneTimeKeyMessage : Bytes)
  | createInboundSessionFrom (session : Session K) (account : Account)
      (theirIdentityKey oneTimeKeyMessage : Bytes)
  | matchesInboundSession (session : Session K) (oneTimeKeyMessage : Bytes)
  | matchesInboundSessionFrom (session : Session K) (theirIdentityKey oneTimeKeyMessage : Bytes)
  | decryptMaxPlaintextLength (session : Session K) (messageType : MessageType) (message : Bytes)
  | decrypt (session : Session K) (settled : session.Settled) (messageType : MessageType)
      (message : Bytes) (maxPlaintextLength : ℕ)
  | decryptSequential (session : Session K) (settled : session.Settled) (messageType : MessageType)
      (message : Bytes) (maxPlaintextLength : ℕ)
  | ed25519Verify (utility : Utility) (key message signature : Bytes)
  | unpickleAccount (account : Account) (stale : ℕ → OneTimeKey) (key pickled : Bytes)
  | unpickleSession (session : Session SharedKey) (stale : Ratchet.Stale) (key pickled : Bytes)
  | unpicklePkDecryption (decryption : OlmPkDecryption) (key pickled : Bytes)
      (pubkey : Option Bytes)
  | unpickleOutboundGroupSession (session : OutboundGroupSession) (key pickled : Bytes)
  | unpickleInboundGroupSession (session : InboundGroupSession) (key pickled : Bytes)
  | initInboundGroupSession (session : InboundGroupSession) (sessionKey : Bytes)
  | importInboundGroupSession (session : InboundGroupSession) (sessionKey : Bytes)
  | groupDecryptMaxPlaintextLength (session : InboundGroupSession) (message : Bytes)
  | groupDecrypt (session : InboundGroupSession) (message : Bytes) (maxPlaintextLength : ℕ)
  | pkEncryptionSetRecipientKey (encryption : OlmPkEncryption) (key : Bytes)
  | pkDecrypt (decryption : OlmPkDecryption) (ephemeralKey mac ciphertext : Bytes)
      (maxPlaintextLength : ℕ)
  | sasSetTheirKey (sas : OlmSAS) (theirKey : Bytes)

namespace TextCall

variable {K : Type} (library : Library K)

/-- The texts of a call. -/
def texts : TextCall K → List Bytes
  | createOutboundSession _ _ theirIdentityKey theirSigningKey theirPreKey theirPreKeySignature
      theirOneTimeKey _ =>
    [theirIdentityKey, theirSigningKey, theirOneTimeKey, theirPreKey, theirPreKeySignature]
  | createOutboundSessionWithoutOtk _ _ theirIdentityKey theirSigningKey theirPreKey
      theirPreKeySignature _ =>
    [theirIdentityKey, theirSigningKey, theirPreKey, theirPreKeySignature]
  | createInboundSession _ _ oneTimeKeyMessage => [oneTimeKeyMessage]
  | createInboundSessionFrom _ _ theirIdentityKey oneTimeKeyMessage =>
    [theirIdentityKey, oneTimeKeyMessage]
  | matchesInboundSession _ oneTimeKeyMessage => [oneTimeKeyMessage]
  | matchesInboundSessionFrom _ theirIdentityKey oneTimeKeyMessage =>
    [theirIdentityKey, oneTimeKeyMessage]
  | decryptMaxPlaintextLength _ _ message => [message]
  | decrypt _ _ _ message _ => [message]
  | decryptSequential _ _ _ message _ => [message]
  | ed25519Verify _ key _ signature => [key, signature]
  | unpickleAccount _ _ _ pickled => [pickled]
  | unpickleSession _ _ _ pickled => [pickled]
  | unpicklePkDecryption _ _ pickled _ => [pickled]
  | unpickleOutboundGroupSession _ _ pickled => [pickled]
  | unpickleInboundGroupSession _ _ pickled => [pickled]
  | initInboundGroupSession _ sessionKey => [sessionKey]
  | importInboundGroupSession _ sessionKey => [sessionKey]
  | groupDecryptMaxPlaintextLength _ message => [message]
  | groupDecrypt _ message _ => [message]
  | pkEncryptionSetRecipientKey _ key => [key]
  | pkDecrypt _ ephemeralKey mac ciphertext _ => [ephemeralKey, mac, ciphertext]
  | sasSetTheirKey _ theirKey => [theirKey]

/-- The call fails and reports `INVALID_BASE64`. -/
def ReportsInvalidBase64 : TextCall K → Prop
  | createOutboundSession session account theirIdentityKey theirSigningKey theirPreKey
      theirPreKeySignature theirOneTimeKey random =>
    Declines (·.lastError) (session.olmCreateOutboundSession library.prims account theirIdentityKey
      theirSigningKey theirPreKey theirPreKeySignature theirOneTimeKey random)
  | createOutboundSessionWithoutOtk session account theirIdentityKey theirSigningKey theirPreKey
      theirPreKeySignature random =>
    Declines (·.lastError) (session.olmCreateOutboundSessionWithoutOtk library.prims account
      theirIdentityKey theirSigningKey theirPreKey theirPreKeySignature random)
  | createInboundSession session account oneTimeKeyMessage =>
    Declines (·.lastError) (session.olmCreateInboundSession library.prims account oneTimeKeyMessage)
  | createInboundSessionFrom session account theirIdentityKey oneTimeKeyMessage =>
    Declines (·.lastError) (session.olmCreateInboundSessionFrom library.prims account
      theirIdentityKey oneTimeKeyMessage)
  | matchesInboundSession session oneTimeKeyMessage =>
    Declines (·.lastError) (session.olmMatchesInboundSession oneTimeKeyMessage)
  | matchesInboundSessionFrom session theirIdentityKey oneTimeKeyMessage =>
    Declines (·.lastError)
      (session.olmMatchesInboundSessionFrom theirIdentityKey oneTimeKeyMessage)
  | decryptMaxPlaintextLength session messageType message =>
    Declines (·.lastError) (session.olmDecryptMaxPlaintextLength library.prims messageType message)
  | decrypt session _ messageType message maxPlaintextLength =>
    Declines (·.lastError)
      (session.olmDecrypt library.prims messageType message maxPlaintextLength)
  | decryptSequential session _ messageType message maxPlaintextLength =>
    Declines (·.lastError)
      (session.olmDecryptSequential library.prims messageType message maxPlaintextLength)
  | ed25519Verify utility key message signature =>
    Declines (·.lastError) (utility.olmEd25519Verify library.prims.ed25519 key message signature)
  | unpickleAccount account stale key pickled =>
    Declines (·.lastError) (account.olmUnpickleAccount library.hashes library.aes stale key pickled)
  | unpickleSession session stale key pickled =>
    Declines (·.lastError) (session.olmUnpickleSession library.hashes library.aes stale key pickled)
  | unpicklePkDecryption decryption key pickled pubkey =>
    Declines (·.lastError)
      (decryption.unpicklePkDecryption library.hashes library.aes key pickled pubkey)
  | unpickleOutboundGroupSession session key pickled =>
    Declines (·.lastError)
      (session.unpickleOutboundGroupSession library.hashes library.aes key pickled)
  | unpickleInboundGroupSession session key pickled =>
    Declines (·.lastError)
      (session.unpickleInboundGroupSession library.hashes library.aes key pickled)
  | initInboundGroupSession session sessionKey =>
    Declines (·.lastError) (session.initInboundGroupSession library.group sessionKey)
  | importInboundGroupSession session sessionKey =>
    Declines (·.lastError) (session.importInboundGroupSession library.group sessionKey)
  | groupDecryptMaxPlaintextLength session message =>
    Declines (·.lastError) (session.groupDecryptMaxPlaintextLength library.group message)
  | groupDecrypt session message maxPlaintextLength =>
    Declines (·.lastError) (do
      let decryption ← session.groupDecrypt library.group message maxPlaintextLength
      .ok (decryption.session, decryption.plaintext))
  | pkEncryptionSetRecipientKey encryption key =>
    Declines (·.lastError) (encryption.setRecipientKey key)
  | pkDecrypt decryption ephemeralKey mac ciphertext maxPlaintextLength =>
    Declines (·.lastError)
      (decryption.decrypt library.pk ephemeralKey mac ciphertext maxPlaintextLength)
  | sasSetTheirKey sas theirKey =>
    Declines (·.lastError) (sas.setTheirKey library.prims.curve theirKey)

/-- **The lengths of its texts give the call away**. An object in C++ that is
unpickled from contents that end too early keeps the error it had, and it may
have had this one. -/
def LengthRefused : TextCall K → Prop
  | createOutboundSession _ _ theirIdentityKey theirSigningKey theirPreKey theirPreKeySignature
      theirOneTimeKey _ =>
    KeyLengthDiffers CURVE25519_KEY_LENGTH theirIdentityKey ∨
      KeyLengthDiffers ED25519_PUBLIC_KEY_LENGTH theirSigningKey ∨
      KeyLengthDiffers CURVE25519_KEY_LENGTH theirOneTimeKey ∨
      KeyLengthDiffers CURVE25519_KEY_LENGTH theirPreKey ∨
      KeyLengthDiffers ED25519_SIGNATURE_LENGTH theirPreKeySignature
  | createOutboundSessionWithoutOtk _ _ theirIdentityKey theirSigningKey theirPreKey
      theirPreKeySignature _ =>
    KeyLengthDiffers CURVE25519_KEY_LENGTH theirIdentityKey ∨
      KeyLengthDiffers ED25519_PUBLIC_KEY_LENGTH theirSigningKey ∨
      KeyLengthDiffers CURVE25519_KEY_LENGTH theirPreKey ∨
      KeyLengthDiffers ED25519_SIGNATURE_LENGTH theirPreKeySignature
  | createInboundSession _ _ message | matchesInboundSession _ message
  | decryptMaxPlaintextLength _ _ message | decrypt _ _ _ message _
  | decryptSequential _ _ _ message _ | groupDecryptMaxPlaintextLength _ message
  | groupDecrypt _ message _ => message.length % 4 = 1
  | createInboundSessionFrom _ _ theirIdentityKey oneTimeKeyMessage
  | matchesInboundSessionFrom _ theirIdentityKey oneTimeKeyMessage =>
    KeyLengthDiffers CURVE25519_KEY_LENGTH theirIdentityKey ∨ oneTimeKeyMessage.length % 4 = 1
  | ed25519Verify _ key _ signature =>
    KeyLengthDiffers CURVE25519_KEY_LENGTH key ∨ signature.length % 4 = 1
  | unpickleAccount account _ key pickled =>
    pickled.length % 4 = 1 ∨ (account.lastError = .INVALID_BASE64 ∧
      pickleFlaw library.hashes library.aes Account.scan key pickled = .ok (some .truncated))
  | unpickleSession session _ key pickled =>
    pickled.length % 4 = 1 ∨ (session.lastError = .INVALID_BASE64 ∧
      pickleFlaw library.hashes library.aes Session.scan key pickled = .ok (some .truncated))
  | unpicklePkDecryption decryption key pickled pubkey =>
    pubkey.all (fun pubkey => pkKeyLength ≤ pubkey.length) ∧
    (pickled.length % 4 = 1 ∨ (decryption.lastError = .INVALID_BASE64 ∧
      pickleFlaw library.hashes library.aes OlmPkDecryption.scan key pickled =
        .ok (some .truncated)))
  | unpickleOutboundGroupSession _ _ pickled | unpickleInboundGroupSession _ _ pickled =>
    pickled.length % 4 = 1
  | initInboundGroupSession _ sessionKey | importInboundGroupSession _ sessionKey =>
    sessionKey.length % 4 = 1
  | pkEncryptionSetRecipientKey _ _ => False
  | pkDecrypt _ ephemeralKey mac ciphertext maxPlaintextLength =>
    OlmPkDecryption.maxPlaintextLength library.pk ciphertext.length ≤ maxPlaintextLength ∧
    (ciphertext.length % 4 = 1 ∨ ephemeralKey.length ≠ encodeBase64Length CURVE25519_KEY_LENGTH ∨
      mac.length ≠ encodeBase64Length MAC_LENGTH)
  | sasSetTheirKey _ theirKey => OlmSAS.pubkeyLength ≤ theirKey.length ∧ theirKey.length % 4 = 1

end TextCall

/-! ## Sessions -/

open Base64

namespace Session

variable {K : Type} {prims : Primitives K} {session : Session K} {account : Account}

theorem refuses_createOutboundSession_iff
    {theirIdentityKey theirSigningKey theirPreKey theirPreKeySignature random : Bytes}
    {theirOneTimeKey : Option Bytes} :
    Declines (·.lastError) (session.createOutboundSession prims account theirIdentityKey
        theirSigningKey theirPreKey theirPreKeySignature theirOneTimeKey random) ↔
      KeyLengthDiffers CURVE25519_KEY_LENGTH theirIdentityKey ∨
      KeyLengthDiffers ED25519_PUBLIC_KEY_LENGTH theirSigningKey ∨
      theirOneTimeKey.any (fun key => KeyLengthDiffers CURVE25519_KEY_LENGTH key) ∨
      KeyLengthDiffers CURVE25519_KEY_LENGTH theirPreKey ∨
      KeyLengthDiffers ED25519_SIGNATURE_LENGTH theirPreKeySignature := by
  unfold createOutboundSession
  refine failsWith_ite_iff (refuses_fail.mpr rfl) ?_
  refine not_failsWith_bind fun identityKey => not_failsWith_bind fun signingKey => ?_
  refine not_failsWith_bind fun oneTimeKey => not_failsWith_bind fun preKey => ?_
  exact not_failsWith_bind fun signature => not_refuses_newOutboundSession

end Session

/-- A text that comes with a key. -/
theorem refuses_withKey_iff {σ α : Type} {lastError : σ → OlmErrorCode} {n : ℕ}
    {key text : Bytes} {refuse : Checked (σ × Option α)}
    {call : FixedBytes n → Bytes → Checked (σ × Option α)} (hrefuse : Declines lastError refuse)
    (hcall : ∀ key raw, ¬Declines lastError (call key raw)) :
    Declines lastError (if KeyLengthDiffers n key then refuse
        else decodeKey n key >>= fun key => onDecoded text refuse (call key)) ↔
      KeyLengthDiffers n key ∨ text.length % 4 = 1 := by
  split
  · rename_i hdiffers
    exact iff_of_true hrefuse (.inl hdiffers)
  · rename_i hsame
    obtain ⟨raw, hraw, -⟩ := decodeKey_of_length (not_not.mp hsame)
    rw [hraw, Checked.ok_bind, refuses_onDecoded_iff hrefuse (hcall raw), or_iff_right hsame]

theorem Utility.not_refuses_ed25519Verify {ed25519 : Ed25519} {utility : Utility}
    {key : Ed25519PublicKey} {message signature : Bytes} :
    ¬Declines (·.lastError) (utility.ed25519Verify ed25519 key message signature) := by
  have hfail : ¬Declines (·.lastError) (utility.fail (α := Unit) .BAD_MESSAGE_MAC) :=
    mt failsWith_none.mp (by decide)
  unfold ed25519Verify
  refine not_failsWith_ite hfail (not_failsWith_bind fun signature => ?_)
  exact not_failsWith_ite hfail not_failsWith_some

/-! ## Pickles -/

section Pickles

variable {σ τ : Type} {lastError : σ → OlmErrorCode} {hashes : Hashes} {aes : Aes256}
  {key pickled : Bytes}

theorem PickleFlaw.eq_notBase64_of_code {flaw : PickleFlaw} (h : flaw.code = .INVALID_BASE64) :
    flaw = .notBase64 := by
  cases flaw with
  | notBase64 => rfl
  | _ => cases h

/-- The text of a pickle is refused for its length alone. -/
theorem encInput_eq_invalidBase64 {buf : Bytes} :
    encInput hashes aes key pickled = .ok (buf, .error .INVALID_BASE64) ↔
      buf = pickled ∧ pickled.length % 4 = 1 := by
  unfold encInput
  cases hlength : decodeBase64Length pickled.length with
  | none =>
    simp only [Except.ok.injEq, Prod.mk.injEq, and_true, decodeBase64Length_eq_none.mp hlength]
    exact eq_comm
  | some k =>
    have hne : ¬pickled.length % 4 = 1 := by
      rw [← decodeBase64Length_eq_none, hlength]
      exact Option.some_ne_none k
    refine iff_of_false (fun h => ?_) fun h => hne h.2
    obtain ⟨_, -, h⟩ := Checked.bind_eq_ok.mp h
    obtain ⟨⟨input, result⟩, -, h⟩ := Checked.bind_eq_ok.mp h
    cases result with
    | none => cases h
    | some result => cases h

/-- A call that unpickles: it refuses the text, or its contents make it report
the same. -/
theorem refuses_unpickle_iff {setError : OlmErrorCode → σ}
    (contents : Bytes → Checked (σ × Option τ)) (hset : ∀ code, lastError (setError code) = code) :
    Declines lastError (unpickleText hashes aes setError contents key pickled) ↔
      pickled.length % 4 = 1 ∨
      ∃ buf rawLength, encInput hashes aes key pickled = .ok (buf, .ok rawLength) ∧
        Declines lastError (contents (buf.take rawLength)) := by
  rw [unpickleText, Declines, failsWith_bind]
  constructor
  · rintro ⟨⟨buf, code | rawLength⟩, hinput, hfails⟩
    · have hcode : code = .INVALID_BASE64 := (hset code).symm.trans (failsWith_none.mp hfails)
      subst hcode
      exact .inl (encInput_eq_invalidBase64.mp hinput).2
    · exact .inr ⟨buf, rawLength, hinput, hfails⟩
  · rintro (hlength | ⟨buf, rawLength, hinput, hfails⟩)
    · exact ⟨_, encInput_eq_invalidBase64.mpr ⟨rfl, hlength⟩, failsWith_none.mpr (hset _)⟩
    · exact ⟨_, hinput, hfails⟩

/-- An object in C++ reports the error that it had. -/
theorem refuses_unpickleContents_iff {setError : σ → OlmErrorCode → σ} {unpickle : Unpickler σ}
    {scan : Bytes → Except PickleFlaw Bytes} {finish : σ → Checked (σ × Option τ)}
    (hset : ∀ object code, lastError (setError object code) = code)
    (hfinish : ∀ object, ¬Declines lastError (finish object))
    (hscan : unpickle.Scans lastError PickleFlaw.mark scan)
    (hcontents : ∀ raw, scan raw ≠ .error .notBase64) (object : σ) (raw : Bytes) :
    Declines lastError (unpickleContents lastError setError unpickle finish object raw) ↔
      lastError object = .INVALID_BASE64 ∧ contentsFlaw scan raw = some .truncated := by
  unfold unpickleContents
  rcases unpickle_of_scan hscan object raw with ⟨object', hread, hflaw⟩ |
    ⟨object', b, rest, hread, hflaw⟩ | ⟨object', reason, hread, hflaw, hmark⟩
  · rw [hread, hflaw]
    exact iff_of_false (hfinish object') fun h => nomatch h.2
  · rw [hread, hflaw]
    refine iff_of_false (fun h => ?_) fun h => nomatch h.2
    have hcode := (hset object' _).symm.trans (failsWith_none.mp h)
    cases hcode
  · rw [hread, hflaw]
    dsimp only
    have hfails : Declines lastError (if lastError object' = .SUCCESS then
        .ok (setError object' .CORRUPTED_PICKLE, (none : Option τ)) else .ok (object', none)) ↔
        lastError object' = .INVALID_BASE64 := by
      split
      · rename_i hsuccess
        rw [Declines, failsWith_none, hset, hsuccess]
        exact iff_of_false (by decide) (by decide)
      · exact failsWith_none
    rw [hfails, hmark]
    by_cases htruncated : reason = .truncated
    · subst htruncated
      exact (and_iff_left rfl).symm
    · rw [PickleFlaw.mark_of_ne htruncated]
      refine iff_of_false (fun hcode => ?_) fun h => htruncated (Option.some.inj h.2)
      obtain rfl := PickleFlaw.eq_notBase64_of_code hcode
      unfold contentsFlaw restFlaw at hflaw
      split at hflaw
      · rename_i hraw
        cases hflaw
        exact hcontents raw hraw
      · cases hflaw
      · cases hflaw

/-- **An object in C++ that is unpickled** refuses the text for its length, or
has refused one before and gets contents that end too early. -/
theorem refuses_object_iff {call : Checked (σ × Option τ)} {object : σ}
    {scan : Bytes → Except PickleFlaw Bytes} {unpickle : Unpickler σ}
    (setError : σ → OlmErrorCode → σ) (finish : σ → Checked (σ × Option τ))
    (hcall : call = unpickleText hashes aes (setError object)
      (unpickleContents lastError setError unpickle finish object) key pickled)
    (hset : ∀ object code, lastError (setError object code) = code)
    (hfinish : ∀ object, ¬Declines lastError (finish object))
    (hscan : unpickle.Scans lastError PickleFlaw.mark scan)
    (hcontents : ∀ raw, scan raw ≠ .error .notBase64) :
    Declines lastError call ↔ pickled.length % 4 = 1 ∨ (lastError object = .INVALID_BASE64 ∧
      pickleFlaw hashes aes scan key pickled = .ok (some .truncated)) := by
  rw [hcall, refuses_unpickle_iff _ (hset object), pickleFlaw_eq_truncated]
  refine or_congr_right ?_
  constructor
  · rintro ⟨buf, rawLength, hinput, hfails⟩
    obtain ⟨hcode, hflaw⟩ :=
      (refuses_unpickleContents_iff hset hfinish hscan hcontents object _).mp hfails
    exact ⟨hcode, buf, rawLength, hinput, hflaw⟩
  · rintro ⟨hcode, buf, rawLength, hinput, hflaw⟩
    exact ⟨buf, rawLength, hinput,
      (refuses_unpickleContents_iff hset hfinish hscan hcontents object _).mpr ⟨hcode, hflaw⟩⟩

/-- A group session that is unpickled sets its error itself. -/
theorem refuses_unpickleGroupSession_iff {setError : σ → OlmErrorCode → σ} {unknown : UInt32 → Prop}
    [DecidablePred unknown] {unpickleFields : UInt32 → Unpickler σ}
    (hset : ∀ object code, lastError (setError object code) = code) (session : σ) :
    Declines lastError
        (unpickleGroupSession hashes aes setError unknown unpickleFields session key pickled) ↔
      pickled.length % 4 = 1 := by
  have hfail : ∀ (object : σ) code, code ≠ .INVALID_BASE64 →
      ¬Declines lastError (.ok (setError object code, (none : Option ℕ))) := by
    intro object code hcode h
    exact hcode ((hset object code).symm.trans (failsWith_none.mp h))
  rw [unpickleGroupSession_eq, refuses_unpickle_iff _ (hset session)]
  refine or_iff_left ?_
  rintro ⟨buf, rawLength, -, h⟩
  revert h
  unfold unpickleGroupContents
  split
  · exact hfail _ _ (by decide)
  · refine not_failsWith_ite (hfail _ _ (by decide)) ?_
    split
    · exact hfail _ _ (by decide)
    · exact hfail _ _ (by decide)
    · exact not_failsWith_some

/-! ### Contents are no text -/

theorem bind_ne_error {x : Except PickleFlaw Bytes} {f : Bytes → Except PickleFlaw Bytes}
    {flaw : PickleFlaw} (hx : x ≠ .error flaw) (hf : ∀ raw, f raw ≠ .error flaw) :
    (x >>= f) ≠ .error flaw := by
  cases x with
  | ok raw => exact hf raw
  | error reason => exact fun h => hx h

theorem ite_ne_error {x y : Except PickleFlaw Bytes} {flaw : PickleFlaw} {c : Prop} [Decidable c]
    (hx : x ≠ .error flaw) (hy : y ≠ .error flaw) : (if c then x else y) ≠ .error flaw := by
  split
  · exact hx
  · exact hy

theorem error_ne {reason flaw : PickleFlaw} (h : reason ≠ flaw) :
    (.error reason : Except PickleFlaw Bytes) ≠ .error flaw :=
  fun heq => h (Except.error.inj heq)

theorem truncated_ne (x : Option Bytes) :
    Unpickler.orError PickleFlaw.truncated x ≠ .error .notBase64 := by
  cases x with
  | some rest => exact fun h => nomatch h
  | none => exact error_ne (by decide)

theorem scanVersion_ne {scan : UInt32 → Bytes → Except PickleFlaw Bytes}
    (h : ∀ version raw, scan version raw ≠ .error .notBase64) (raw : Bytes) :
    scanVersion scan raw ≠ .error .notBase64 :=
  ite_ne_error (error_ne (by decide)) (h _ _)

theorem scanSlots_ne (n : ℕ) (raw : Bytes) : scanSlots n raw ≠ .error .notBase64 := by
  cases raw with
  | nil => exact error_ne (by decide)
  | cons count raw =>
    refine ite_ne_error (bind_ne_error (truncated_ne _) fun raw => ?_) fun h => nomatch h
    refine ite_ne_error (bind_ne_error (truncated_ne _) fun raw => ?_) fun h => nomatch h
    exact ite_ne_error (error_ne (by decide)) fun h => nomatch h

theorem Account.scan_ne (raw : Bytes) : Account.scan raw ≠ .error .notBase64 := by
  refine scanVersion_ne (fun version raw => ?_) raw
  refine ite_ne_error ?_ (ite_ne_error (error_ne (by decide)) (error_ne (by decide)))
  refine bind_ne_error (truncated_ne _) fun raw => ?_
  refine bind_ne_error (ite_ne_error ?_ fun h => nomatch h) fun raw => ?_
  · exact bind_ne_error (scanSlots_ne 133 _) fun raw => truncated_ne _
  · refine bind_ne_error (truncated_ne _) fun raw => bind_ne_error ?_ fun raw => truncated_ne _
    exact ite_ne_error (fun h => nomatch h) (ite_ne_error (truncated_ne _) (scanSlots_ne 69 _))

theorem Session.scan_ne (raw : Bytes) : Session.scan raw ≠ .error .notBase64 :=
  scanVersion_ne (fun _ _ => ite_ne_error (truncated_ne _)
    (ite_ne_error (truncated_ne _) (error_ne (by decide)))) raw

theorem OlmPkDecryption.scan_ne (raw : Bytes) : OlmPkDecryption.scan raw ≠ .error .notBase64 :=
  scanVersion_ne (fun _ _ => ite_ne_error (truncated_ne _) (error_ne (by decide))) raw

/-! ### Each object -/

theorem Account.refuses_olmUnpickleAccount_iff {account : Account} {stale : ℕ → OneTimeKey} :
    Declines (·.lastError) (account.olmUnpickleAccount hashes aes stale key pickled) ↔
      pickled.length % 4 = 1 ∨ (account.lastError = .INVALID_BASE64 ∧
        pickleFlaw hashes aes Account.scan key pickled = .ok (some .truncated)) :=
  refuses_object_iff (fun account code => { account with lastError := code })
    (fun account => .ok (account, some pickled.length)) rfl (fun _ _ => rfl)
    (fun _ => not_failsWith_some) (Account.scans_unpickle stale) scan_ne

theorem Session.refuses_olmUnpickleSession_iff {session : Session SharedKey}
    {stale : Ratchet.Stale} :
    Declines (·.lastError) (session.olmUnpickleSession hashes aes stale key pickled) ↔
      pickled.length % 4 = 1 ∨ (session.lastError = .INVALID_BASE64 ∧
        pickleFlaw hashes aes Session.scan key pickled = .ok (some .truncated)) :=
  refuses_object_iff (fun session code => { session with lastError := code })
    (fun session => .ok (session, some pickled.length)) rfl (fun _ _ => rfl)
    (fun _ => not_failsWith_some) (Session.scans_unpickle stale) scan_ne

theorem OlmPkDecryption.refuses_unpicklePkDecryption_iff {decryption : OlmPkDecryption}
    {pubkey : Option Bytes} :
    Declines (·.lastError) (decryption.unpicklePkDecryption hashes aes key pickled pubkey) ↔
      pubkey.all (fun pubkey => pkKeyLength ≤ pubkey.length) ∧
      (pickled.length % 4 = 1 ∨ (decryption.lastError = .INVALID_BASE64 ∧
        pickleFlaw hashes aes OlmPkDecryption.scan key pickled = .ok (some .truncated))) := by
  by_cases hroom : pubkey.any (fun pubkey => pubkey.length < pkKeyLength)
  · have hall : ¬pubkey.all (fun pubkey => pkKeyLength ≤ pubkey.length) := by
      cases pubkey with
      | none => cases hroom
      | some pubkey => simpa using hroom
    unfold unpicklePkDecryption
    rw [if_pos hroom]
    exact iff_of_false (fun h => nomatch failsWith_none.mp h) fun h => hall h.1
  · have hall : pubkey.all (fun pubkey => pkKeyLength ≤ pubkey.length) := by
      cases pubkey with
      | none => rfl
      | some pubkey => simpa using hroom
    rw [and_iff_right hall]
    refine refuses_object_iff (fun decryption code => { decryption with lastError := code })
      (finishUnpickle pickled pubkey) (unpicklePkDecryption_eq hroom decryption key pickled)
      (fun _ _ => rfl) ?_ scans_unpickle scan_ne
    rintro decryption ⟨object', h, -⟩
    exact finishUnpickle_ne_none pickled pubkey decryption object' h

end Pickles

/-! ## Group sessions -/

/-- `decode_base64` of a text over itself, and what the caller does then. -/
theorem refuses_decodeBase64_iff {σ α : Type} {lastError : σ → OlmErrorCode} {text : Bytes}
    {call : Bytes × Option ℕ → Checked (σ × Option α)}
    (hnone : ∀ buf, Declines lastError (call (buf, none)))
    (hsome : ∀ buf rawLength, ¬Declines lastError (call (buf, some rawLength))) :
    Declines lastError (decodeBase64 (.within 0) text.length text 0 >>= call) ↔
      text.length % 4 = 1 := by
  cases hlength : decodeBase64Length text.length with
  | none =>
    have hdecode : decodeBase64 (.within 0) text.length text 0 = .ok (text, none) := by
      rw [decodeBase64, hlength]
    rw [hdecode, Checked.ok_bind]
    exact iff_of_true (hnone text) (decodeBase64Length_eq_none.mp hlength)
  | some k =>
    obtain ⟨rest, hdecode⟩ := decodeBase64_within_of_length hlength
    rw [hdecode, Checked.ok_bind, ← decodeBase64Length_eq_none, hlength]
    exact iff_of_false (hsome _ k) (Option.some_ne_none k)

namespace InboundGroupSession

variable {prims : GroupPrimitives} {session : InboundGroupSession}

theorem refuses_fail {α : Type} {code : OlmErrorCode} :
    Declines (·.lastError) (session.fail (α := α) code) ↔ code = .INVALID_BASE64 := failsWith_none

theorem not_refuses_fail {α : Type} {code : OlmErrorCode} (h : code ≠ .INVALID_BASE64) :
    ¬Declines (·.lastError) (session.fail (α := α) code) := mt refuses_fail.mp h

theorem not_refuses_initGroupSessionKeys {keyBuf : Bytes} {exportFormat : Bool} :
    ¬Declines (·.lastError) (session.initGroupSessionKeys prims keyBuf exportFormat) := by
  unfold initGroupSessionKeys
  refine not_failsWith_bind fun version => ?_
  refine not_failsWith_ite (not_refuses_fail (by decide)) ?_
  refine not_failsWith_bind fun counter => not_failsWith_bind fun ratchet => ?_
  refine not_failsWith_bind fun signingKey => not_failsWith_ite not_failsWith_some ?_
  refine not_failsWith_bind fun message => not_failsWith_bind fun signature => ?_
  exact not_failsWith_ite (not_refuses_fail (by decide)) not_failsWith_some

theorem refuses_initFromSessionKey_iff {sessionKey : Bytes} {keyRawLength : ℕ}
    {exportFormat : Bool} :
    Declines (·.lastError) (session.initFromSessionKey prims sessionKey keyRawLength exportFormat) ↔
      sessionKey.length % 4 = 1 := by
  unfold initFromSessionKey
  cases hlength : decodeBase64Length sessionKey.length with
  | none => exact iff_of_true (refuses_fail.mpr rfl) (decodeBase64Length_eq_none.mp hlength)
  | some k =>
    rw [← decodeBase64Length_eq_none, hlength]
    refine iff_of_false ?_ (Option.some_ne_none k)
    refine not_failsWith_ite (not_refuses_fail (by decide)) ?_
    exact not_failsWith_bind fun keyBuf => not_refuses_initGroupSessionKeys

theorem refuses_groupDecryptMaxPlaintextLength_iff {message : Bytes} :
    Declines (·.lastError) (session.groupDecryptMaxPlaintextLength prims message) ↔
      message.length % 4 = 1 := by
  refine refuses_decodeBase64_iff (fun buf => refuses_fail.mpr rfl) fun buf rawLength => ?_
  refine not_failsWith_bind fun decodedResults => ?_
  refine not_failsWith_ite (not_refuses_fail (by decide)) ?_
  exact not_failsWith_ite (not_refuses_fail (by decide)) not_failsWith_some

/-- A ratchet that cannot be had leaves a code of its own. -/
theorem lastError_of_getMegolm_none {session' : InboundGroupSession} {messageIndex : UInt32}
    (h : session.getMegolm prims messageIndex = (session', none)) :
    session'.lastError = .UNKNOWN_MESSAGE_INDEX := by
  unfold getMegolm at h
  split at h
  · cases h
  · split at h
    · cases h
      rfl
    · cases h

theorem not_refuses_decryptDecoded {message : Bytes} {messageIndex : UInt32}
    {messageLength ciphertext ciphertextLength maxPlaintextLength : ℕ} :
    ¬Declines (·.lastError) (session.decryptDecoded prims message messageLength messageIndex
      ciphertext ciphertextLength maxPlaintextLength) := by
  unfold decryptDecoded
  refine not_failsWith_bind fun signature => not_failsWith_bind fun authenticated => ?_
  refine not_failsWith_ite (not_refuses_fail (by decide)) ?_
  refine not_failsWith_ite (not_refuses_fail (by decide)) ?_
  split
  · rename_i session' hnone
    intro h
    have hcode := failsWith_none.mp h
    rw [lastError_of_getMegolm_none hnone] at hcode
    cases hcode
  · refine not_failsWith_bind fun result => ?_
    cases result with
    | none => exact not_refuses_fail (by decide)
    | some plaintext => exact not_failsWith_some

theorem refuses_groupDecrypt_iff {message : Bytes} {maxPlaintextLength : ℕ} :
    Declines (·.lastError) (do
        let decryption ← session.groupDecrypt prims message maxPlaintextLength
        .ok (decryption.session, decryption.plaintext)) ↔ message.length % 4 = 1 := by
  unfold groupDecrypt
  rw [bind_assoc]
  refine refuses_decodeBase64_iff (fun buf => failsWith_none.mpr rfl) fun buf rawLength => ?_
  dsimp only
  unfold decrypt
  rw [bind_assoc]
  refine not_failsWith_bind fun decodedResults => ?_
  split
  · intro h
    exact nomatch failsWith_none.mp h
  · split
    · rw [bind_assoc]
      intro h
      obtain ⟨⟨session', plaintext⟩, hdecoded, h⟩ := failsWith_bind.mp h
      obtain ⟨session'', heq, hcode⟩ := h
      cases heq
      exact not_refuses_decryptDecoded ⟨session', hdecoded, hcode⟩
    · intro h
      exact nomatch failsWith_none.mp h

end InboundGroupSession

/-! ## Public key encryption and short authentication strings -/

theorem OlmPkEncryption.not_refuses_setRecipientKey {encryption : OlmPkEncryption} {key : Bytes} :
    ¬Declines (·.lastError) (encryption.setRecipientKey key) := by
  unfold setRecipientKey
  refine not_failsWith_ite (fun h => nomatch failsWith_none.mp h) ?_
  exact not_failsWith_bind fun recipientKey => not_failsWith_bind fun recipientKey =>
    not_failsWith_some

theorem OlmPkDecryption.refuses_decrypt_iff {prims : PkPrimitives} {decryption : OlmPkDecryption}
    {ephemeralKey mac ciphertext : Bytes} {maxPlaintextLength : ℕ} :
    Declines (·.lastError)
        (decryption.decrypt prims ephemeralKey mac ciphertext maxPlaintextLength) ↔
      OlmPkDecryption.maxPlaintextLength prims ciphertext.length ≤ maxPlaintextLength ∧
      (ciphertext.length % 4 = 1 ∨
        ephemeralKey.length ≠ encodeBase64Length CURVE25519_KEY_LENGTH ∨
        mac.length ≠ encodeBase64Length MAC_LENGTH) := by
  have hfail : ∀ code, Declines (·.lastError) (decryption.fail (α := Bytes) code) ↔
      code = .INVALID_BASE64 := fun code => failsWith_none
  unfold decrypt
  split
  · rename_i hroom
    exact iff_of_false (mt (hfail _).mp (by decide)) fun h => absurd h.1 (Nat.not_le.mpr hroom)
  · rename_i hroom
    rw [and_iff_right (Nat.le_of_not_lt hroom)]
    cases hlength : decodeBase64Length ciphertext.length with
    | none =>
      exact iff_of_true ((hfail _).mpr rfl) (.inl (decodeBase64Length_eq_none.mp hlength))
    | some k =>
      have hne : ¬ciphertext.length % 4 = 1 := by
        rw [← decodeBase64Length_eq_none, hlength]
        exact Option.some_ne_none k
      rw [or_iff_right hne]
      refine failsWith_ite_iff ((hfail _).mpr rfl) ?_
      refine not_failsWith_bind fun ephemeral => not_failsWith_bind fun ephemeral => ?_
      refine not_failsWith_bind fun rawMac => not_failsWith_bind fun ciphertext => ?_
      refine not_failsWith_bind fun result => ?_
      cases result with
      | none => exact mt (hfail _).mp (by decide)
      | some plaintext => exact not_failsWith_some

theorem OlmSAS.refuses_setTheirKey_iff {curve : Curve25519} {sas : OlmSAS} {theirKey : Bytes} :
    Declines (·.lastError) (sas.setTheirKey curve theirKey) ↔
      pubkeyLength ≤ theirKey.length ∧ theirKey.length % 4 = 1 := by
  unfold setTheirKey
  split
  · rename_i hshort
    exact iff_of_false (fun h => nomatch failsWith_none.mp h)
      fun h => absurd h.1 (Nat.not_le.mpr hshort)
  · rename_i hlong
    rw [and_iff_right (Nat.le_of_not_lt hlong)]
    refine refuses_decodeBase64_iff (fun buf => failsWith_none.mpr rfl) fun buf rawLength => ?_
    exact not_failsWith_bind fun theirKey => not_failsWith_some

/-! ## Every call -/

namespace TextCall

variable {K : Type}

/-- **What a call reports is up to the lengths.** -/
theorem reportsInvalidBase64_iff (library : Library K) (call : TextCall K) :
    call.ReportsInvalidBase64 library ↔ call.LengthRefused library := by
  cases call with
  | createOutboundSession session account identityKey signingKey preKey signature oneTimeKey =>
    refine Session.refuses_createOutboundSession_iff.trans ?_
    simp only [Option.any_some, decide_eq_true_eq, LengthRefused]
  | createOutboundSessionWithoutOtk =>
    refine Session.refuses_createOutboundSession_iff.trans ?_
    simp only [Option.any_none, Bool.false_eq_true, false_or, LengthRefused]
  | createInboundSession =>
    exact refuses_onDecoded_iff (Session.refuses_fail.mpr rfl)
      fun _ => Session.not_refuses_newInboundSession
  | createInboundSessionFrom =>
    exact refuses_withKey_iff (Session.refuses_fail.mpr rfl)
      fun _ _ => Session.not_refuses_newInboundSession
  | matchesInboundSession =>
    exact refuses_onDecoded_iff (Session.refuses_fail.mpr rfl)
      fun _ => Session.not_refuses_matchesRaw
  | matchesInboundSessionFrom =>
    exact refuses_withKey_iff (Session.refuses_fail.mpr rfl)
      fun _ _ => Session.not_refuses_matchesRaw
  | decryptMaxPlaintextLength =>
    exact refuses_onDecoded_iff (Session.refuses_fail.mpr rfl)
      fun _ => Session.not_refuses_decryptMaxPlaintextLength
  | decrypt session settled =>
    exact refuses_onDecoded_iff (Session.refuses_fail.mpr rfl)
      fun _ => Session.not_refuses_decrypt settled.noError
  | decryptSequential session settled =>
    exact refuses_onDecoded_iff (Session.refuses_fail.mpr rfl)
      fun _ => Session.not_refuses_decrypt settled.noError
  | ed25519Verify =>
    exact refuses_withKey_iff (failsWith_none.mpr rfl)
      fun _ _ => Utility.not_refuses_ed25519Verify
  | unpickleAccount => exact Account.refuses_olmUnpickleAccount_iff
  | unpickleSession => exact Session.refuses_olmUnpickleSession_iff
  | unpicklePkDecryption => exact OlmPkDecryption.refuses_unpicklePkDecryption_iff
  | unpickleOutboundGroupSession session =>
    exact refuses_unpickleGroupSession_iff (fun _ _ => rfl) session
  | unpickleInboundGroupSession session =>
    exact refuses_unpickleGroupSession_iff (fun _ _ => rfl) session
  | initInboundGroupSession => exact InboundGroupSession.refuses_initFromSessionKey_iff
  | importInboundGroupSession => exact InboundGroupSession.refuses_initFromSessionKey_iff
  | groupDecryptMaxPlaintextLength =>
    exact InboundGroupSession.refuses_groupDecryptMaxPlaintextLength_iff
  | groupDecrypt => exact InboundGroupSession.refuses_groupDecrypt_iff
  | pkEncryptionSetRecipientKey =>
    exact iff_of_false OlmPkEncryption.not_refuses_setRecipientKey fun h => h
  | pkDecrypt => exact OlmPkDecryption.refuses_decrypt_iff
  | sasSetTheirKey => exact OlmSAS.refuses_setTheirKey_iff

end TextCall

/-- Where texts that are not base64 are refused: `decode_base64`, the calls,
and what becomes of two texts. -/
structure RefusesOtherTexts {K : Type} (library : Library K) : Prop where
  decode : ∀ text,
    ((∃ raw, DecodesAlike text raw) ↔ IsBase64 text) ↔
      (text.length % 4 = 1 ∨ ∀ c ∈ text, c ∈ ENCODE_BASE64)
  call : ∀ call : TextCall K,
    ((∃ text ∈ call.texts, ¬IsBase64 text) → call.ReportsInvalidBase64 library) ↔
      (call.LengthRefused library ∨ ∀ text ∈ call.texts, IsBase64 text)
  /-- Texts of base64 are told apart. -/
  apart : ∀ text text' raw, IsBase64 text → IsBase64 text' → DifferInWhole text text' →
    DecodesAlike text raw → ¬DecodesAlike text' raw
  /-- But a text that is accepted is told apart from all others only if it is
  empty. -/
  apartFromAll : ∀ text raw, DecodesAlike text raw →
    ((∀ text', DifferInWhole text text' → ¬DecodesAlike text' raw) ↔ text = [])

/-- **When what is not base64 is refused.** -/
theorem refusesOtherTexts {K : Type} (library : Library K) : RefusesOtherTexts library where
  decode text := by
    rw [exists_decodesAlike_iff, IsBase64]
    tauto
  call call := by
    rw [call.reportsInvalidBase64_iff]
    constructor
    · intro h
      by_cases hother : ∃ text ∈ call.texts, ¬IsBase64 text
      · exact .inl (h hother)
      · exact .inr fun text htext => by_contra fun hnot => hother ⟨text, htext, hnot⟩
    · rintro (hrefused | hall) ⟨text, htext, hnot⟩
      · exact hrefused
      · exact absurd (hall text htext) hnot
  apart text text' raw h h' hdiffer hraw hraw' :=
    h.decode_ne h' hdiffer
      ((decodesAlike_iff.mp hraw).2.symm.trans (decodesAlike_iff.mp hraw').2)
  apartFromAll text raw hraw := by
    constructor
    · intro h
      by_contra hne
      obtain ⟨text', hdiffer, hraw'⟩ := exists_decodesAlike_of_ne_nil hne hraw
      exact h text' hdiffer hraw'
    · rintro rfl text' ⟨hlength, i, hi, hne⟩
      rw [List.eq_nil_of_length_eq_zero hlength.symm] at hne
      exact absurd rfl hne

/-- Four exclamation marks are accepted, as a text and as the message of a
group session, and decode like four question marks. -/
theorem not_refused_exclamationMarks :
    (∃ raw, DecodesAlike [33, 33, 33, 33] raw ∧ DecodesAlike [63, 63, 63, 63] raw) ∧
    ¬IsBase64 [33, 33, 33, 33] ∧
    ¬Declines (·.lastError)
      (InboundGroupSession.new.groupDecryptMaxPlaintextLength .symbolic [33, 33, 33, 33]) := by
  refine ⟨⟨[255, 255, 255], ?_, ?_⟩, by decide, ?_⟩
  · exact decodesAlike_iff.mpr ⟨by decide, by decide⟩
  · exact decodesAlike_iff.mpr ⟨by decide, by decide⟩
  · rw [InboundGroupSession.refuses_groupDecryptMaxPlaintextLength_iff]
    decide

end Olm
