import Olm.Session.Errors
import Olm.Session.Setup

/-!
# What a failed set-up leaves

`decrypt` and `encrypt` store nothing before the last of their checks. The
two functions that set a session up do: `new_outbound_session` clears
`received_message` and stores its four keys before it verifies the
signature, `new_inbound_session` stores the keys of the message before it
looks for a ratchet key and asks the account for the private keys.
-/

namespace Olm.Session

variable {K : Type} {prims : Primitives K} {session session' : Session K} {localAccount : Account}
  {identityKey preKey : Curve25519PublicKey} {signingKey : Ed25519PublicKey}
  {preKeySignature : Ed25519Signature} {random : Bytes} {oneTimeKey : Option Curve25519PublicKey}
  {theirIdentityKey : Option Curve25519PublicKey} {message : Bytes}

/-- Only `last_error` differs. -/
def KeptBut (session session' : Session K) : Prop :=
  session' = { session with lastError := session'.lastError }

theorem keptBut_lastError (session : Session K) (code : OlmErrorCode) :
    KeptBut session { session with lastError := code } := rfl

/-! ## The sender -/

/-- What `new_outbound_session` stores before it verifies. -/
def storeOutbound (prims : Primitives K) (session : Session K) (localAccount : Account)
    (base : FixedBytes CURVE25519_KEY_LENGTH) (preKey : Curve25519PublicKey)
    (oneTimeKey : Option Curve25519PublicKey) : Session K :=
  { session with
    receivedMessage := false
    aliceIdentityKey := localAccount.identityKeys.curve25519Key.publicKey
    aliceBaseKey := (prims.curve.generateKey base).publicKey
    bobOneTimeKey := oneTimeKey.getD preKey
    bobPrekey := preKey }

/-- **The exits of `new_outbound_session` that fail.** The first of them is
taken before anything is stored. -/
theorem newOutboundSession_eq_none
    (h : session.newOutboundSession prims localAccount identityKey signingKey preKey
      preKeySignature random oneTimeKey = .ok (session', none)) :
    (random.length < newOutboundSessionRandomLength ∧
      session' = { session with lastError := .NOT_ENOUGH_RANDOM }) ∨
    (newOutboundSessionRandomLength ≤ random.length ∧
      ∃ base, loadArray CURVE25519_KEY_LENGTH random 0 = .ok base ∧
        session' = { storeOutbound prims session localAccount base preKey oneTimeKey with
          lastError := .BAD_SIGNATURE }) := by
  unfold newOutboundSession at h
  split at h
  · rename_i hrandom
    exact .inl ⟨hrandom, (eq_of_fail h).1⟩
  · rename_i hrandom
    simp only [Checked.bind_eq_ok] at h
    obtain ⟨base, hbase, ratchet, -, h⟩ := h
    split at h
    · exact .inr ⟨Nat.le_of_not_lt hrandom, base, hbase, (eq_of_fail h).1⟩
    · simp at h

/-- The session is one that this call would store nothing new in: it has
received nothing and holds the call's four keys. -/
def HoldsOutbound (prims : Primitives K) (session : Session K) (localAccount : Account)
    (random : Bytes) (preKey : Curve25519PublicKey) (oneTimeKey : Option Curve25519PublicKey) :
    Prop :=
  ∃ base, loadArray CURVE25519_KEY_LENGTH random 0 = .ok base ∧
    session.receivedMessage = false ∧
    session.aliceIdentityKey = localAccount.identityKeys.curve25519Key.publicKey ∧
    session.aliceBaseKey = (prims.curve.generateKey base).publicKey ∧
    session.bobOneTimeKey = oneTimeKey.getD preKey ∧
    session.bobPrekey = preKey

theorem keptBut_storeOutbound_iff {base : FixedBytes CURVE25519_KEY_LENGTH} {code : OlmErrorCode}
    (hbase : loadArray CURVE25519_KEY_LENGTH random 0 = .ok base) :
    KeptBut session { storeOutbound prims session localAccount base preKey oneTimeKey with
        lastError := code } ↔
      HoldsOutbound prims session localAccount random preKey oneTimeKey := by
  cases session
  simp only [KeptBut, storeOutbound, HoldsOutbound, mk.injEq, hbase, Except.ok.injEq,
    exists_eq_left', true_and]
  constructor
  · rintro ⟨hreceived, hidentity, hbaseKey, hone, hprekey⟩
    exact ⟨hreceived.symm, hidentity.symm, hbaseKey.symm, hone.symm, hprekey.symm⟩
  · rintro ⟨hreceived, hidentity, hbaseKey, hone, hprekey⟩
    exact ⟨hreceived.symm, hidentity.symm, hbaseKey.symm, hone.symm, hprekey.symm⟩

/-! ## The receiver -/

/-- The message is refused by a check made before anything is stored: of
its fields, or of the identity key it names. -/
def RefusedEarly (theirIdentityKey : Option Curve25519PublicKey) (message : Bytes) : Prop :=
  ∃ reader, decodeOneTimeKeyMessage message 0 message.length = .ok reader ∧
    (checkMessageFields reader theirIdentityKey.isSome = false ∨
      identityKeyDiffers message reader.identityKey theirIdentityKey = .ok true)

/-- The session holds the four keys that the message names. -/
def HoldsKeysOf (session : Session K) (message : Bytes) : Prop :=
  ∃ reader, decodeOneTimeKeyMessage message 0 message.length = .ok reader ∧
    loadKey message reader.identityKey = .ok session.aliceIdentityKey ∧
    loadKey message reader.baseKey = .ok session.aliceBaseKey ∧
    loadKey message reader.oneTimeKey = .ok session.bobOneTimeKey ∧
    loadKey message reader.prekey = .ok session.bobPrekey

/-- The session with the keys that the fields of a message hold, as they
were read. -/
structure Stored (session : Session K) (message : Bytes) (reader : PreKeyMessageReader)
    (stored : Session K) : Prop where
  identityKey : loadKey message reader.identityKey = .ok stored.aliceIdentityKey
  baseKey : loadKey message reader.baseKey = .ok stored.aliceBaseKey
  oneTimeKey : loadKey message reader.oneTimeKey = .ok stored.bobOneTimeKey
  prekey : loadKey message reader.prekey = .ok stored.bobPrekey
  ratchet : stored.ratchet = session.ratchet
  receivedMessage : stored.receivedMessage = session.receivedMessage

/-- A lookup that fails stores nothing more. -/
theorem newInboundSessionFromKeys_eq_none {ratchetKey : Curve25519PublicKey}
    (h : session.newInboundSessionFromKeys prims localAccount ratchetKey = .ok (session', none)) :
    session' = { session with lastError := .BAD_MESSAGE_KEY_ID } := by
  unfold newInboundSessionFromKeys at h
  dsimp only at h
  split at h
  · exact (eq_of_fail h).1
  · split at h
    · exact (eq_of_fail h).1
    · simp at h

/-- **The exits of `new_inbound_session` that fail**: by a check of the
first stage, or with the keys of the message stored. -/
theorem newInboundSession_eq_none
    (h : session.newInboundSession prims localAccount theirIdentityKey message =
      .ok (session', none)) :
    (RefusedEarly theirIdentityKey message ∧ KeptBut session session') ∨
    (¬ RefusedEarly theirIdentityKey message ∧
      ∃ reader, decodeOneTimeKeyMessage message 0 message.length = .ok reader ∧
        Stored session message reader session') := by
  unfold newInboundSession at h
  obtain ⟨reader, hreader, h⟩ := Checked.bind_eq_ok.mp h
  have hearly : RefusedEarly theirIdentityKey message ↔
      (checkMessageFields reader theirIdentityKey.isSome = false ∨
        identityKeyDiffers message reader.identityKey theirIdentityKey = .ok true) := by
    simp only [RefusedEarly, hreader, Except.ok.injEq, exists_eq_left']
  rw [hearly]
  split at h
  · rename_i hchecked
    obtain ⟨rfl, -⟩ := eq_of_fail h
    exact .inl ⟨.inl (by simpa using hchecked), keptBut_lastError session _⟩
  · rename_i hchecked
    obtain ⟨differs, hdiffers, h⟩ := Checked.bind_eq_ok.mp h
    split at h
    · rename_i htrue
      obtain ⟨rfl, -⟩ := eq_of_fail h
      exact .inl ⟨.inr (by rw [hdiffers, htrue]), keptBut_lastError session _⟩
    · rename_i hfalse
      simp only [Checked.bind_eq_ok] at h
      obtain ⟨identityKey, hidentity, baseKey, hbase, oneTimeKey, hone, prekey, hprekey,
        body, -, messageReader, -, h⟩ := h
      have hlate : ¬ (checkMessageFields reader theirIdentityKey.isSome = false ∨
          identityKeyDiffers message reader.identityKey theirIdentityKey = .ok true) := by
        rintro (hnot | htrue)
        · simp [hnot] at hchecked
        · rw [hdiffers, Except.ok.injEq] at htrue
          exact hfalse htrue
      refine .inr ⟨hlate, reader, hreader, ?_⟩
      -- the last two stages fail with the keys in place
      split at h
      · obtain ⟨rfl, -⟩ := eq_of_fail h
        exact ⟨hidentity, hbase, hone, hprekey, rfl, rfl⟩
      · obtain ⟨ratchetKey, -, h⟩ := Checked.bind_eq_ok.mp h
        rw [newInboundSessionFromKeys_eq_none h]
        exact ⟨hidentity, hbase, hone, hprekey, rfl, rfl⟩

/-- A session with keys stored is the one before where it held them. -/
theorem Stored.keptBut_iff {reader : PreKeyMessageReader}
    (h : Stored session message reader session')
    (hreader : decodeOneTimeKeyMessage message 0 message.length = .ok reader) :
    KeptBut session session' ↔ HoldsKeysOf session message := by
  have hholds : HoldsKeysOf session message ↔
      session'.aliceIdentityKey = session.aliceIdentityKey ∧
      session'.aliceBaseKey = session.aliceBaseKey ∧
      session'.bobOneTimeKey = session.bobOneTimeKey ∧
      session'.bobPrekey = session.bobPrekey := by
    simp only [HoldsKeysOf, hreader, Except.ok.injEq, exists_eq_left', h.identityKey, h.baseKey,
      h.oneTimeKey, h.prekey]
  rw [hholds, KeptBut]
  have hratchet := h.ratchet
  have hreceived := h.receivedMessage
  cases session
  cases session'
  simp only [mk.injEq] at hratchet hreceived ⊢
  simp [hratchet, hreceived]

/-! ## Both -/

/-- **When a failed set-up changes nothing.** The sender's, where it fails
for want of random or the session holds what it would store; the
receiver's, where the message is refused early or names the keys the
session holds. Any other failure leaves the session with keys of a session
that was not set up. -/
theorem setup_failure_iff (prims : Primitives K) (session session' : Session K)
    (localAccount : Account) :
    (∀ (identityKey preKey : Curve25519PublicKey) (signingKey : Ed25519PublicKey)
      (preKeySignature : Ed25519Signature) (random : Bytes)
      (oneTimeKey : Option Curve25519PublicKey),
      session.newOutboundSession prims localAccount identityKey signingKey preKey preKeySignature
        random oneTimeKey = .ok (session', none) →
      (KeptBut session session' ↔
        random.length < newOutboundSessionRandomLength ∨
        HoldsOutbound prims session localAccount random preKey oneTimeKey)) ∧
    (∀ (theirIdentityKey : Option Curve25519PublicKey) (message : Bytes),
      session.newInboundSession prims localAccount theirIdentityKey message =
        .ok (session', none) →
      (KeptBut session session' ↔
        RefusedEarly theirIdentityKey message ∨ HoldsKeysOf session message)) := by
  constructor
  · intro identityKey preKey signingKey preKeySignature random oneTimeKey h
    rcases newOutboundSession_eq_none h with ⟨hrandom, rfl⟩ | ⟨hrandom, base, hbase, rfl⟩
    · exact iff_of_true (keptBut_lastError session _) (.inl hrandom)
    · rw [keptBut_storeOutbound_iff hbase]
      exact ⟨.inr, fun hor => hor.resolve_left (Nat.not_lt.mpr hrandom)⟩
  · intro theirIdentityKey message h
    rcases newInboundSession_eq_none h with ⟨hearly, hkept⟩ | ⟨hlate, reader, hreader, hstored⟩
    · exact iff_of_true hkept (.inl hearly)
    · rw [hstored.keptBut_iff hreader]
      exact ⟨.inr, fun hor => hor.resolve_left hlate⟩

set_option maxRecDepth 8000 in
/-- A bad signature, on a new session, and a message that names no key of
the account, on a session that had been set up. -/
theorem not_keptBut :
    (∃ session', (Session.new SymbolicKey.zero).newOutboundSession .rejecting Account.sevens
        .nines (FixedBytes.zero _) .nines (FixedBytes.zero _) (List.replicate 64 7) none =
          .ok (session', none) ∧
      session'.lastError = .BAD_SIGNATURE ∧ ¬ KeptBut (Session.new SymbolicKey.zero) session') ∧
    ∃ session session', (Session.new SymbolicKey.zero).newInboundSession .symbolic Account.sevens
        none zeroPreKeyMessage = .ok (session, some ()) ∧
      session.newInboundSession .symbolic Account.sevens none ninesPreKeyMessage =
        .ok (session', none) ∧
      session'.lastError = .BAD_MESSAGE_KEY_ID ∧ ¬ KeptBut session session' := by
  constructor
  · refine ⟨_, rfl, rfl, fun h => ?_⟩
    have hkey := congrArg Session.bobPrekey h
    exact absurd hkey (by decide +kernel)
  · refine ⟨_, _, rfl, rfl, rfl, fun h => ?_⟩
    have hkey := congrArg Session.bobPrekey h
    exact absurd hkey (by decide +kernel)

/-- The session that was set up, after a message that names no key of the account. -/
def misled : Session SymbolicKey :=
  match settingUp.newInboundSession .symbolic Account.sevens none ninesPreKeyMessage with
  | .ok (session, _) => session
  | .error _ => Session.new .zero

/-- What is read of that message. -/
def ninesReader : PreKeyMessageReader where
  version := 3
  prekey := ⟨some 3, 32⟩
  oneTimeKey := ⟨some 37, 32⟩
  baseKey := ⟨some 71, 32⟩
  identityKey := ⟨some 105, 32⟩
  message := ⟨some 139, 43⟩

theorem decode_ninesPreKeyMessage :
    decodeOneTimeKeyMessage ninesPreKeyMessage 0 ninesPreKeyMessage.length = .ok ninesReader := by
  decide +kernel

/-- A bad signature is found after the keys were stored. A message that names no key
of the account leaves a session with its keys, and the second time nothing new. -/
theorem setup_failure_iff_stored :
    (∃ session', (Session.new SymbolicKey.zero).newOutboundSession .rejecting Account.sevens
        .nines (FixedBytes.zero _) .nines (FixedBytes.zero _) (List.replicate 64 7) none =
          .ok (session', none) ∧
      ¬ KeptBut (Session.new SymbolicKey.zero) session') ∧
    (settingUp.newInboundSession .symbolic Account.sevens none ninesPreKeyMessage =
        .ok (misled, none) ∧ ¬ KeptBut settingUp misled) ∧
    ∃ session', misled.newInboundSession .symbolic Account.sevens none ninesPreKeyMessage =
        .ok (session', none) ∧ KeptBut misled session' := by
  refine ⟨?_, ?_, ?_⟩
  · obtain ⟨session', hout⟩ : ∃ session', (Session.new SymbolicKey.zero).newOutboundSession
        .rejecting Account.sevens .nines (FixedBytes.zero _) .nines (FixedBytes.zero _)
        (List.replicate 64 7) none = .ok (session', none) := ⟨_, rfl⟩
    refine ⟨session', hout, fun hkept => ?_⟩
    rcases ((setup_failure_iff .rejecting _ _ _).1 _ _ _ _ _ _ hout).mp hkept with
      hshort | ⟨base, -, -, -, -, -, hprekey⟩
    · exact absurd hshort (by decide)
    · exact absurd hprekey (by decide)
  · have hin : settingUp.newInboundSession .symbolic Account.sevens none ninesPreKeyMessage =
        .ok (misled, none) := by decide +kernel
    refine ⟨hin, fun hkept => ?_⟩
    rcases ((setup_failure_iff .symbolic _ _ _).2 _ _ hin).mp hkept with
      ⟨reader, hreader, hearly⟩ | ⟨reader, hreader, -, -, -, hprekey⟩
    · obtain rfl := Except.ok.inj (decode_ninesPreKeyMessage.symm.trans hreader)
      exact absurd hearly (by decide +kernel)
    · obtain rfl := Except.ok.inj (decode_ninesPreKeyMessage.symm.trans hreader)
      exact absurd hprekey (by decide +kernel)
  · obtain ⟨session', hin⟩ : ∃ session', misled.newInboundSession .symbolic Account.sevens none
        ninesPreKeyMessage = .ok (session', none) := 
      ⟨{ misled with lastError := .BAD_MESSAGE_KEY_ID }, by decide +kernel⟩
    refine ⟨session', hin, ((setup_failure_iff .symbolic _ _ _).2 _ _ hin).mpr (.inr
      ⟨ninesReader, decode_ninesPreKeyMessage, ?_⟩)⟩
    decide +kernel

end Olm.Session
