import Olm.Base64.RoundTrip
import Olm.Group.Model
import Olm.Symbolic

/-!
# A session key is read back

What `olm_outbound_group_session_key` exports, and that
`olm_init_inbound_group_session` makes of it a session with the sender's
ratchet and the public part of its signing key.
-/

namespace Olm

/-! ## Counters -/

@[simp] theorem encodeCounter_length (n : ℕ) (counter : UInt32) :
    (encodeCounter n counter).length = n := by
  induction n generalizing counter with
  | zero => rfl
  | succ n ih => simp only [encodeCounter, List.length_cons, ih]

theorem toNat_shiftLeft_eight (v : UInt32) : (v <<< 8).toNat = v.toNat % 2 ^ 24 * 256 := by
  have hv := v.toNat_lt
  simp only [UInt32.toNat_shiftLeft, Nat.shiftLeft_eq, UInt32.reduceToNat, Nat.reduceMod,
    Nat.reducePow]
  omega

/-- The top byte of a counter. -/
theorem toNat_topByte (v : UInt32) :
    ((0xFF : UInt32) &&& v >>> 24).toUInt8.toNat = v.toNat / 2 ^ 24 := by
  have hv := v.toNat_lt
  have hand : ((0xFF : UInt32) &&& v >>> 24).toNat = v.toNat / 2 ^ 24 % 2 ^ 8 := by
    rw [UInt32.toNat_and, UInt32.toNat_shiftRight, Nat.shiftRight_eq_div_pow, Nat.land_comm]
    exact Nat.and_two_pow_sub_one_eq_mod _ 8
  rw [UInt32.toNat_toUInt8, hand]
  omega

/-- A byte shifted in. -/
theorem toNat_shiftLeft_or (v : UInt32) (b : UInt8) :
    (v <<< 8 ||| b.toUInt32).toNat = v.toNat % 2 ^ 24 * 256 + b.toNat := by
  rw [UInt32.toNat_or, toNat_shiftLeft_eight, UInt8.toNat_toUInt32, ← shiftLeft_or_toNat,
    Nat.shiftLeft_eq]

/-- A counter of 32 bits is its four bytes. -/
theorem decodeCounter_encodeCounter (counter : UInt32) :
    decodeCounter (encodeCounter 4 counter) = counter := by
  have hc := counter.toNat_lt
  rw [← UInt32.toNat_inj]
  simp only [decodeCounter, encodeCounter, List.foldl_cons, List.foldl_nil, toNat_shiftLeft_or,
    toNat_topByte, toNat_shiftLeft_eight]
  have hzero : (0 : UInt32).toNat = 0 := rfl
  omega

/-! ## Ratchets -/

theorem loadRatchet_of_drop_eq_append {buf rest : Bytes} {pos : ℕ} {m : Megolm}
    (h : buf.drop pos = m.getData ++ rest) : loadRatchet buf pos = .ok m.data := by
  unfold Megolm.getData at h
  simp only [List.append_assoc] at h
  have h1 := drop_add_of_drop_eq_append _ h
  have h2 := drop_add_of_drop_eq_append _ h1
  have h3 := drop_add_of_drop_eq_append _ h2
  simp only [FixedBytes.length_val, Nat.add_assoc] at h1 h2 h3
  have hload2 : loadArray MEGOLM_RATCHET_PART_LENGTH buf (pos + MEGOLM_RATCHET_PART_LENGTH * 2) =
      .ok (m.data 2) := loadArray_of_drop_eq_append h2
  have hload3 : loadArray MEGOLM_RATCHET_PART_LENGTH buf (pos + MEGOLM_RATCHET_PART_LENGTH * 3) =
      .ok (m.data 3) := loadArray_of_drop_eq_append h3
  unfold loadRatchet
  rw [loadArray_of_drop_eq_append h, Checked.ok_bind, loadArray_of_drop_eq_append h1,
    Checked.ok_bind, hload2, Checked.ok_bind, hload3, Checked.ok_bind]
  congr 1
  funext part
  match part with
  | 0 => rfl
  | 1 => rfl
  | 2 => rfl
  | 3 => rfl

/-! ## Session keys -/

/-- What both formats of a session key start with: the version, the counter
and the parts of the ratchet, and the public part of the signing key. -/
def sessionKeyBody (version : UInt8) (m : Megolm) (signingKey : Ed25519PublicKey) : Bytes :=
  version :: (encodeCounter 4 m.counter ++ (m.getData ++ signingKey.val))

@[simp] theorem sessionKeyBody_length (version : UInt8) (m : Megolm)
    (signingKey : Ed25519PublicKey) :
    (sessionKeyBody version m signingKey).length = SESSION_EXPORT_RAW_LENGTH := by
  simp only [sessionKeyBody, List.length_cons, List.length_append, encodeCounter_length,
    Megolm.getData_length, FixedBytes.length_val]
  rfl

namespace OutboundGroupSession

variable (prims : GroupPrimitives)

/-- The session key a sender exports, before it is encoded: signed. -/
def sessionKeyRaw (session : OutboundGroupSession) : Bytes :=
  let body := sessionKeyBody SESSION_KEY_VERSION session.ratchet session.signingKey.publicKey
  body ++ (prims.ed25519.sign session.signingKey body).val

theorem sessionKeyRaw_length (session : OutboundGroupSession) :
    (session.sessionKeyRaw prims).length = SESSION_KEY_RAW_LENGTH := by
  simp only [sessionKeyRaw, List.length_append, sessionKeyBody_length, FixedBytes.length_val]

/-- `olm_outbound_group_session_key` returns the signed key, encoded. -/
theorem outboundGroupSessionKey_append (session : OutboundGroupSession) {room post : Bytes}
    (hroom : room.length = encodeBase64Length SESSION_KEY_RAW_LENGTH) :
    session.outboundGroupSessionKey prims (room ++ post) =
      .ok (session, some (Base64.encode (session.sessionKeyRaw prims) ++ post,
        encodeBase64Length SESSION_KEY_RAW_LENGTH)) := by
  have hlengths : encodeBase64Length SESSION_KEY_RAW_LENGTH =
      encodeBase64Length SESSION_KEY_RAW_LENGTH - SESSION_KEY_RAW_LENGTH +
        (SESSION_EXPORT_RAW_LENGTH + ED25519_SIGNATURE_LENGTH) := by decide
  obtain ⟨gap, rest, rfl, hgap, hrest⟩ := exists_cut (hroom.trans hlengths)
  obtain ⟨old, oldSignature, rfl, hold, holdSignature⟩ := exists_cut hrest
  obtain ⟨body, hbody⟩ : ∃ body, sessionKeyBody SESSION_KEY_VERSION session.ratchet
    session.signingKey.publicKey = body := ⟨_, rfl⟩
  have hlen : body.length = SESSION_EXPORT_RAW_LENGTH := by rw [← hbody, sessionKeyBody_length]
  have hraw : session.sessionKeyRaw prims =
      body ++ (prims.ed25519.sign session.signingKey body).val := by
    rw [sessionKeyRaw, hbody]
  -- the parts go one after the other, which is the body
  have hwrite : writeAt (gap ++ (old ++ (oldSignature ++ post))) gap.length body =
      .ok (gap ++ (body ++ (oldSignature ++ post))) :=
    writeAt_append gap (oldSignature ++ post) (hlen.trans hold.symm)
  have hread : readBytes (gap ++ (body ++ (oldSignature ++ post))) gap.length body.length = .ok body :=
    readBytes_append gap body (oldSignature ++ post)
  have hsign : writeAt (gap ++ (body ++ (oldSignature ++ post))) (gap ++ body).length
      (prims.ed25519.sign session.signingKey body).val =
      .ok (gap ++ (session.sessionKeyRaw prims ++ post)) := by
    have hsignature : (prims.ed25519.sign session.signingKey body).val.length =
        oldSignature.length := by rw [FixedBytes.length_val, holdSignature]
    have h := writeAt_append (gap ++ body) post hsignature
    rw [hraw]
    simpa only [List.append_assoc] using h
  have hrawLength := session.sessionKeyRaw_length prims
  have hencode := encodeBase64_within post (by
    rw [hrawLength, hgap]
    decide : gap.length + (session.sessionKeyRaw prims).length =
      encodeBase64Length (session.sessionKeyRaw prims).length)
  rw [hrawLength] at hencode
  unfold outboundGroupSessionKey
  dsimp only
  rw [if_neg (by rw [List.length_append, hroom]; omega),
    writeAt_bind_writeAt _ (by simp), writeAt_bind_writeAt _ (by simp),
    writeAt_bind_writeAt _ (by simp; omega)]
  rw [sessionKeyBody] at hbody
  simp only [List.append_assoc, List.cons_append, List.nil_append, hbody]
  have hend : gap.length + 1 + 4 + MEGOLM_RATCHET_LENGTH + ED25519_PUBLIC_KEY_LENGTH =
      (gap ++ body).length := by
    rw [List.length_append, hlen]
    rfl
  have hinput : (gap ++ body).length - gap.length = body.length := by
    rw [List.length_append, Nat.add_sub_cancel_left]
  rw [← hgap, hwrite, Checked.ok_bind, hend, hinput, hread, Checked.ok_bind, hsign,
    Checked.ok_bind, hencode, Checked.ok_bind]

/-- And nothing else. -/
theorem outboundGroupSessionKey_eq_some {prims : GroupPrimitives}
    {session session' : OutboundGroupSession} {key buf : Bytes} {length : ℕ}
    (h : session.outboundGroupSessionKey prims key = .ok (session', some (buf, length))) :
    session' = session ∧ buf.take length = Base64.encode (session.sessionKeyRaw prims) := by
  by_cases hroom : encodeBase64Length SESSION_KEY_RAW_LENGTH ≤ key.length
  · obtain ⟨room, post, rfl, hlen, -⟩ := exists_cut
      (n := key.length - encodeBase64Length SESSION_KEY_RAW_LENGTH)
      (by omega : key.length = encodeBase64Length SESSION_KEY_RAW_LENGTH + _)
    rw [outboundGroupSessionKey_append prims session hlen] at h
    cases h
    refine ⟨rfl, List.take_left' ?_⟩
    rw [Base64.encode_length, sessionKeyRaw_length]
  · unfold outboundGroupSessionKey at h
    dsimp only at h
    rw [if_pos (by omega)] at h
    cases h

end OutboundGroupSession

namespace InboundGroupSession

variable (prims : GroupPrimitives) (session : InboundGroupSession)

/-- What a session key puts in a session. -/
def installed (m : Megolm) (signingKey : Ed25519PublicKey) : InboundGroupSession :=
  { session with initialRatchet := m, latestRatchet := m, signingKey := signingKey }

/-- A key in either format is read back, and its signature checked where it
has one. -/
theorem initGroupSessionKeys_append {keyBuf trailer : Bytes} {m : Megolm}
    {signingKey : Ed25519PublicKey} {exportFormat : Bool}
    (h : keyBuf = sessionKeyBody (if exportFormat then SESSION_EXPORT_VERSION
      else SESSION_KEY_VERSION) m signingKey ++ trailer) :
    session.initGroupSessionKeys prims keyBuf exportFormat =
      if exportFormat then .ok (session.installed m signingKey, some ())
      else loadArray ED25519_SIGNATURE_LENGTH keyBuf SESSION_EXPORT_RAW_LENGTH >>= fun signature =>
        if prims.ed25519.verify signingKey (sessionKeyBody SESSION_KEY_VERSION m signingKey)
            signature then
          .ok ({ session.installed m signingKey with signingKeyVerified := true }, some ())
        else (session.installed m signingKey).fail .BAD_SIGNATURE := by
  obtain ⟨version, hversion⟩ : ∃ version, (if exportFormat then SESSION_EXPORT_VERSION
    else SESSION_KEY_VERSION) = version := ⟨_, rfl⟩
  have hbody := sessionKeyBody_length version m signingKey
  rw [hversion] at h
  -- the fields follow one another: version, counter, ratchet, key
  have hdrop : keyBuf.drop 0 = version :: (encodeCounter 4 m.counter ++
      (m.getData ++ (signingKey.val ++ trailer))) := by
    simp only [h, sessionKeyBody, List.drop_zero, List.cons_append, List.append_assoc]
  have hcounter : keyBuf.drop 1 = encodeCounter 4 m.counter ++
      (m.getData ++ (signingKey.val ++ trailer)) := drop_add_of_drop_eq_append [version] hdrop
  have hratchet := drop_add_of_drop_eq_append _ hcounter
  have hkey := drop_add_of_drop_eq_append _ hratchet
  have hlen : keyBuf.length = SESSION_EXPORT_RAW_LENGTH + trailer.length := by
    rw [h, List.length_append, hbody]
  have hreadCounter := readBytes_of_drop_eq_append _ hcounter (by
    have hone : 1 ≤ SESSION_EXPORT_RAW_LENGTH := by decide
    omega)
  have hreadBody : readBytes keyBuf 0 SESSION_EXPORT_RAW_LENGTH =
      .ok (sessionKeyBody version m signingKey) := by
    rw [← hbody]
    exact readBytes_of_drop_eq_append trailer h (Nat.zero_le _)
  simp only [encodeCounter_length, Megolm.getData_length] at hreadCounter hratchet hkey
  unfold initGroupSessionKeys
  dsimp only
  rw [readByte_of_drop_eq_cons hdrop, Checked.ok_bind, hversion, if_neg (not_not.mpr rfl),
    hreadCounter, Checked.ok_bind, loadRatchet_of_drop_eq_append hratchet, Checked.ok_bind,
    loadArray_of_drop_eq_append hkey, Checked.ok_bind, decodeCounter_encodeCounter]
  cases exportFormat with
  | true => rfl
  | false =>
    have hend : 1 + 4 + MEGOLM_RATCHET_LENGTH + ED25519_PUBLIC_KEY_LENGTH =
      SESSION_EXPORT_RAW_LENGTH := rfl
    rw [if_neg Bool.false_ne_true, if_neg Bool.false_ne_true, hend, hreadBody, Checked.ok_bind]
    congr 1
    funext signature
    rw [← hversion, if_neg Bool.false_ne_true]
    cases prims.ed25519.verify signingKey (sessionKeyBody SESSION_KEY_VERSION m signingKey)
      signature with
    | true => rfl
    | false => rfl

/-- **The session key a sender exports is accepted**, and gives a receiver
the sender's ratchet and the public part of its key. -/
theorem initInboundGroupSession_sessionKeyRaw (haccepts : prims.ed25519.Accepts)
    {outbound : OutboundGroupSession}
    (hsigning : ∃ random, outbound.signingKey = prims.ed25519.generateKey random) :
    session.initInboundGroupSession prims (Base64.encode (outbound.sessionKeyRaw prims)) =
      .ok ({ session.installed outbound.ratchet outbound.signingKey.publicKey with
        signingKeyVerified := true }, some ()) := by
  obtain ⟨random, hrandom⟩ := hsigning
  have hlen := outbound.sessionKeyRaw_length prims
  have hraw : outbound.sessionKeyRaw prims =
      sessionKeyBody SESSION_KEY_VERSION outbound.ratchet outbound.signingKey.publicKey ++
        ((prims.ed25519.sign outbound.signingKey (sessionKeyBody SESSION_KEY_VERSION
          outbound.ratchet outbound.signingKey.publicKey)).val ++ []) := by
    rw [List.append_nil]
    rfl
  have hsignature : (outbound.sessionKeyRaw prims).drop SESSION_EXPORT_RAW_LENGTH =
      (prims.ed25519.sign outbound.signingKey (sessionKeyBody SESSION_KEY_VERSION
        outbound.ratchet outbound.signingKey.publicKey)).val ++ [] := by
    rw [hraw]
    exact List.drop_left' (sessionKeyBody_length ..)
  unfold initInboundGroupSession initFromSessionKey
  rw [Base64.encode_length, decodeBase64Length_encodeBase64Length, hlen]
  dsimp only
  rw [if_neg (not_not.mpr rfl), ← hlen, ← Base64.encode_length, decodeBase64_object _ (by simp),
    Checked.ok_bind, @initGroupSessionKeys_append prims session _ _ _ _ false hraw,
    if_neg Bool.false_ne_true, loadArray_of_drop_eq_append hsignature, Checked.ok_bind, hrandom,
    if_pos (haccepts random _)]

/-- The session key of the sender at its limit, in any session. -/
theorem initInboundGroupSession_atLimit :
    session.initInboundGroupSession .symbolic
        (Base64.encode (OutboundGroupSession.atLimit.sessionKeyRaw .symbolic)) =
      .ok ({ session.installed OutboundGroupSession.atLimit.ratchet
        OutboundGroupSession.atLimit.signingKey.publicKey with signingKeyVerified := true },
        some ()) :=
  session.initInboundGroupSession_sessionKeyRaw .symbolic Ed25519.accepting_accepts
    ⟨FixedBytes.zero _, rfl⟩

/-- A string of the length and the version of a session key: the keys of the
session are overwritten by what it holds. -/
def overwrites (sessionKey : Bytes) (keyRawLength : ℕ) (version : UInt8) : Bool :=
  decodeBase64Length sessionKey.length == some keyRawLength &&
    (Base64.decode sessionKey).head? == some version

theorem overwrites_encode (raw : Bytes) (keyRawLength : ℕ) (version : UInt8) :
    overwrites (Base64.encode raw) keyRawLength version =
      (raw.length == keyRawLength && raw.head? == some version) := by
  unfold overwrites
  rw [Base64.encode_length, decodeBase64Length_encodeBase64Length, Base64.decode_encode,
    Option.some_beq_some]

/-- The signature at the end of a session key verifies under the signing key
in it. -/
def signatureVerifies (sessionKey : Bytes) : Bool :=
  let raw := Base64.decode sessionKey
  match loadArray ED25519_PUBLIC_KEY_LENGTH raw (1 + 4 + MEGOLM_RATCHET_LENGTH),
    readBytes raw 0 SESSION_EXPORT_RAW_LENGTH,
    loadArray ED25519_SIGNATURE_LENGTH raw SESSION_EXPORT_RAW_LENGTH with
  | .ok signingKey, .ok message, .ok signature => prims.ed25519.verify signingKey message signature
  | _, _, _ => false

/-- What a session key leaves of a session: an error, or what it installs,
which is kept even where its signature does not verify. -/
theorem initFromSessionKey_outcome {prims : GroupPrimitives} {session session' : InboundGroupSession}
    {sessionKey : Bytes} {keyRawLength : ℕ} {exportFormat : Bool} {result : Option Unit}
    (h : session.initFromSessionKey prims sessionKey keyRawLength exportFormat =
      .ok (session', result)) :
    (overwrites sessionKey keyRawLength
        (if exportFormat then SESSION_EXPORT_VERSION else SESSION_KEY_VERSION) = false ∧
      result = none ∧ ∃ code, session' = { session with lastError := code }) ∨
    (overwrites sessionKey keyRawLength
        (if exportFormat then SESSION_EXPORT_VERSION else SESSION_KEY_VERSION) = true ∧
      ∃ m signingKey,
        (exportFormat = true ∧ result = some () ∧ session' = session.installed m signingKey) ∨
        (exportFormat = false ∧ signatureVerifies prims sessionKey = false ∧ result = none ∧
          session' = { session.installed m signingKey with lastError := .BAD_SIGNATURE }) ∨
        (exportFormat = false ∧ signatureVerifies prims sessionKey = true ∧ result = some () ∧
          session' = { session.installed m signingKey with signingKeyVerified := true })) := by
  unfold initFromSessionKey at h
  unfold overwrites
  rcases hlength : decodeBase64Length sessionKey.length with _ | rawLength
  · rw [hlength] at h
    cases h
    exact .inl ⟨rfl, rfl, _, rfl⟩
  rw [hlength] at h
  dsimp only at h
  -- the checks before anything is overwritten: length, then version
  by_cases hraw : rawLength ≠ keyRawLength
  · rw [if_pos hraw] at h
    cases h
    exact .inl ⟨by simp [hraw], rfl, _, rfl⟩
  rw [if_neg hraw] at h
  obtain rfl := not_not.mp hraw
  have hfit : decodeBase64Length sessionKey.length =
      some (List.replicate rawLength (0 : UInt8)).length := by
    rw [List.length_replicate, hlength]
  rw [decodeBase64_object_of_length hfit, Checked.ok_bind] at h
  dsimp only at h
  unfold initGroupSessionKeys at h
  obtain ⟨version, hversion, h⟩ := Checked.bind_eq_ok.mp h
  have hhead := head?_of_readByte hversion
  dsimp only at h
  by_cases hexpected :
      version ≠ if exportFormat then SESSION_EXPORT_VERSION else SESSION_KEY_VERSION
  · rw [if_pos hexpected] at h
    cases h
    exact .inl ⟨by simp [hhead, hexpected], rfl, _, rfl⟩
  rw [if_neg hexpected] at h
  rw [not_not.mp hexpected] at hhead
  -- from here on the ratchets and the key are overwritten
  obtain ⟨counter, -, h⟩ := Checked.bind_eq_ok.mp h
  obtain ⟨data, -, h⟩ := Checked.bind_eq_ok.mp h
  obtain ⟨signingKey, hsigningKey, h⟩ := Checked.bind_eq_ok.mp h
  refine .inr ⟨by simp [hhead], Megolm.init data (decodeCounter counter), signingKey, ?_⟩
  cases exportFormat with
  | true =>
    cases h
    exact .inl ⟨rfl, rfl, rfl⟩
  | false =>
    rw [if_neg Bool.false_ne_true] at h
    obtain ⟨message, hmessage, h⟩ := Checked.bind_eq_ok.mp h
    obtain ⟨signature, hsignature, h⟩ := Checked.bind_eq_ok.mp h
    have hverifies : signatureVerifies prims sessionKey =
        prims.ed25519.verify signingKey message signature := by
      have hload : loadArray ED25519_PUBLIC_KEY_LENGTH (Base64.decode sessionKey)
        (1 + 4 + MEGOLM_RATCHET_LENGTH) = .ok signingKey := hsigningKey
      have hread : readBytes (Base64.decode sessionKey) 0 SESSION_EXPORT_RAW_LENGTH =
        .ok message := hmessage
      have hload' : loadArray ED25519_SIGNATURE_LENGTH (Base64.decode sessionKey)
        SESSION_EXPORT_RAW_LENGTH = .ok signature := hsignature
      unfold signatureVerifies
      dsimp only
      rw [hload, hread, hload']
    split at h
    · rename_i hverify
      cases h
      rw [Bool.not_eq_true'] at hverify
      exact .inr (.inl ⟨rfl, hverifies.trans hverify, rfl, rfl⟩)
    · rename_i hverify
      cases h
      rw [Bool.not_eq_true, Bool.not_eq_false'] at hverify
      exact .inr (.inr ⟨rfl, hverifies.trans hverify, rfl, rfl⟩)

/-! ## Exported sessions -/

/-- A session in the format it is exported in, before it is encoded. -/
def exportRaw (m : Megolm) (signingKey : Ed25519PublicKey) : Bytes :=
  sessionKeyBody SESSION_EXPORT_VERSION m signingKey

/-- `olm_export_inbound_group_session` returns the ratchet at the index,
encoded, where the session has one. -/
theorem exportInboundGroupSession_append {room post : Bytes} {messageIndex : UInt32}
    {session' : InboundGroupSession} {m : Megolm}
    (hroom : room.length = encodeBase64Length SESSION_EXPORT_RAW_LENGTH)
    (hm : session.getMegolm prims messageIndex = (session', some m))
    (hcounter : m.counter = messageIndex) :
    session.exportInboundGroupSession prims (room ++ post) messageIndex =
      .ok (session', some (Base64.encode (exportRaw m session'.signingKey) ++ post,
        encodeBase64Length SESSION_EXPORT_RAW_LENGTH)) := by
  have hlengths : encodeBase64Length SESSION_EXPORT_RAW_LENGTH =
      encodeBase64Length SESSION_EXPORT_RAW_LENGTH - SESSION_EXPORT_RAW_LENGTH +
        SESSION_EXPORT_RAW_LENGTH := by decide
  obtain ⟨gap, old, rfl, hgap, hold⟩ := exists_cut (hroom.trans hlengths)
  have hlen : (exportRaw m session'.signingKey).length = SESSION_EXPORT_RAW_LENGTH :=
    sessionKeyBody_length ..
  have hwrite : writeAt (gap ++ (old ++ post)) gap.length (exportRaw m session'.signingKey) =
      .ok (gap ++ (exportRaw m session'.signingKey ++ post)) :=
    writeAt_append gap post (hlen.trans hold.symm)
  have hencode := encodeBase64_within post (by
    rw [hlen, hgap]
    decide : gap.length + (exportRaw m session'.signingKey).length =
      encodeBase64Length (exportRaw m session'.signingKey).length)
  rw [hlen] at hencode
  unfold exportInboundGroupSession
  dsimp only
  rw [if_neg (by rw [List.length_append, hroom]; omega), hm]
  dsimp only
  rw [writeAt_bind_writeAt _ (by simp), writeAt_bind_writeAt _ (by simp),
    writeAt_bind_writeAt _ (by simp; omega)]
  unfold exportRaw sessionKeyBody at hwrite hencode ⊢
  simp only [List.append_assoc, List.cons_append, List.nil_append, ← hcounter] at hwrite hencode ⊢
  rw [← hgap, hwrite, Checked.ok_bind, hencode, Checked.ok_bind]

/-- An exported session is imported with its ratchet and its key, and
without any evidence for the latter. -/
theorem importInboundGroupSession_exportRaw (m : Megolm) (signingKey : Ed25519PublicKey) :
    session.importInboundGroupSession prims (Base64.encode (exportRaw m signingKey)) =
      .ok (session.installed m signingKey, some ()) := by
  have hlen : (exportRaw m signingKey).length = SESSION_EXPORT_RAW_LENGTH :=
    sessionKeyBody_length ..
  have hraw : exportRaw m signingKey = sessionKeyBody SESSION_EXPORT_VERSION m signingKey ++ [] := by
    rw [List.append_nil]
    rfl
  unfold importInboundGroupSession initFromSessionKey
  rw [Base64.encode_length, decodeBase64Length_encodeBase64Length, hlen]
  dsimp only
  rw [if_neg (not_not.mpr rfl), ← hlen, ← Base64.encode_length, decodeBase64_object _ (by simp),
    Checked.ok_bind, @initGroupSessionKeys_append prims session _ _ _ _ true hraw, if_pos rfl]

end InboundGroupSession

end Olm
