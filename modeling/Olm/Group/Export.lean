import Olm.Group.Cache

/-!
# An exported session

A session that is exported at an index and imported again is the session
from that index on: it starts at the ratchet of the index and knows the same
signing key. Its indices are those of the original, counted from there.
-/

namespace Olm

namespace InboundGroupSession

variable {prims : GroupPrimitives} {session imported : InboundGroupSession}
  {i messageIndex : UInt32}

/-- A session that starts at an index of another, with its cache there. -/
structure StartsAt (prims : GroupPrimitives) (session : InboundGroupSession) (i : UInt32)
    (imported : InboundGroupSession) : Prop where
  initial : imported.initialRatchet = session.ratchetAt prims i
  latest : imported.latestRatchet = session.ratchetAt prims i
  signingKey : imported.signingKey = session.signingKey

namespace StartsAt

theorem cached (h : StartsAt prims session i imported) : imported.Cached prims :=
  ⟨0, by decide, h.latest.trans h.initial.symm⟩

theorem firstKnownIndex (h : StartsAt prims session i imported) :
    imported.inboundGroupSessionFirstKnownIndex = i := by
  unfold inboundGroupSessionFirstKnownIndex
  rw [h.initial, counter_ratchetAt]

/-- The indices are counted from the new start. -/
theorem offset_eq (h : StartsAt prims session i imported)
    (hle : session.offset i ≤ session.offset messageIndex) :
    imported.offset messageIndex = session.offset messageIndex - session.offset i := by
  have hf := session.inboundGroupSessionFirstKnownIndex.toNat_lt
  have hi := i.toNat_lt
  have hm := messageIndex.toNat_lt
  unfold offset at hle ⊢
  rw [h.firstKnownIndex]
  simp only [UInt32.toNat_sub] at hle ⊢
  omega

/-- The ratchets are those of the original. -/
theorem ratchetAt_eq (h : StartsAt prims session i imported)
    (hle : session.offset i ≤ session.offset messageIndex) :
    imported.ratchetAt prims messageIndex = session.ratchetAt prims messageIndex := by
  have hoffset := h.offset_eq hle
  unfold ratchetAt at *
  rw [hoffset, h.initial]
  unfold ratchetAt
  rw [← Function.iterate_add_apply, Nat.sub_add_cancel hle]

/-- An index before the start is refused. -/
theorem getMegolm_of_lt (h : StartsAt prims session i imported)
    (hlt : 0 < (i - messageIndex).toNat) (hle : (i - messageIndex).toNat ≤ 2 ^ 31) :
    imported.getMegolm prims messageIndex =
      ({ imported with lastError := .UNKNOWN_MESSAGE_INDEX }, none) := by
  have hlimit : ((1 : UInt32) <<< 31).toNat = 2 ^ 31 := by decide
  have hbehind : (messageIndex - i).toNat = 2 ^ 32 - (i - messageIndex).toNat := by
    have hi := i.toNat_lt
    have hm := messageIndex.toNat_lt
    simp only [UInt32.toNat_sub] at hlt hle ⊢
    omega
  have hlatest : imported.latestRatchet.counter = i := by rw [h.latest, counter_ratchetAt]
  have hinitial : imported.initialRatchet.counter = i := by rw [h.initial, counter_ratchetAt]
  unfold getMegolm
  rw [hlatest, hinitial, if_neg, if_pos]
  · rw [UInt32.le_iff_toNat_le, hlimit, hbehind]
    omega
  · rw [UInt32.lt_iff_toNat_lt, hlimit, hbehind]
    omega

end StartsAt

theorem inboundGroupSessionId_congr {id : Bytes} (hkey : imported.signingKey = session.signingKey) :
    Except.map Prod.snd (imported.inboundGroupSessionId id) =
      Except.map Prod.snd (session.inboundGroupSessionId id) := by
  unfold inboundGroupSessionId
  rw [hkey]
  split
  · rfl
  · rw [Checked.map_bind, Checked.map_bind]
    rfl

/-- An export is of the ratchet of its index, where that is in the window. -/
theorem exportInboundGroupSession_of_cached {key : Bytes} (h : session.Cached prims)
    (hi : session.InWindow i)
    (hroom : encodeBase64Length SESSION_EXPORT_RAW_LENGTH ≤ key.length) :
    ∃ session' post, session.exportInboundGroupSession prims key i =
        .ok (session', some (Base64.encode (exportRaw (session.ratchetAt prims i)
          session.signingKey) ++ post, encodeBase64Length SESSION_EXPORT_RAW_LENGTH)) ∧
      session.SameStart session' ∧ session'.Cached prims := by
  obtain ⟨room, post, rfl, hlen, -⟩ := exists_cut
    (n := key.length - encodeBase64Length SESSION_EXPORT_RAW_LENGTH)
    (by omega : key.length = encodeBase64Length SESSION_EXPORT_RAW_LENGTH + _)
  obtain ⟨session', hm, hsame, hcached⟩ := getMegolm_of_cached h hi
  have hexport := @exportInboundGroupSession_append prims session room post i session' _ hlen hm
    (counter_ratchetAt session i)
  rw [hsame.2] at hexport
  exact ⟨session', post, hexport, hsame, hcached⟩

/-- **An exported session is the session from its index on.** Of a session
that was only asked for indices of its window, and any index `i` of it: the
export succeeds and is imported, the result starts at `i` and has the same
id; it decrypts what the original decrypts from `i` on, refuses what was sent
before `i` so long as its cache is where it started, and exports `i` as the
same string. -/
theorem importInboundGroupSession_of_export {fresh session s fresh' : InboundGroupSession}
    {sessionKey key : Bytes}
    (hinit : fresh.initInboundGroupSession prims sessionKey = .ok (session, some ()) ∨
      fresh.importInboundGroupSession prims sessionKey = .ok (session, some ()))
    (hrun : Run (call prims) (fun _ c => session.AsksInWindow prims c) session s)
    (hi : (i - session.inboundGroupSessionFirstKnownIndex).toNat < 2 ^ 31)
    (hroom : encodeBase64Length SESSION_EXPORT_RAW_LENGTH ≤ key.length) :
    ∃ s' buf length imported,
      s.exportInboundGroupSession prims key i = .ok (s', some (buf, length)) ∧
      fresh'.importInboundGroupSession prims (buf.take length) = .ok (imported, some ()) ∧
      imported.inboundGroupSessionFirstKnownIndex = i ∧
      (∀ id, Except.map Prod.snd (imported.inboundGroupSessionId id) =
        Except.map Prod.snd (s'.inboundGroupSessionId id)) ∧
      (∀ message maxPlaintextLength,
        (∀ parts, takeApart prims message = .ok (.ok parts) →
          session.offset i ≤ session.offset parts.messageIndex ∧
            session.offset parts.messageIndex < 2 ^ 31) →
        Except.map (fun d => (d.messageIndex, d.plaintext))
            (imported.groupDecrypt prims message maxPlaintextLength) =
          Except.map (fun d => (d.messageIndex, d.plaintext))
            (s'.groupDecrypt prims message maxPlaintextLength)) ∧
      (∀ t : InboundGroupSession, t.initialRatchet = imported.initialRatchet →
        t.latestRatchet = imported.latestRatchet → t.signingKey = imported.signingKey →
        ∀ m plaintext message maxPlaintextLength,
          GroupSealed prims s.signingKey m plaintext message →
          0 < (i - m.counter).toNat → (i - m.counter).toNat ≤ 2 ^ 31 →
          prims.megolmCipher.decryptMaxPlaintextLength (prims.ciphertextLength plaintext) ≤
            maxPlaintextLength →
          t.groupDecrypt prims message maxPlaintextLength =
            .ok ⟨{ t with lastError := .UNKNOWN_MESSAGE_INDEX }, some m.counter, none⟩) ∧
      (∀ key, Except.map Prod.snd (imported.exportInboundGroupSession prims key i) =
        Except.map Prod.snd (s'.exportInboundGroupSession prims key i)) := by
  obtain ⟨-, hsame, hcached⟩ := sameStart_of_run hinit hrun
  have hwindow : s.InWindow i := hsame.inWindow_iff.mpr hi
  obtain ⟨s', post, hexport, hsame', hcached'⟩ :=
    exportInboundGroupSession_of_cached hcached hwindow hroom
  have hwindow' : s'.InWindow i := hsame'.inWindow_iff.mpr hwindow
  have hlen : (Base64.encode (exportRaw (s.ratchetAt prims i) s.signingKey)).length =
      encodeBase64Length SESSION_EXPORT_RAW_LENGTH := by
    rw [Base64.encode_length, exportRaw, sessionKeyBody_length]
  have himport := importInboundGroupSession_exportRaw prims fresh' (s.ratchetAt prims i) s.signingKey
  have hstarts : StartsAt prims s' i (fresh'.installed (s.ratchetAt prims i) s.signingKey) :=
    { initial := (hsame'.ratchetAt_eq i).symm
      latest := (hsame'.ratchetAt_eq i).symm
      signingKey := hsame'.2.symm }
  -- the ratchets of the new session are those of the old
  have hratchets : ∀ messageIndex, s'.offset i ≤ s'.offset messageIndex →
      s'.InWindow messageIndex →
      ((fresh'.installed (s.ratchetAt prims i) s.signingKey).getMegolm prims messageIndex).2 =
        (s'.getMegolm prims messageIndex).2 := by
    intro messageIndex hle hin
    have hin' : (fresh'.installed (s.ratchetAt prims i) s.signingKey).InWindow messageIndex := by
      unfold InWindow at hin ⊢
      rw [hstarts.offset_eq hle]
      omega
    rw [snd_getMegolm_of_cached hstarts.cached hin', snd_getMegolm_of_cached hcached' hin,
      hstarts.ratchetAt_eq hle]
  refine ⟨s', _, _, fresh'.installed (s.ratchetAt prims i) s.signingKey, hexport, ?_,
    hstarts.firstKnownIndex, ?_, ?_, ?_, ?_⟩
  · rw [← hlen, List.take_left, himport]
  · intro id
    exact inboundGroupSessionId_congr hstarts.signingKey
  · -- from the index on, both have the same ratchets
    intro message maxPlaintextLength hmessage
    refine groupDecrypt_congr hstarts.signingKey ?_
    intro parts htake
    have hparts := hmessage parts htake
    rw [← hsame.offset_eq, ← hsame'.offset_eq, ← hsame.offset_eq, ← hsame'.offset_eq] at hparts
    exact hratchets _ hparts.1 hparts.2
  · intro t hinitial hlatest hkey m plaintext message maxPlaintextLength hsealed hlt hle hmax
    -- before it, the new session has no ratchet for the message
    have ht : StartsAt prims s' i t :=
      { initial := hinitial.trans hstarts.initial
        latest := hlatest.trans hstarts.latest
        signingKey := hkey.trans hstarts.signingKey }
    rw [← hsame'.2, ← ht.signingKey] at hsealed
    exact groupDecrypt_of_getMegolm_none hsealed (ht.getMegolm_of_lt hlt hle) hmax
  · intro key
    exact exportInboundGroupSession_congr hstarts.signingKey (hratchets i le_rfl hwindow')

/-- A session that starts at the last value of the counter, exported at 3. -/
theorem importInboundGroupSession_of_export_symbolic :
    ∃ s' buf length imported,
      InboundGroupSession.exportInboundGroupSession .symbolic
        { InboundGroupSession.new.installed OutboundGroupSession.atLimit.ratchet
            OutboundGroupSession.atLimit.signingKey.publicKey with signingKeyVerified := true }
        (List.replicate 300 0) 3 = .ok (s', some (buf, length)) ∧
      InboundGroupSession.new.importInboundGroupSession .symbolic (buf.take length) =
        .ok (imported, some ()) ∧
      imported.inboundGroupSessionFirstKnownIndex = 3 := by
  have hroom : encodeBase64Length SESSION_EXPORT_RAW_LENGTH ≤
      (List.replicate 300 (0 : UInt8)).length := by
    rw [List.length_replicate]
    decide
  have hi : ((3 : UInt32) - OutboundGroupSession.atLimit.ratchet.counter).toNat < 2 ^ 31 := by decide
  obtain ⟨s', buf, length, imported, hexport, himport, hfirst, -⟩ :=
    importInboundGroupSession_of_export (.inl (initInboundGroupSession_atLimit .new)) .start hi hroom
  exact ⟨s', buf, length, imported, hexport, himport, hfirst⟩

end InboundGroupSession

end Olm
