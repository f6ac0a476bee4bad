import Olm.Common.Run
import Olm.Group.Messages
import Olm.Megolm.Advance

/-!
# The latest ratchet is a cache

An inbound session keeps the ratchet it was given and the latest one it has
used, which a call may leave further on than the last message that was
decrypted. Whatever was asked for before, the ratchet of an index is the one
that single steps lead to from the start (`ratchetAt`), so long as no more
than half of the indices have been asked for.
-/

namespace Olm

namespace InboundGroupSession

variable (prims : GroupPrimitives)

/-- How far an index is from the first the session knows. -/
def offset (session : InboundGroupSession) (messageIndex : UInt32) : ℕ :=
  (messageIndex - session.inboundGroupSessionFirstKnownIndex).toNat

/-- The indices `f, …, f + 2^31 - 1`, where `f` is the first known one. -/
def InWindow (session : InboundGroupSession) (messageIndex : UInt32) : Prop :=
  session.offset messageIndex < 2 ^ 31

/-- The ratchet of an index, by single steps from the first. -/
def ratchetAt (session : InboundGroupSession) (messageIndex : UInt32) : Megolm :=
  (Megolm.advance prims.hashes.hmacSha256)^[session.offset messageIndex] session.initialRatchet

/-- The latest ratchet is the initial one, some way on in the window. -/
def Cached (session : InboundGroupSession) : Prop :=
  ∃ j < 2 ^ 31, session.latestRatchet =
    (Megolm.advance prims.hashes.hmacSha256)^[j] session.initialRatchet

/-- The other session has the same start and the same signing key. -/
def SameStart (session session' : InboundGroupSession) : Prop :=
  session'.initialRatchet = session.initialRatchet ∧ session'.signingKey = session.signingKey

variable {prims} {session session' : InboundGroupSession} {messageIndex : UInt32}

theorem SameStart.refl (session : InboundGroupSession) : session.SameStart session := ⟨rfl, rfl⟩

theorem SameStart.trans {session'' : InboundGroupSession} (h : session.SameStart session')
    (h' : session'.SameStart session'') : session.SameStart session'' :=
  ⟨h'.1.trans h.1, h'.2.trans h.2⟩

theorem SameStart.offset_eq (h : session.SameStart session') (messageIndex : UInt32) :
    session'.offset messageIndex = session.offset messageIndex := by
  unfold offset inboundGroupSessionFirstKnownIndex
  rw [h.1]

theorem SameStart.ratchetAt_eq (h : session.SameStart session') (messageIndex : UInt32) :
    session'.ratchetAt prims messageIndex = session.ratchetAt prims messageIndex := by
  unfold ratchetAt
  rw [h.offset_eq, h.1]

theorem SameStart.inWindow_iff (h : session.SameStart session') :
    session'.InWindow messageIndex ↔ session.InWindow messageIndex := by
  unfold InWindow
  rw [h.offset_eq]

/-! ## One request -/

theorem counter_iterate_advance (hmac : Bytes → Bytes → FixedBytes SHA256_OUTPUT_LENGTH)
    (m : Megolm) (k : ℕ) : ((Megolm.advance hmac)^[k] m).counter = m.counter + UInt32.ofNat k := by
  rw [Megolm.iterate_advance]

/-- An index is its offset from the first. -/
theorem add_offset (session : InboundGroupSession) (messageIndex : UInt32) :
    session.initialRatchet.counter + UInt32.ofNat (session.offset messageIndex) = messageIndex := by
  unfold offset inboundGroupSessionFirstKnownIndex
  rw [UInt32.ofNat_toNat, UInt32.add_comm, UInt32.sub_add_cancel]

theorem counter_ratchetAt (session : InboundGroupSession) (messageIndex : UInt32) :
    (session.ratchetAt prims messageIndex).counter = messageIndex := by
  unfold ratchetAt
  rw [counter_iterate_advance, add_offset]

/-- **The cache is transparent**: `_get_megolm` gives the ratchet of the index,
and leaves the cache at some ratchet of the window. -/
theorem getMegolm_of_cached (h : session.Cached prims) (hi : session.InWindow messageIndex) :
    ∃ session', session.getMegolm prims messageIndex =
        (session', some (session.ratchetAt prims messageIndex)) ∧
      session.SameStart session' ∧ session'.Cached prims := by
  obtain ⟨j, hj, hlatest⟩ := h
  obtain ⟨k, hk⟩ : ∃ k, session.offset messageIndex = k := ⟨_, rfl⟩
  have hindex := session.add_offset messageIndex
  unfold InWindow at hi
  rw [hk] at hi hindex
  have hcounter := counter_iterate_advance prims.hashes.hmacSha256 session.initialRatchet j
  rw [← hlatest] at hcounter
  have hlimit : ((1 : UInt32) <<< 31).toNat = 2 ^ 31 := by decide
  have hfirst : (messageIndex - session.initialRatchet.counter).toNat = k := hk
  -- how far the index is behind the latest ratchet, counted modulo `2^32`
  have hahead : (messageIndex - session.latestRatchet.counter).toNat = (2 ^ 32 - j + k) % 2 ^ 32 := by
    rw [hcounter, ← hindex]
    simp only [UInt32.toNat_sub, UInt32.toNat_add, UInt32.toNat_ofNat']
    omega
  unfold getMegolm ratchetAt
  rw [hk]
  by_cases hjk : j ≤ k
  · -- the cache moves on to the index
    have hlt : messageIndex - session.latestRatchet.counter < (1 : UInt32) <<< 31 := by
      rw [UInt32.lt_iff_toNat_lt, hahead, hlimit]
      omega
    have hjump : session.latestRatchet.advanceTo prims.hashes.hmacSha256 messageIndex =
        (Megolm.advance prims.hashes.hmacSha256)^[k] session.initialRatchet := by
      have hsum : messageIndex = session.latestRatchet.counter + UInt32.ofNat (k - j) := by
        rw [hcounter, UInt32.add_assoc, ← UInt32.ofNat_add, Nat.add_sub_cancel' hjk, hindex]
      rw [hsum, Megolm.advanceTo_add _ _ (by omega), hlatest, ← Function.iterate_add_apply,
        Nat.sub_add_cancel hjk]
    rw [if_pos hlt]
    dsimp only
    rw [hjump]
    exact ⟨_, rfl, ⟨rfl, rfl⟩, k, hi, rfl⟩
  · -- the index is behind the cache, and taken from the start
    have hlt : ¬ messageIndex - session.latestRatchet.counter < (1 : UInt32) <<< 31 := by
      rw [UInt32.lt_iff_toNat_lt, hahead, hlimit]
      omega
    have hle : ¬ (1 : UInt32) <<< 31 ≤ messageIndex - session.initialRatchet.counter := by
      rw [UInt32.le_iff_toNat_le, hfirst, hlimit]
      omega
    have hjump : session.initialRatchet.advanceTo prims.hashes.hmacSha256 messageIndex =
        (Megolm.advance prims.hashes.hmacSha256)^[k] session.initialRatchet := by
      rw [← hindex]
      exact Megolm.advanceTo_add _ _ (by omega)
    rw [if_neg hlt, if_neg hle, hjump]
    exact ⟨_, rfl, .refl session, j, hj, hlatest⟩

/-! ## What a call leaves -/

/-- What the second half of `olm_group_decrypt` leaves. -/
theorem decryptDecoded_outcome {buf : Bytes} {length ciphertext ciphertextLength maxPlaintextLength : ℕ}
    {plaintext : Option Bytes}
    (h : session.decryptDecoded prims buf length messageIndex ciphertext ciphertextLength
      maxPlaintextLength = .ok (session', plaintext)) :
    (plaintext = none ∧ ∃ code, session' = { session with lastError := code }) ∨
    (plaintext = none ∧ session.getMegolm prims messageIndex = (session', none)) ∨
    ∃ advanced m, session.getMegolm prims messageIndex = (advanced, some m) ∧
      ((plaintext = none ∧ session' = { advanced with lastError := .BAD_MESSAGE_MAC }) ∨
        (plaintext.isSome ∧ session' = { advanced with signingKeyVerified := true })) := by
  unfold decryptDecoded at h
  obtain ⟨signature, -, h⟩ := Checked.bind_eq_ok.mp h
  obtain ⟨authenticated, -, h⟩ := Checked.bind_eq_ok.mp h
  split at h
  · cases h
    exact .inl ⟨rfl, _, rfl⟩
  split at h
  · cases h
    exact .inl ⟨rfl, _, rfl⟩
  rcases hm : session.getMegolm prims messageIndex with ⟨advanced, _ | m⟩
  · rw [hm] at h
    cases h
    exact .inr (.inl ⟨rfl, rfl⟩)
  · rw [hm] at h
    obtain ⟨result, -, h⟩ := Checked.bind_eq_ok.mp h
    cases result with
    | none =>
      cases h
      exact .inr (.inr ⟨advanced, m, rfl, .inl ⟨rfl, rfl⟩⟩)
    | some plaintext =>
      cases h
      exact .inr (.inr ⟨advanced, m, rfl, .inr ⟨rfl, rfl⟩⟩)

/-- The plain text depends on the signing key and on the ratchet alone. -/
theorem decryptDecoded_congr {buf : Bytes}
    {length ciphertext ciphertextLength maxPlaintextLength : ℕ}
    (hkey : session'.signingKey = session.signingKey)
    (hm : (session'.getMegolm prims messageIndex).2 = (session.getMegolm prims messageIndex).2) :
    Except.map Prod.snd (session'.decryptDecoded prims buf length messageIndex ciphertext
        ciphertextLength maxPlaintextLength) =
      Except.map Prod.snd (session.decryptDecoded prims buf length messageIndex ciphertext
        ciphertextLength maxPlaintextLength) := by
  unfold decryptDecoded
  dsimp only
  rw [hkey]
  cases loadArray ED25519_SIGNATURE_LENGTH buf (length - ED25519_SIGNATURE_LENGTH) with
  | error e => rfl
  | ok signature =>
    cases readBytes buf 0 (length - ED25519_SIGNATURE_LENGTH) with
    | error e => rfl
    | ok authenticated =>
      simp only [Checked.ok_bind]
      split
      · rfl
      split
      · rfl
      rcases hm' : session'.getMegolm prims messageIndex with ⟨advanced', m'⟩
      rcases hm'' : session.getMegolm prims messageIndex with ⟨advanced, m⟩
      rw [hm', hm''] at hm
      obtain rfl : m' = m := hm
      cases m' with
      | none => rfl
      | some m =>
        dsimp only
        rcases prims.megolmCipher.decrypt m.getData buf 0 (length - ED25519_SIGNATURE_LENGTH)
          ciphertext ciphertextLength maxPlaintextLength with _ | _ | plaintext
        · rfl
        · rfl
        · rfl

theorem groupDecrypt_congr {message : Bytes} {maxPlaintextLength : ℕ}
    (hkey : session'.signingKey = session.signingKey)
    (hm : ∀ parts, takeApart prims message = .ok (.ok parts) →
      (session'.getMegolm prims parts.messageIndex).2 =
        (session.getMegolm prims parts.messageIndex).2) :
    Except.map (fun d => (d.messageIndex, d.plaintext))
        (session'.groupDecrypt prims message maxPlaintextLength) =
      Except.map (fun d => (d.messageIndex, d.plaintext))
        (session.groupDecrypt prims message maxPlaintextLength) := by
  rw [groupDecrypt_eq, groupDecrypt_eq]
  rcases htake : takeApart prims message with _ | _ | parts
  · rfl
  · rfl
  · have hcongr := @decryptDecoded_congr prims session session' parts.messageIndex parts.buf
      parts.length parts.ciphertext parts.ciphertextLength maxPlaintextLength hkey (hm parts htake)
    have hpair := congrArg (Except.map (fun plaintext => (some parts.messageIndex, plaintext))) hcongr
    simp only [Checked.ok_bind, Checked.map_bind]
    revert hpair
    rcases session'.decryptDecoded prims parts.buf parts.length parts.messageIndex parts.ciphertext
      parts.ciphertextLength maxPlaintextLength with _ | result'
    · rcases session.decryptDecoded prims parts.buf parts.length parts.messageIndex
        parts.ciphertext parts.ciphertextLength maxPlaintextLength with _ | result
      · exact id
      · exact id
    · rcases session.decryptDecoded prims parts.buf parts.length parts.messageIndex
        parts.ciphertext parts.ciphertextLength maxPlaintextLength with _ | result
      · exact id
      · exact id

/-- `_get_megolm` does not touch what was installed. -/
theorem sameStart_of_getMegolm (session : InboundGroupSession) (messageIndex : UInt32) :
    session.SameStart (session.getMegolm prims messageIndex).1 := by
  unfold getMegolm
  split
  · exact ⟨rfl, rfl⟩
  split
  · exact ⟨rfl, rfl⟩
  · exact ⟨rfl, rfl⟩

/-- What an export leaves. -/
theorem exportInboundGroupSession_outcome {key : Bytes} {result : Option (Bytes × ℕ)}
    (h : session.exportInboundGroupSession prims key messageIndex = .ok (session', result)) :
    session' = { session with lastError := .OUTPUT_BUFFER_TOO_SMALL } ∨
      session' = (session.getMegolm prims messageIndex).1 := by
  unfold exportInboundGroupSession at h
  dsimp only at h
  split at h
  · cases h
    exact .inl rfl
  · rcases hm : session.getMegolm prims messageIndex with ⟨advanced, _ | m⟩
    · rw [hm] at h
      cases h
      exact .inr rfl
    · rw [hm] at h
      simp only [Checked.bind_eq_ok] at h
      obtain ⟨_, -, _, -, _, -, _, -, _, -, h⟩ := h
      cases h
      exact .inr rfl

theorem exportInboundGroupSession_congr {key : Bytes}
    (hkey : session'.signingKey = session.signingKey)
    (hm : (session'.getMegolm prims messageIndex).2 = (session.getMegolm prims messageIndex).2) :
    Except.map Prod.snd (session'.exportInboundGroupSession prims key messageIndex) =
      Except.map Prod.snd (session.exportInboundGroupSession prims key messageIndex) := by
  have hkey' : (session'.getMegolm prims messageIndex).1.signingKey =
      (session.getMegolm prims messageIndex).1.signingKey := by
    rw [(session'.sameStart_of_getMegolm messageIndex).2,
      (session.sameStart_of_getMegolm messageIndex).2, hkey]
  unfold exportInboundGroupSession
  dsimp only
  split
  · rfl
  · rcases h' : session'.getMegolm prims messageIndex with ⟨advanced', m'⟩
    rcases h : session.getMegolm prims messageIndex with ⟨advanced, m⟩
    rw [h', h] at hm hkey'
    obtain rfl : m' = m := hm
    cases m' with
    | none => rfl
    | some m =>
      have hsigning : advanced'.signingKey = advanced.signingKey := hkey'
      dsimp only
      rw [hsigning]
      simp only [Checked.map_bind]
      rfl

/-! ## Runs of calls -/

/-- The calls that can change a session, with what the caller passes. -/
inductive GroupCall where
  | initInboundGroupSession (sessionKey : Bytes)
  | importInboundGroupSession (sessionKey : Bytes)
  | groupDecrypt (message : Bytes) (maxPlaintextLength : ℕ)
  | exportInboundGroupSession (key : Bytes) (messageIndex : UInt32)

variable (prims) in
/-- The session after a call, successful or not. -/
def call (session : InboundGroupSession) : GroupCall → Checked InboundGroupSession
  | .initInboundGroupSession sessionKey =>
    session.initInboundGroupSession prims sessionKey >>= fun result => .ok result.1
  | .importInboundGroupSession sessionKey =>
    session.importInboundGroupSession prims sessionKey >>= fun result => .ok result.1
  | .groupDecrypt message maxPlaintextLength =>
    session.groupDecrypt prims message maxPlaintextLength >>= fun result => .ok result.session
  | .exportInboundGroupSession key messageIndex =>
    session.exportInboundGroupSession prims key messageIndex >>= fun result => .ok result.1

variable (prims) in
/-- A message whose index, if it has one, is in the window. -/
def MessageInWindow (session : InboundGroupSession) (message : Bytes) : Prop :=
  ∀ parts, takeApart prims message = .ok (.ok parts) → session.InWindow parts.messageIndex

variable (prims) in
/-- A call that asks for an index of the window. -/
def AsksInWindow (session : InboundGroupSession) : GroupCall → Prop
  | .groupDecrypt message _ => session.MessageInWindow prims message
  | .exportInboundGroupSession _ messageIndex => session.InWindow messageIndex
  | _ => False

/-- A call in the window leaves what was installed, and the cache in the
window, whether it succeeds or not. -/
theorem call_of_cached {c : GroupCall} (h : session.Cached prims)
    (hasks : session.AsksInWindow prims c) (hcall : session.call prims c = .ok session') :
    session.SameStart session' ∧ session'.Cached prims := by
  cases c with
  | initInboundGroupSession sessionKey => exact hasks.elim
  | importInboundGroupSession sessionKey => exact hasks.elim
  | groupDecrypt message maxPlaintextLength =>
    obtain ⟨result, hresult, hsession⟩ := Checked.bind_eq_ok.mp hcall
    cases hsession
    rw [groupDecrypt_eq] at hresult
    obtain ⟨parts, hparts, hresult⟩ := Checked.bind_eq_ok.mp hresult
    cases parts with
    | error code =>
      cases hresult
      exact ⟨⟨rfl, rfl⟩, h⟩
    | ok parts =>
      obtain ⟨⟨session', plaintext⟩, hdecrypt, hresult⟩ := Checked.bind_eq_ok.mp hresult
      cases hresult
      obtain ⟨advanced, hm, hstart, hcached⟩ := getMegolm_of_cached h (hasks parts hparts)
      rcases decryptDecoded_outcome hdecrypt with ⟨-, code, rfl⟩ | ⟨-, hnone⟩ |
        ⟨advanced', m, hm', ⟨-, rfl⟩ | ⟨-, rfl⟩⟩
      · exact ⟨⟨rfl, rfl⟩, h⟩
      · rw [hm] at hnone
        cases hnone
      · rw [hm] at hm'
        cases hm'
        exact ⟨hstart, hcached⟩
      · rw [hm] at hm'
        cases hm'
        exact ⟨hstart, hcached⟩
  | exportInboundGroupSession key messageIndex =>
    obtain ⟨result, hresult, hsession⟩ := Checked.bind_eq_ok.mp hcall
    cases hsession
    obtain ⟨advanced, hm, hstart, hcached⟩ := getMegolm_of_cached h hasks
    rcases exportInboundGroupSession_outcome hresult with hsession | hsession
    · rw [hsession]
      exact ⟨⟨rfl, rfl⟩, h⟩
    · rw [hsession, hm]
      exact ⟨hstart, hcached⟩

/-- A session that a session key was installed in starts with its cache at
the start. -/
theorem cached_of_initFromSessionKey {fresh : InboundGroupSession} {sessionKey : Bytes}
    {keyRawLength : ℕ} {exportFormat : Bool}
    (h : fresh.initFromSessionKey prims sessionKey keyRawLength exportFormat =
      .ok (session, some ())) : session.Cached prims := by
  rcases initFromSessionKey_outcome h with ⟨-, hnone, -⟩ | ⟨-, m, signingKey, ⟨-, -, rfl⟩ |
    ⟨-, -, hnone, -⟩ | ⟨-, -, -, rfl⟩⟩
  · cases hnone
  · exact ⟨0, by decide, rfl⟩
  · cases hnone
  · exact ⟨0, by decide, rfl⟩

/-- What such a session is after calls that asked for indices of its window. -/
theorem sameStart_of_run {fresh session s : InboundGroupSession} {sessionKey : Bytes}
    (hinit : fresh.initInboundGroupSession prims sessionKey = .ok (session, some ()) ∨
      fresh.importInboundGroupSession prims sessionKey = .ok (session, some ()))
    (hrun : Run (call prims) (fun _ c => session.AsksInWindow prims c) session s) :
    session.Cached prims ∧ session.SameStart s ∧ s.Cached prims := by
  have hstart : session.Cached prims := by
    rcases hinit with h | h
    · exact cached_of_initFromSessionKey h
    · exact cached_of_initFromSessionKey h
  refine ⟨hstart, Run.invariant (P := fun s => session.SameStart s ∧ s.Cached prims)
    ⟨.refl session, hstart⟩ ?_ hrun⟩
  rintro s c s' ⟨hsame, hcached⟩ hasks hcall
  have hasks' : s.AsksInWindow prims c := by
    cases c with
    | initInboundGroupSession sessionKey => exact hasks
    | importInboundGroupSession sessionKey => exact hasks
    | groupDecrypt message maxPlaintextLength =>
      intro parts hparts
      exact hsame.inWindow_iff.mpr (hasks parts hparts)
    | exportInboundGroupSession key messageIndex => exact hsame.inWindow_iff.mpr hasks
  obtain ⟨hsame', hcached'⟩ := call_of_cached hcached hasks' hcall
  exact ⟨hsame.trans hsame', hcached'⟩

/-- The ratchet of an index of the window. -/
theorem snd_getMegolm_of_cached (h : session.Cached prims) (hi : session.InWindow messageIndex) :
    (session.getMegolm prims messageIndex).2 = some (session.ratchetAt prims messageIndex) := by
  obtain ⟨session', hm, -⟩ := getMegolm_of_cached h hi
  rw [hm]

/-- **The cache is transparent throughout.** However a session was given its
key, and whatever indices of the window it was asked for since, with or
without success: what was installed is as it was, the ratchet of every index
of the window is there, single steps from the first, and every message and
every export of the window comes out as it would have at the start. -/
theorem getMegolm_of_run {fresh session s : InboundGroupSession} {sessionKey : Bytes}
    (hinit : fresh.initInboundGroupSession prims sessionKey = .ok (session, some ()) ∨
      fresh.importInboundGroupSession prims sessionKey = .ok (session, some ()))
    (hrun : Run (call prims) (fun _ c => session.AsksInWindow prims c) session s) :
    s.initialRatchet = session.initialRatchet ∧ s.signingKey = session.signingKey ∧
    (∀ messageIndex : UInt32,
      (messageIndex - session.inboundGroupSessionFirstKnownIndex).toNat < 2 ^ 31 →
      (s.getMegolm prims messageIndex).2 = some ((Megolm.advance prims.hashes.hmacSha256)^[
        (messageIndex - session.inboundGroupSessionFirstKnownIndex).toNat]
          session.initialRatchet)) ∧
    (∀ message maxPlaintextLength, session.MessageInWindow prims message →
      Except.map (fun d => (d.messageIndex, d.plaintext))
          (s.groupDecrypt prims message maxPlaintextLength) =
        Except.map (fun d => (d.messageIndex, d.plaintext))
          (session.groupDecrypt prims message maxPlaintextLength)) ∧
    (∀ key messageIndex, session.InWindow messageIndex →
      Except.map Prod.snd (s.exportInboundGroupSession prims key messageIndex) =
        Except.map Prod.snd (session.exportInboundGroupSession prims key messageIndex)) := by
  obtain ⟨hstart, hsame, hcached⟩ := sameStart_of_run hinit hrun
  -- the ratchet of an index of the window is now the one it was at the start
  have hnow : ∀ messageIndex, session.InWindow messageIndex →
      (s.getMegolm prims messageIndex).2 = some (session.ratchetAt prims messageIndex) := by
    intro messageIndex hi
    rw [snd_getMegolm_of_cached hcached (hsame.inWindow_iff.mpr hi), hsame.ratchetAt_eq]
  refine ⟨hsame.1, hsame.2, fun messageIndex hi => hnow messageIndex hi, ?_, ?_⟩
  · intro message maxPlaintextLength hmessage
    refine groupDecrypt_congr hsame.2 ?_
    intro parts hparts
    rw [hnow _ (hmessage parts hparts), snd_getMegolm_of_cached hstart (hmessage parts hparts)]
  · intro key messageIndex hi
    exact exportInboundGroupSession_congr hsame.2
      (by rw [hnow _ hi, snd_getMegolm_of_cached hstart hi])

/-- A session that starts at the last value of the counter, after an export
that failed. -/
theorem getMegolm_of_run_symbolic :
    (InboundGroupSession.getMegolm .symbolic
      { InboundGroupSession.new.installed OutboundGroupSession.atLimit.ratchet
          OutboundGroupSession.atLimit.signingKey.publicKey with
        signingKeyVerified := true, lastError := .OUTPUT_BUFFER_TOO_SMALL } 5).2 =
      some ((Megolm.advance Hashes.zero.hmacSha256)^[6] OutboundGroupSession.atLimit.ratchet) := by
  have hrun := getMegolm_of_run (.inl (initInboundGroupSession_atLimit .new))
    (.step (.exportInboundGroupSession [] 5) .start (by decide : _ < _) rfl)
  exact hrun.2.2.1 5 (by decide)

end InboundGroupSession

end Olm
