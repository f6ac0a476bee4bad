import Olm.Group.Cache

/-!
# What a group receives

One sender and one receiver that was given its session key. The sender
encrypts, and what it sent is delivered in any order, any number of times or
never. The receiver tracks the sender (`Tracks`), so whatever was sent can be
decrypted at any time.
-/

namespace Olm

/-- A message that was sent. -/
structure GroupSent where
  plaintext : Bytes
  message : Bytes

/-- A sender and a receiver, and all that was sent since the key was shared. -/
structure GroupConversation where
  outbound : OutboundGroupSession
  inbound : InboundGroupSession
  sent : List GroupSent

/-- What happens: `olm_group_encrypt` into a buffer, and `olm_group_decrypt` of
the `i`-th message. -/
inductive GroupEvent where
  | encrypt (plaintext message : Bytes)
  | deliver (i : ℕ) (maxPlaintextLength : ℕ)

namespace GroupConversation

variable (prims : GroupPrimitives)

/-- One event. -/
def step (c : GroupConversation) : GroupEvent → Checked GroupConversation
  | .encrypt plaintext message => do
    let (outbound, result) ← c.outbound.groupEncrypt prims plaintext message
    match result with
    | none => .ok { c with outbound := outbound }
    | some (buf, length) =>
      .ok { c with outbound := outbound, sent := c.sent ++ [⟨plaintext, buf.take length⟩] }
  | .deliver i maxPlaintextLength =>
    match c.sent[i]? with
    | none => .ok c
    | some sent => do
      let d ← c.inbound.groupDecrypt prims sent.message maxPlaintextLength
      .ok { c with inbound := d.session }

/-- A buffer fits in memory, and fewer than `2^31` messages are sent. -/
def Assumed (c : GroupConversation) : GroupEvent → Prop
  | .encrypt _ message => message.length < 2 ^ SIZE_WIDTH ∧ c.sent.length + 1 < 2 ^ 31
  | .deliver _ _ => True

/-- The ratchet after `k` messages. -/
def ratchetAfter (start : OutboundGroupSession) (k : ℕ) : Megolm :=
  (Megolm.advance prims.hashes.hmacSha256)^[k] start.ratchet

/-- **The receiver tracks the sender**: the sender is as many steps on as it
has sent messages, the receiver starts where the sender did, and every
message is sealed under the ratchet of its index. -/
structure Tracks (start : OutboundGroupSession) (c : GroupConversation) : Prop where
  few : c.sent.length < 2 ^ 31
  signing : c.outbound.signingKey = start.signingKey
  ratchet : c.outbound.ratchet = ratchetAfter prims start c.sent.length
  inboundKey : c.inbound.signingKey = start.signingKey.publicKey
  initial : c.inbound.initialRatchet = start.ratchet
  cached : c.inbound.Cached prims
  sealed : ∀ k sent, c.sent[k]? = some sent →
    GroupSealed prims start.signingKey.publicKey (ratchetAfter prims start k) sent.plaintext
      sent.message

variable {prims} {start : OutboundGroupSession} {c c' : GroupConversation}

/-! ## One event -/

theorem counter_ratchetAfter (start : OutboundGroupSession) (k : ℕ) :
    (ratchetAfter prims start k).counter = start.ratchet.counter + UInt32.ofNat k :=
  InboundGroupSession.counter_iterate_advance ..

/-- How far the index of the `k`-th message is from the first. -/
theorem Tracks.offset_eq (h : Tracks prims start c) {k : ℕ} (hk : k < 2 ^ 31) :
    c.inbound.offset (ratchetAfter prims start k).counter = k := by
  unfold InboundGroupSession.offset InboundGroupSession.inboundGroupSessionFirstKnownIndex
  rw [counter_ratchetAfter, h.initial, UInt32.add_comm, UInt32.add_sub_cancel, UInt32.toNat_ofNat']
  omega

/-- The receiver finds the ratchet of a message. -/
theorem Tracks.getMegolm (h : Tracks prims start c) {k : ℕ} (hk : k < 2 ^ 31) :
    ∃ session', c.inbound.getMegolm prims (ratchetAfter prims start k).counter =
        (session', some (ratchetAfter prims start k)) ∧
      c.inbound.SameStart session' ∧ session'.Cached prims := by
  have hoffset := h.offset_eq hk
  have hwindow : c.inbound.InWindow (ratchetAfter prims start k).counter := by
    unfold InboundGroupSession.InWindow
    rw [hoffset]
    exact hk
  have hratchet : c.inbound.ratchetAt prims (ratchetAfter prims start k).counter =
      ratchetAfter prims start k := by
    unfold InboundGroupSession.ratchetAt
    rw [hoffset, h.initial]
    rfl
  obtain ⟨session', hm, hsame, hcached⟩ :=
    InboundGroupSession.getMegolm_of_cached h.cached hwindow
  rw [hratchet] at hm
  exact ⟨session', hm, hsame, hcached⟩

/-- **Whatever was sent is decrypted**, to what it was and with its index. -/
theorem Tracks.groupDecrypt (h : Tracks prims start c) {k : ℕ} {sent : GroupSent}
    (hsent : c.sent[k]? = some sent) {maxPlaintextLength : ℕ}
    (hmax : prims.megolmCipher.decryptMaxPlaintextLength (prims.ciphertextLength sent.plaintext) ≤
      maxPlaintextLength) :
    ∃ session', c.inbound.groupDecrypt prims sent.message maxPlaintextLength =
      .ok ⟨session', some (start.ratchet.counter + UInt32.ofNat k), some sent.plaintext⟩ := by
  obtain ⟨hk, -⟩ := List.getElem?_eq_some_iff.mp hsent
  have hfew := h.few
  obtain ⟨session', hm, -⟩ := h.getMegolm (k := k) (by omega)
  have hsealed := h.sealed k sent hsent
  rw [← h.inboundKey] at hsealed
  rw [← @counter_ratchetAfter prims]
  exact ⟨_, InboundGroupSession.groupDecrypt_of_getMegolm hsealed hm hmax⟩

/-- A message that was sent has an index of the window. -/
theorem Tracks.messageInWindow (h : Tracks prims start c) {k : ℕ} {sent : GroupSent}
    (hsent : c.sent[k]? = some sent) : c.inbound.MessageInWindow prims sent.message := by
  intro parts htake
  obtain ⟨hk, -⟩ := List.getElem?_eq_some_iff.mp hsent
  have hfew := h.few
  obtain ⟨parts', htake', hparts⟩ := InboundGroupSession.takeApart_of_sealed (h.sealed k sent hsent)
  rw [htake] at htake'
  cases htake'
  unfold InboundGroupSession.InWindow
  rw [hparts.messageIndex, h.offset_eq (by omega)]
  omega

/-- One event keeps track. -/
theorem Tracks.step (haes : prims.aes.Inverts) (haccepts : prims.ed25519.Accepts)
    (hsigning : ∃ random, start.signingKey = prims.ed25519.generateKey random)
    (h : Tracks prims start c) {e : GroupEvent} (hassumed : Assumed c e)
    (hstep : c.step prims e = .ok c') : Tracks prims start c' := by
  cases e with
  | encrypt plaintext message =>
    obtain ⟨hsize, hcount⟩ := hassumed
    obtain ⟨⟨outbound, result⟩, hencrypt, hstep⟩ := Checked.bind_eq_ok.mp hstep
    rcases OutboundGroupSession.groupEncrypt_outcome haes haccepts (h.signing ▸ hsigning) hsize
      hencrypt with ⟨rfl, rfl⟩ | ⟨bytes, rest, rfl, rfl, hsealed⟩
    · cases hstep
      exact { h with }
    · cases hstep
      -- sealed under the ratchet as it stood, which moves on by one
      rw [h.signing, h.ratchet] at hsealed
      refine { h with few := ?_, ratchet := ?_, sealed := ?_ }
      · rw [List.length_append, List.length_singleton]
        exact hcount
      · dsimp only
        rw [h.ratchet, List.length_append, List.length_singleton]
        exact (Function.iterate_succ_apply' ..).symm
      · intro k sent hsent
        rcases Nat.lt_trichotomy k c.sent.length with hk | rfl | hk
        · rw [List.getElem?_append_left hk] at hsent
          exact h.sealed k sent hsent
        · rw [List.getElem?_concat_length, Option.some.injEq] at hsent
          subst hsent
          dsimp only
          rw [List.take_left]
          exact hsealed
        · rw [List.getElem?_eq_none (by simp; omega)] at hsent
          cases hsent
  | deliver i maxPlaintextLength =>
    unfold GroupConversation.step at hstep
    dsimp only at hstep
    rcases hsent : c.sent[i]? with _ | sent
    · rw [hsent] at hstep
      cases hstep
      exact h
    · rw [hsent] at hstep
      obtain ⟨d, hdecrypt, hstep⟩ := Checked.bind_eq_ok.mp hstep
      cases hstep
      have hcall : c.inbound.call prims (.groupDecrypt sent.message maxPlaintextLength) =
          .ok d.session := by
        unfold InboundGroupSession.call
        dsimp only
        rw [hdecrypt, Checked.ok_bind]
      -- a delivery, successful or not, moves the cache of the receiver only
      have hasks : c.inbound.AsksInWindow prims (.groupDecrypt sent.message maxPlaintextLength) :=
        h.messageInWindow hsent
      obtain ⟨⟨hinitial, hkey⟩, hcached⟩ := InboundGroupSession.call_of_cached h.cached hasks hcall
      exact { h with
        inboundKey := hkey.trans h.inboundKey
        initial := hinitial.trans h.initial
        cached := hcached }

/-- Both ends report the public part of the signing key. -/
theorem Tracks.sessionId (h : Tracks prims start c) (id : Bytes) :
    Except.map Prod.snd (c.outbound.outboundGroupSessionId id) =
      Except.map Prod.snd (c.inbound.inboundGroupSessionId id) := by
  unfold OutboundGroupSession.outboundGroupSessionId InboundGroupSession.inboundGroupSessionId
  rw [h.signing, h.inboundKey]
  split
  · rfl
  · rw [Checked.map_bind, Checked.map_bind]
    rfl

/-! ## Runs -/

/-- **Everything a sender sends can be decrypted**, whatever its counter was
when it exported the session key, and whatever was delivered before: the
`k`-th message gives its plain text and the index `c + k`, and the two ends
agree on the session id. -/
theorem groupDecrypt_of_run (haes : prims.aes.Inverts) (haccepts : prims.ed25519.Accepts)
    {outbound outbound' : OutboundGroupSession}
    (hsigning : ∃ random, outbound.signingKey = prims.ed25519.generateKey random)
    {keyBuf buf : Bytes} {length : ℕ}
    (hexport : outbound.outboundGroupSessionKey prims keyBuf = .ok (outbound', some (buf, length)))
    {fresh inbound : InboundGroupSession}
    (hinit : fresh.initInboundGroupSession prims (buf.take length) = .ok (inbound, some ()))
    (hrun : Run (GroupConversation.step prims) Assumed ⟨outbound', inbound, []⟩ c) :
    (∀ k sent, c.sent[k]? = some sent → ∀ maxPlaintextLength,
      prims.megolmCipher.decryptMaxPlaintextLength
        (prims.megolmCipher.encryptCiphertextLength sent.plaintext.length) ≤ maxPlaintextLength →
      ∃ session', c.inbound.groupDecrypt prims sent.message maxPlaintextLength =
        .ok ⟨session', some (outbound.ratchet.counter + UInt32.ofNat k), some sent.plaintext⟩) ∧
    (∀ id, Except.map Prod.snd (c.outbound.outboundGroupSessionId id) =
      Except.map Prod.snd (c.inbound.inboundGroupSessionId id)) := by
  obtain ⟨rfl, hkey⟩ := OutboundGroupSession.outboundGroupSessionKey_eq_some hexport
  rw [hkey, InboundGroupSession.initInboundGroupSession_sessionKeyRaw _ _ haccepts hsigning] at hinit
  cases hinit
  have hstart : Tracks prims outbound' ⟨outbound',
      { fresh.installed outbound'.ratchet outbound'.signingKey.publicKey with
        signingKeyVerified := true }, []⟩ :=
    { few := by simp
      signing := rfl
      ratchet := rfl
      inboundKey := rfl
      initial := rfl
      cached := ⟨0, by decide, rfl⟩
      sealed := fun k sent hsent => by cases hsent }
  have htracks : Tracks prims outbound' c :=
    Run.invariant hstart (fun s e s' h hassumed hstep => h.step haes haccepts hsigning hassumed hstep)
      hrun
  exact ⟨fun k sent hsent maxPlaintextLength hmax => htracks.groupDecrypt hsent hmax,
    htracks.sessionId⟩

/-- A sender at the last value of its counter, that sends one message. -/
theorem groupDecrypt_of_run_symbolic :
    ∃ (c : GroupConversation) (sent : GroupSent) (session' : InboundGroupSession),
      c.sent = [sent] ∧ sent.plaintext = [1, 2, 3] ∧
      c.inbound.groupDecrypt .symbolic sent.message 16 =
        .ok ⟨session', some 0xFFFFFFFF, some [1, 2, 3]⟩ := by
  have hsigning : ∃ random, OutboundGroupSession.atLimit.signingKey =
      GroupPrimitives.symbolic.ed25519.generateKey random := ⟨FixedBytes.zero _, rfl⟩
  have hroom : OutboundGroupSession.atLimit.groupEncryptMessageLength .symbolic
      ([1, 2, 3] : Bytes).length ≤ (List.replicate 300 (0 : UInt8)).length := by
    rw [List.length_replicate]
    decide +kernel
  have hsize : (List.replicate 300 (0 : UInt8)).length < 2 ^ SIZE_WIDTH := by
    rw [List.length_replicate]
    decide
  obtain ⟨bytes, rest, hencrypt, -⟩ := OutboundGroupSession.groupEncrypt_of_le
    Aes256.identity_inverts Ed25519.accepting_accepts hsigning hroom hsize
  obtain ⟨key, hkey⟩ : ∃ key, key.length = encodeBase64Length SESSION_KEY_RAW_LENGTH :=
    ⟨List.replicate _ (0 : UInt8), List.length_replicate⟩
  have hexport := @OutboundGroupSession.outboundGroupSessionKey_append .symbolic .atLimit key [] hkey
  have hinit := InboundGroupSession.initInboundGroupSession_atLimit .new
  have htake := (OutboundGroupSession.outboundGroupSessionKey_eq_some hexport).2
  obtain ⟨inbound, hinbound⟩ : ∃ inbound, { InboundGroupSession.new.installed
    OutboundGroupSession.atLimit.ratchet OutboundGroupSession.atLimit.signingKey.publicKey with
      signingKeyVerified := true } = inbound := ⟨_, rfl⟩
  rw [← htake, hinbound] at hinit
  have hstep : GroupConversation.step .symbolic ⟨.atLimit, inbound, []⟩
      (.encrypt [1, 2, 3] (List.replicate 300 0)) =
      .ok ⟨{ OutboundGroupSession.atLimit with
        ratchet := OutboundGroupSession.atLimit.ratchet.advance Hashes.zero.hmacSha256 }, inbound,
        [⟨[1, 2, 3], (bytes ++ rest).take bytes.length⟩]⟩ := by
    unfold GroupConversation.step
    dsimp only
    rw [hencrypt]
    rfl
  have hassumed : Assumed ⟨.atLimit, inbound, []⟩ (.encrypt [1, 2, 3] (List.replicate 300 0)) :=
    ⟨hsize, (show 0 + 1 < 2 ^ 31 by decide)⟩
  have hmax : GroupPrimitives.symbolic.megolmCipher.decryptMaxPlaintextLength
      (GroupPrimitives.symbolic.megolmCipher.encryptCiphertextLength ([1, 2, 3] : Bytes).length) ≤
        16 := by decide +kernel
  have hrun := groupDecrypt_of_run Aes256.identity_inverts Ed25519.accepting_accepts hsigning
    hexport hinit (.step _ .start hassumed hstep)
  obtain ⟨session', hdecrypt⟩ := hrun.1 0 _ rfl 16 hmax
  exact ⟨_, _, session', rfl, rfl, hdecrypt⟩

end GroupConversation

end Olm
