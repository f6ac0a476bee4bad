import Olm.Symbolic

/-!
# Setting a session up

What `new_outbound_session` and `new_inbound_session` leave when they
succeed. Both store three or four Diffie–Hellman outputs in a buffer and
hand it to the ratchet with a length counted in outputs, where the ratchet
takes it in bytes: three or four bytes of the first output are all that
reaches the root key.
-/

namespace Olm.Session

variable {K : Type} {prims : Primitives K}

/-! ## The secret -/

theorem concatSecrets_length (secrets : List Curve25519SharedSecret) :
    (concatSecrets secrets).length = CURVE25519_SHARED_SECRET_LENGTH * secrets.length := by
  unfold concatSecrets
  induction secrets with
  | nil => rfl
  | cons secret secrets ih =>
    rw [List.map_cons, List.flatten_cons, List.length_append, ih, List.length_cons,
      FixedBytes.length_val, Nat.mul_succ, Nat.add_comm]

/-- The bytes of the secret that the ratchet is given: one for each of the
outputs. -/
def handedOver (secrets : List Curve25519SharedSecret) : Bytes :=
  (concatSecrets secrets).take (SIZEOF_UINT8 * secrets.length)

/-- What is handed over is never the secret. -/
theorem handedOver_ne {secrets : List Curve25519SharedSecret} (h : secrets ≠ []) :
    handedOver secrets ≠ concatSecrets secrets := by
  intro heq
  have hlen := congrArg List.length heq
  have hpos := List.length_pos_of_ne_nil h
  have h32 : CURVE25519_SHARED_SECRET_LENGTH = 32 := rfl
  rw [handedOver, List.length_take, concatSecrets_length, SIZEOF_UINT8, h32] at hlen
  omega

theorem outboundSecrets_length (localAccount : Account) (baseKey : Curve25519KeyPair)
    (identityKey preKey : Curve25519PublicKey) (oneTimeKey : Option Curve25519PublicKey) :
    (outboundSecrets prims localAccount baseKey identityKey preKey oneTimeKey).length =
      if oneTimeKey.isSome then 4 else 3 := by
  unfold outboundSecrets
  split <;> rfl

theorem inboundSecrets_length (identityKey oneTimeKey prekey : Curve25519KeyPair)
    (aliceIdentityKey aliceBaseKey : Curve25519PublicKey) (usingPrekeyAsOtk : Bool) :
    (inboundSecrets prims identityKey oneTimeKey prekey aliceIdentityKey aliceBaseKey
      usingPrekeyAsOtk).length = if usingPrekeyAsOtk then 3 else 4 := by
  unfold inboundSecrets
  split <;> rfl

/-! ## What a set-up that succeeds leaves -/

/-- **The exits of `new_outbound_session` that succeed.** -/
theorem newOutboundSession_eq_some {session session' : Session K} {localAccount : Account}
    {identityKey preKey : Curve25519PublicKey} {signingKey : Ed25519PublicKey}
    {preKeySignature : Ed25519Signature} {random : Bytes} {oneTimeKey : Option Curve25519PublicKey}
    (h : session.newOutboundSession prims localAccount identityKey signingKey preKey
      preKeySignature random oneTimeKey = .ok (session', some ())) :
    ∃ base ratchet : FixedBytes CURVE25519_KEY_LENGTH,
      loadArray CURVE25519_KEY_LENGTH random 0 = .ok base ∧
      loadArray CURVE25519_KEY_LENGTH random CURVE25519_KEY_LENGTH = .ok ratchet ∧
      prims.ed25519.verify signingKey preKey.val preKeySignature = true ∧
      session' = { session with
        receivedMessage := false
        aliceIdentityKey := localAccount.identityKeys.curve25519Key.publicKey
        aliceBaseKey := (prims.curve.generateKey base).publicKey
        bobOneTimeKey := oneTimeKey.getD preKey
        bobPrekey := preKey
        ratchet := session.ratchet.initialiseAsAlice prims.ratchetConfig
          (handedOver (outboundSecrets prims localAccount (prims.curve.generateKey base)
            identityKey preKey oneTimeKey))
          (prims.curve.generateKey ratchet) } := by
  unfold newOutboundSession at h
  split at h
  · simp [fail] at h
  · simp only [Checked.bind_eq_ok] at h
    obtain ⟨base, hbase, ratchet, hratchet, h⟩ := h
    split at h
    · simp [fail] at h
    · rename_i hverify
      simp only [Except.ok.injEq, Prod.mk.injEq, and_true] at h
      refine ⟨base, ratchet, hbase, hratchet, by simpa using hverify, ?_⟩
      rw [← h, handedOver, outboundSecrets_length]

/-- Where the signature of the prekey is accepted, so is the bundle. -/
theorem exists_newOutboundSession {session : Session K} {localAccount : Account}
    {identityKey preKey : Curve25519PublicKey} {signingKey : Ed25519PublicKey}
    {preKeySignature : Ed25519Signature} {random : Bytes}
    (hverify : prims.ed25519.verify signingKey preKey.val preKeySignature = true)
    (hrandom : newOutboundSessionRandomLength ≤ random.length)
    (oneTimeKey : Option Curve25519PublicKey) :
    ∃ session', session.newOutboundSession prims localAccount identityKey signingKey preKey
      preKeySignature random oneTimeKey = .ok (session', some ()) := by
  have htwo : newOutboundSessionRandomLength = CURVE25519_KEY_LENGTH + CURVE25519_KEY_LENGTH := rfl
  obtain ⟨base, hbase, -⟩ := loadArray_of_le
    (show 0 + CURVE25519_KEY_LENGTH ≤ random.length by omega)
  obtain ⟨ratchet, hratchet, -⟩ := loadArray_of_le
    (show CURVE25519_KEY_LENGTH + CURVE25519_KEY_LENGTH ≤ random.length by omega)
  unfold newOutboundSession
  rw [if_neg (Nat.not_lt.mpr hrandom), hbase, Checked.ok_bind, hratchet, Checked.ok_bind, hverify]
  exact ⟨_, rfl⟩

/-- **The exit of the set-up from a message's keys that succeeds.** The
prekey is one the account finds, and the one-time key another that it finds
unless it is that prekey. -/
theorem newInboundSessionFromKeys_eq_some {session session' : Session K} {localAccount : Account}
    {ratchetKey : Curve25519PublicKey}
    (h : session.newInboundSessionFromKeys prims localAccount ratchetKey =
      .ok (session', some ())) :
    ∃ (ourPrekey : PreKey) (bobOneTimeKey : Curve25519KeyPair),
      localAccount.lookupPrekey session.bobPrekey = some ourPrekey ∧
      (if session.bobPrekey = session.bobOneTimeKey then bobOneTimeKey = ourPrekey.key
        else ∃ key, localAccount.lookupKey session.bobOneTimeKey = some key ∧
          bobOneTimeKey = key.key) ∧
      session' = { session with
        ratchet := session.ratchet.initialiseAsBob prims.ratchetConfig
          (handedOver (inboundSecrets prims localAccount.identityKeys.curve25519Key
            bobOneTimeKey ourPrekey.key session.aliceIdentityKey session.aliceBaseKey
            (decide (session.bobPrekey = session.bobOneTimeKey)))) ratchetKey } := by
  unfold newInboundSessionFromKeys at h
  dsimp only at h
  split at h
  · simp [fail] at h
  · rename_i hkey
    cases hprekey : localAccount.lookupPrekey session.bobPrekey with
    | none => simp [hprekey, fail] at h
    | some ourPrekey =>
      simp only [hprekey, Except.ok.injEq, Prod.mk.injEq, and_true] at h
      by_cases husing : session.bobPrekey = session.bobOneTimeKey
      · refine ⟨ourPrekey, ourPrekey.key, rfl, by rw [if_pos husing], ?_⟩
        rw [← h, handedOver, inboundSecrets_length]
        simp only [husing, decide_true, if_true]
      · simp only [husing, decide_false, Bool.not_false, Bool.and_true, Bool.not_eq_true,
          Option.isNone_eq_false_iff, Option.isSome_iff_exists] at hkey
        obtain ⟨key, hkey⟩ := hkey
        refine ⟨ourPrekey, key.key, rfl, by rw [if_neg husing]; exact ⟨key, hkey, rfl⟩, ?_⟩
        rw [← h, handedOver, inboundSecrets_length]
        simp only [husing, hkey, decide_false, Bool.false_eq_true, if_false, Option.map_some,
          Option.getD_some]

/-- What `new_inbound_session` has read from a message by the time it looks
the keys up in the account. -/
structure Reading (macLength : ℕ) (theirIdentityKey : Option Curve25519PublicKey)
    (message : Bytes) where
  reader : PreKeyMessageReader
  body : ℕ
  messageReader : MessageReader
  aliceIdentityKey : Curve25519PublicKey
  aliceBaseKey : Curve25519PublicKey
  bobOneTimeKey : Curve25519PublicKey
  bobPrekey : Curve25519PublicKey
  ratchetKey : Curve25519PublicKey
  decoded : decodeOneTimeKeyMessage message 0 message.length = .ok reader
  checked : checkMessageFields reader theirIdentityKey.isSome = true
  same : identityKeyDiffers message reader.identityKey theirIdentityKey = .ok false
  identityKey_read : loadKey message reader.identityKey = .ok aliceIdentityKey
  baseKey_read : loadKey message reader.baseKey = .ok aliceBaseKey
  oneTimeKey_read : loadKey message reader.oneTimeKey = .ok bobOneTimeKey
  prekey_read : loadKey message reader.prekey = .ok bobPrekey
  body_eq : nonNull reader.message.value = .ok body
  body_decoded : decodeMessage message body reader.message.length macLength = .ok messageReader
  ratchetKey_some : messageReader.ratchetKey.value.isSome = true
  ratchetKey_length : messageReader.ratchetKey.length = CURVE25519_KEY_LENGTH
  ratchetKey_read : loadKey message messageReader.ratchetKey = .ok ratchetKey

/-- The session with the keys of the set-up stored in it. -/
def Reading.store {macLength : ℕ} {theirIdentityKey : Option Curve25519PublicKey} {message : Bytes}
    (reading : Reading macLength theirIdentityKey message) (session : Session K) : Session K :=
  { session with
    aliceIdentityKey := reading.aliceIdentityKey
    aliceBaseKey := reading.aliceBaseKey
    bobOneTimeKey := reading.bobOneTimeKey
    bobPrekey := reading.bobPrekey }

variable {session session' : Session K} {localAccount : Account}
  {theirIdentityKey : Option Curve25519PublicKey} {message : Bytes}

/-- Where the keys can be read, they decide. -/
theorem Reading.newInboundSession_eq
    (reading : Reading prims.cipher.macLength theirIdentityKey message)
    (session : Session K) (localAccount : Account) :
    session.newInboundSession prims localAccount theirIdentityKey message =
      (reading.store session).newInboundSessionFromKeys prims localAccount reading.ratchetKey := by
  have hsome := Option.isSome_iff_ne_none.mp reading.ratchetKey_some
  simp [newInboundSession, reading.decoded, reading.checked, reading.same,
    reading.identityKey_read, reading.baseKey_read, reading.oneTimeKey_read, reading.prekey_read,
    reading.body_eq, reading.body_decoded, reading.ratchetKey_read, hsome,
    reading.ratchetKey_length, Reading.store]

/-- **A set-up that succeeds has read its keys**, and found them in the
account. -/
theorem newInboundSession_eq_some
    (h : session.newInboundSession prims localAccount theirIdentityKey message =
      .ok (session', some ())) :
    ∃ reading : Reading prims.cipher.macLength theirIdentityKey message,
      (reading.store session).newInboundSessionFromKeys prims localAccount reading.ratchetKey =
        .ok (session', some ()) := by
  unfold newInboundSession at h
  obtain ⟨reader, hreader, h⟩ := Checked.bind_eq_ok.mp h
  split at h
  · simp [fail] at h
  · rename_i hchecked
    obtain ⟨differs, hdiffers, h⟩ := Checked.bind_eq_ok.mp h
    split at h
    · simp [fail] at h
    · rename_i hsame
      simp only [Checked.bind_eq_ok] at h
      obtain ⟨identityKey, hidentity, baseKey, hbase, oneTimeKey, hone, prekey, hprekey,
        body, hbody, messageReader, hmessage, h⟩ := h
      split at h
      · simp [fail] at h
      · rename_i hratchet
        obtain ⟨ratchetKey, hload, h⟩ := Checked.bind_eq_ok.mp h
        simp only [Bool.or_eq_true, bne_iff_ne, not_or, Bool.not_eq_true, ne_eq,
          Decidable.not_not, Option.isNone_eq_false_iff] at hratchet
        exact ⟨{
          reader := reader, body := body, messageReader := messageReader
          aliceIdentityKey := identityKey, aliceBaseKey := baseKey, bobOneTimeKey := oneTimeKey
          bobPrekey := prekey, ratchetKey := ratchetKey, decoded := hreader
          checked := by simpa using hchecked
          same := by rw [hdiffers]; simpa using hsame
          identityKey_read := hidentity, baseKey_read := hbase, oneTimeKey_read := hone
          prekey_read := hprekey, body_eq := hbody, body_decoded := hmessage
          ratchetKey_some := hratchet.1, ratchetKey_length := hratchet.2
          ratchetKey_read := hload }, h⟩

/-! ## What reaches the root key -/

/-- The root key, and the key of the chain Alice starts with. -/
def outboundKeys (session : Session K) : Option (K × K) :=
  session.ratchet.senderChain.toList.head?.map
    (fun chain => (session.ratchet.rootKey, chain.chainKey.key))

/-- The root key, and the key of the chain Bob starts with. -/
def inboundKeys (session : Session K) : Option (K × K) :=
  session.ratchet.receiverChains.toList.head?.map
    (fun chain => (session.ratchet.rootKey, chain.chainKey.key))

/-- The two halves of the derivation from a secret. -/
def rootKeysOf (prims : Primitives K) (secret : Bytes) : K × K :=
  prims.kdf.hkdfSha256 secret none OLM_KDF_INFO.rootInfo

/-- Alice's keys are derived from the three or four bytes that she hands over. -/
theorem outboundKeys_of_newOutboundSession {session session' : Session K} {localAccount : Account}
    {identityKey preKey : Curve25519PublicKey} {signingKey : Ed25519PublicKey}
    {preKeySignature : Ed25519Signature} {random : Bytes} {oneTimeKey : Option Curve25519PublicKey}
    (h : session.newOutboundSession prims localAccount identityKey signingKey preKey preKeySignature
      random oneTimeKey = .ok (session', some ())) :
    ∃ base, loadArray CURVE25519_KEY_LENGTH random 0 = .ok base ∧
      outboundKeys session' = some (rootKeysOf prims (handedOver (outboundSecrets prims localAccount
        (prims.curve.generateKey base) identityKey preKey oneTimeKey))) := by
  obtain ⟨base, ratchet, hbase, -, -, rfl⟩ := newOutboundSession_eq_some h
  exact ⟨base, hbase, rfl⟩

/-- And so are Bob's. -/
theorem inboundKeys_of_newInboundSession {session session' : Session K} {localAccount : Account}
    {theirIdentityKey : Option Curve25519PublicKey} {message : Bytes}
    (h : session.newInboundSession prims localAccount theirIdentityKey message =
      .ok (session', some ())) :
    ∃ (ourPrekey : PreKey) (bobOneTimeKey : Curve25519KeyPair),
      localAccount.lookupPrekey session'.bobPrekey = some ourPrekey ∧
      (if session'.bobPrekey = session'.bobOneTimeKey then bobOneTimeKey = ourPrekey.key
        else ∃ key, localAccount.lookupKey session'.bobOneTimeKey = some key ∧
          bobOneTimeKey = key.key) ∧
      inboundKeys session' = some (rootKeysOf prims (handedOver (inboundSecrets prims
        localAccount.identityKeys.curve25519Key bobOneTimeKey ourPrekey.key
        session'.aliceIdentityKey session'.aliceBaseKey
        (decide (session'.bobPrekey = session'.bobOneTimeKey))))) := by
  obtain ⟨reading, h⟩ := newInboundSession_eq_some h
  obtain ⟨ourPrekey, bobOneTimeKey, hprekey, hone, rfl⟩ := newInboundSessionFromKeys_eq_some h
  exact ⟨ourPrekey, bobOneTimeKey, hprekey, hone, rfl⟩

/-- **The secret does not reach the root key.** A set-up that succeeds, on
either side, derives its keys from the three or four bytes it hands over,
which are not the keys the whole secret would give. -/
theorem setup_keys (hinjective : Function.Injective (rootKeysOf prims)) :
    (∀ (session session' : Session K) (localAccount : Account)
      (identityKey preKey : Curve25519PublicKey) (signingKey : Ed25519PublicKey)
      (preKeySignature : Ed25519Signature) (random : Bytes)
      (oneTimeKey : Option Curve25519PublicKey),
      session.newOutboundSession prims localAccount identityKey signingKey preKey preKeySignature
        random oneTimeKey = .ok (session', some ()) →
      ∃ base, loadArray CURVE25519_KEY_LENGTH random 0 = .ok base ∧
        let secrets := outboundSecrets prims localAccount (prims.curve.generateKey base)
          identityKey preKey oneTimeKey
        outboundKeys session' = some (rootKeysOf prims (handedOver secrets)) ∧
        outboundKeys session' ≠ some (rootKeysOf prims (concatSecrets secrets))) ∧
    (∀ (session session' : Session K) (localAccount : Account)
      (theirIdentityKey : Option Curve25519PublicKey) (message : Bytes),
      session.newInboundSession prims localAccount theirIdentityKey message =
        .ok (session', some ()) →
      ∃ (ourPrekey : PreKey) (bobOneTimeKey : Curve25519KeyPair),
        localAccount.lookupPrekey session'.bobPrekey = some ourPrekey ∧
        (if session'.bobPrekey = session'.bobOneTimeKey then bobOneTimeKey = ourPrekey.key
          else ∃ key, localAccount.lookupKey session'.bobOneTimeKey = some key ∧
            bobOneTimeKey = key.key) ∧
        let secrets := inboundSecrets prims localAccount.identityKeys.curve25519Key bobOneTimeKey
          ourPrekey.key session'.aliceIdentityKey session'.aliceBaseKey
          (decide (session'.bobPrekey = session'.bobOneTimeKey))
        inboundKeys session' = some (rootKeysOf prims (handedOver secrets)) ∧
        inboundKeys session' ≠ some (rootKeysOf prims (concatSecrets secrets))) := by
  have hne : ∀ {secrets : List Curve25519SharedSecret}, secrets ≠ [] →
      some (rootKeysOf prims (handedOver secrets)) ≠
        some (rootKeysOf prims (concatSecrets secrets)) := by
    intro secrets hsecrets heq
    exact handedOver_ne hsecrets (hinjective (Option.some.inj heq))
  constructor
  · intro session session' localAccount identityKey preKey signingKey preKeySignature random
      oneTimeKey h
    obtain ⟨base, hbase, hkeys⟩ := outboundKeys_of_newOutboundSession h
    refine ⟨base, hbase, hkeys, ?_⟩
    rw [hkeys]
    exact hne (by simp [outboundSecrets])
  · intro session session' localAccount theirIdentityKey message h
    obtain ⟨ourPrekey, bobOneTimeKey, hprekey, hone, hkeys⟩ := inboundKeys_of_newInboundSession h
    refine ⟨ourPrekey, bobOneTimeKey, hprekey, hone, hkeys, ?_⟩
    rw [hkeys]
    exact hne (by simp [inboundSecrets])

/-- A session from an account of zeros, on each side. -/
theorem setup_keys_symbolic :
    (∃ session', (Session.new SymbolicKey.zero).newOutboundSession .symbolic Account.new
        (FixedBytes.zero _) (FixedBytes.zero _) (FixedBytes.zero _) (FixedBytes.zero _)
        (List.replicate 64 0) none = .ok (session', some ()) ∧
      outboundKeys session' = some (rootKeysOf .symbolic [0, 0, 0])) ∧
    (∃ session', (Session.new SymbolicKey.zero).newInboundSession .symbolic Account.new none
        zeroPreKeyMessage = .ok (session', some ()) ∧
      inboundKeys session' = some (rootKeysOf .symbolic [0, 0, 0])) := by
  have hkeys := setup_keys Primitives.symbolic_rootKeys_injective
  have hin : (Session.new SymbolicKey.zero).newInboundSession .symbolic Account.new none
      zeroPreKeyMessage = .ok ({ Session.new SymbolicKey.zero with
        ratchet := (Session.new SymbolicKey.zero).ratchet.initialiseAsBob
          Primitives.symbolic.ratchetConfig [0, 0, 0] (FixedBytes.zero _) }, some ()) := by
    decide +kernel
  obtain ⟨base, hbase, hout, -⟩ := hkeys.1 (Session.new .zero) _ Account.new (FixedBytes.zero _)
    (FixedBytes.zero _) (FixedBytes.zero _) (FixedBytes.zero _) (List.replicate 64 0) none rfl
  obtain ⟨prekey, oneTimeKey, hprekey, hone, hin', -⟩ := hkeys.2 _ _ _ _ _ hin
  obtain rfl : FixedBytes.zero _ = base := Except.ok.inj hbase
  obtain rfl : PreKey.zero = prekey := Option.some.inj hprekey
  obtain rfl : oneTimeKey = Curve25519KeyPair.zero := hone
  exact ⟨⟨_, rfl, hout⟩, _, hin, hin'⟩

/-- Two base keys give two secrets and one root key, though the derivation
is injective. -/
theorem setup_keys_same :
    Function.Injective (rootKeysOf Primitives.symbolic) ∧
    ∃ session₁ session₂ secrets₁ secrets₂,
      (Session.new SymbolicKey.zero).newOutboundSession .symbolic Account.new
        (FixedBytes.zero _) (FixedBytes.zero _) (FixedBytes.zero _) (FixedBytes.zero _)
        (List.replicate 64 0) none = .ok (session₁, some ()) ∧
      (Session.new SymbolicKey.zero).newOutboundSession .symbolic Account.new
        (FixedBytes.zero _) (FixedBytes.zero _) (FixedBytes.zero _) (FixedBytes.zero _)
        (List.replicate 64 1) none = .ok (session₂, some ()) ∧
      secrets₁ = outboundSecrets .symbolic Account.new
        (Curve25519.xor.generateKey ⟨List.replicate 32 0, rfl⟩) (FixedBytes.zero _)
        (FixedBytes.zero _) none ∧
      secrets₂ = outboundSecrets .symbolic Account.new
        (Curve25519.xor.generateKey ⟨List.replicate 32 1, rfl⟩) (FixedBytes.zero _)
        (FixedBytes.zero _) none ∧
      concatSecrets secrets₁ ≠ concatSecrets secrets₂ ∧
      outboundKeys session₁ ≠ some (rootKeysOf .symbolic (concatSecrets secrets₁)) ∧
      outboundKeys session₁ = outboundKeys session₂ :=
  ⟨Primitives.symbolic_rootKeys_injective, _, _, _, _, rfl, rfl, rfl, rfl,
    by decide +kernel, by decide +kernel, by decide +kernel⟩

end Olm.Session
