import Olm.Account.Bundle
import Olm.Session.Inbound
import Olm.Session.Messages

/-!
# The two sides of a set-up

Alice sets a session up from the keys of Bob's account and sends any number
of messages before she receives one. Each of them is a pre-key message that
names the keys of the set-up, so Bob can set his side up from whichever
arrives first: he finds the private parts in his account, comes to the same
secret, and reads the message. Alice counts her messages in 32 bits, and
the claim ends where her counter wraps around.
-/

namespace Olm.Session

variable {K : Type} {prims : Primitives K}

/-! ## The two secrets -/

/-- **Both sides compute the same outputs** in the same order. -/
theorem outboundSecrets_eq_inboundSecrets (hcommutes : prims.curve.Commutes) {localAccount : Account}
    {baseKey identityKey prekey oneTimeKey : Curve25519KeyPair}
    (hlocal : prims.curve.Generated localAccount.identityKeys.curve25519Key)
    (hbase : prims.curve.Generated baseKey) (hidentity : prims.curve.Generated identityKey)
    (hprekey : prims.curve.Generated prekey) (honeTimeKey : prims.curve.Generated oneTimeKey)
    (usingPrekeyAsOtk : Bool) (hsame : usingPrekeyAsOtk = true → oneTimeKey = prekey) :
    outboundSecrets prims localAccount baseKey identityKey.publicKey prekey.publicKey
        (if usingPrekeyAsOtk then none else some oneTimeKey.publicKey) =
      inboundSecrets prims identityKey oneTimeKey prekey
        localAccount.identityKeys.curve25519Key.publicKey baseKey.publicKey usingPrekeyAsOtk := by
  have hlocalOne := hcommutes.sharedSecret_comm hlocal honeTimeKey
  have hbaseIdentity := hcommutes.sharedSecret_comm hbase hidentity
  have hbaseOne := hcommutes.sharedSecret_comm hbase honeTimeKey
  have hbasePrekey := hcommutes.sharedSecret_comm hbase hprekey
  unfold outboundSecrets inboundSecrets
  cases usingPrekeyAsOtk with
  | true =>
    obtain rfl := hsame rfl
    simp only [if_true, Option.getD_none, Option.isSome_none, Bool.false_eq_true, if_false,
      hlocalOne, hbaseIdentity, hbaseOne]
  | false =>
    simp only [Bool.false_eq_true, if_false, Option.getD_some, Option.isSome_some, if_true,
      hlocalOne, hbaseIdentity, hbaseOne, hbasePrekey]

/-- Where the keys of a message are found, the set-up succeeds. -/
theorem newInboundSessionFromKeys_of_found {session : Session K} {localAccount : Account}
    (ratchetKey : Curve25519PublicKey) {ourPrekey : PreKey} {oneTimeKey : Curve25519KeyPair}
    (hprekey : localAccount.lookupPrekey session.bobPrekey = some ourPrekey)
    (hkey : if session.bobPrekey = session.bobOneTimeKey then oneTimeKey = ourPrekey.key
      else ∃ key, localAccount.lookupKey session.bobOneTimeKey = some key ∧ oneTimeKey = key.key) :
    session.newInboundSessionFromKeys prims localAccount ratchetKey =
      .ok ({ session with
        ratchet := session.ratchet.initialiseAsBob prims.ratchetConfig
          (handedOver (inboundSecrets prims localAccount.identityKeys.curve25519Key oneTimeKey
            ourPrekey.key session.aliceIdentityKey session.aliceBaseKey
            (decide (session.bobPrekey = session.bobOneTimeKey)))) ratchetKey }, some ()) := by
  unfold newInboundSessionFromKeys handedOver
  rw [inboundSecrets_length]
  by_cases husing : session.bobPrekey = session.bobOneTimeKey
  · rw [if_pos husing] at hkey
    rw [husing] at hprekey
    simp only [hprekey, husing, hkey, decide_true, Bool.not_true, Bool.and_false,
      Bool.false_eq_true, if_false, if_true]
  · rw [if_neg husing] at hkey
    obtain ⟨key, hfound, rfl⟩ := hkey
    simp only [hprekey, husing, hfound, decide_false, Bool.not_false, Bool.and_true,
      Option.isNone_some, Bool.false_eq_true, if_false, Option.map_some, Option.getD_some]

/-! ## What Alice sends -/

/-- The sessions that come from `start` by encrypting, with the number of
messages that were encrypted. -/
inductive Encrypted (prims : Primitives K) (start : Session K) : ℕ → Session K → Prop
  | start : Encrypted prims start 0 start
  | message {n : ℕ} {session session' : Session K} {plaintext random message buf : Bytes}
      {length : ℕ} : Encrypted prims start n session →
      session.encrypt prims plaintext random message = .ok (session', some (buf, length)) →
      Encrypted prims start (n + 1) session'
  | failed {n : ℕ} {session session' : Session K} {plaintext random message : Bytes} :
      Encrypted prims start n session →
      session.encrypt prims plaintext random message = .ok (session', none) →
      Encrypted prims start n session'

/-- The session `start` with its sender chain `n` messages on, counted in 32
bits. -/
structure SendingAt (prims : Primitives K) (start : Session K) (chain : SenderChain K) (n : ℕ)
    (session : Session K) : Prop where
  receivedMessage : session.receivedMessage = start.receivedMessage
  aliceIdentityKey : session.aliceIdentityKey = start.aliceIdentityKey
  aliceBaseKey : session.aliceBaseKey = start.aliceBaseKey
  bobOneTimeKey : session.bobOneTimeKey = start.bobOneTimeKey
  bobPrekey : session.bobPrekey = start.bobPrekey
  senderChain : session.ratchet.senderChain.toList = [{ chain with
    chainKey :=
      { index := n % 2 ^ 32, key := (chainKeyAt prims.ratchetConfig chain.chainKey.key n).key } }]

section Sending

variable {start session session' : Session K} {chain : SenderChain K} {n : ℕ}
  {plaintext random message : Bytes}

/-- The chain key moves on, and its index wraps around. -/
theorem advanceChainKey_mod (config : RatchetConfig K) (key : K) (n : ℕ) :
    advanceChainKey config { index := n % 2 ^ 32, key := (chainKeyAt config key n).key } =
      { index := (n + 1) % 2 ^ 32, key := (chainKeyAt config key (n + 1)).key } := by
  simp only [advanceChainKey, chainKeyAt, Function.iterate_succ_apply', Nat.mod_add_mod]

/-- The sender chain is there, and used. -/
theorem SendingAt.startSenderChain (h : SendingAt prims start chain n session) (random : Bytes) :
    session.ratchet.startSenderChain prims.ratchetConfig random = .ok (session.ratchet,
      { chain with chainKey :=
        { index := n % 2 ^ 32
          key := (chainKeyAt prims.ratchetConfig chain.chainKey.key n).key } }) := by
  simp only [Ratchet.startSenderChain, h.senderChain]

/-- What a message of the ratchet leaves of the sender chain. -/
theorem SendingAt.set (h : SendingAt prims start chain n session) :
    ((session.ratchet.senderChain.set 0 { chain with
      chainKey := advanceChainKey prims.ratchetConfig
        { index := n % 2 ^ 32
          key := (chainKeyAt prims.ratchetConfig chain.chainKey.key n).key } })).toList =
      [{ chain with chainKey :=
        { index := (n + 1) % 2 ^ 32
          key := (chainKeyAt prims.ratchetConfig chain.chainKey.key (n + 1)).key } }] := by
  rw [BoundedList.toList_set, h.senderChain, List.set_cons_zero, advanceChainKey_mod]

theorem SendingAt.encrypt {result : Option (Bytes × ℕ)} (h : SendingAt prims start chain n session)
    (hrun : session.encrypt prims plaintext random message = .ok (session', result)) :
    SendingAt prims start chain (if result.isSome then n + 1 else n) session' := by
  rcases encrypt_outcome hrun with ⟨rfl, rfl⟩ | ⟨buf, output, maxOutputLength, ratchet, -, hratchet,
    hnone, hsome⟩
  · exact ⟨h.receivedMessage, h.aliceIdentityKey, h.aliceBaseKey, h.bobOneTimeKey, h.bobPrekey,
      h.senderChain⟩
  · rcases Ratchet.encrypt_exits hratchet with ⟨rfl, code, -, rfl⟩ | ⟨started, senderChain, buf',
      hstart, rfl, rfl, -, -⟩
    · rw [hnone rfl]
      exact ⟨h.receivedMessage, h.aliceIdentityKey, h.aliceBaseKey, h.bobOneTimeKey, h.bobPrekey,
        h.senderChain⟩
    · rw [h.startSenderChain] at hstart
      simp only [Except.ok.injEq, Prod.mk.injEq] at hstart
      obtain ⟨rfl, rfl⟩ := hstart
      rw [hsome rfl]
      exact ⟨h.receivedMessage, h.aliceIdentityKey, h.aliceBaseKey, h.bobOneTimeKey, h.bobPrekey,
        h.set⟩

theorem Encrypted.sendingAt (hstart : SendingAt prims start chain 0 start)
    (h : Encrypted prims start n session) : SendingAt prims start chain n session := by
  induction h with
  | start => exact hstart
  | message _ hrun ih => exact ih.encrypt hrun
  | failed _ hrun ih => exact ih.encrypt hrun

/-- The header is that of the first message. -/
theorem SendingAt.header_eq (h : SendingAt prims start chain n session) (messageBodyLength : ℕ) :
    session.header messageBodyLength = start.header messageBodyLength := by
  simp only [header, h.receivedMessage, h.aliceIdentityKey, h.aliceBaseKey, h.bobOneTimeKey,
    h.bobPrekey]

/-- **A message of hers**: the header of the set-up, and the message of the
chain, sealed. -/
theorem SendingAt.message_eq {buf : Bytes} {length : ℕ} (h : SendingAt prims start chain n session)
    (hlawful : prims.cipher.Lawful) (hsize : message.length < 2 ^ SIZE_WIDTH)
    (hrun : session.encrypt prims plaintext random message =
      .ok (session', some (buf, length))) :
    ∃ bytes : Bytes,
      Sealed prims.ratchetConfig (messageKeyAt prims.ratchetConfig chain.chainKey.key n)
        chain.ratchetKey.publicKey (n % 2 ^ 32) plaintext bytes ∧
      bytes.length < 2 ^ SIZE_WIDTH ∧
      buf.take (session.encryptMessageLength prims plaintext.length) =
        start.header bytes.length ++ bytes := by
  obtain ⟨started, senderChain, bytes, hstart, -, hbytes, hsealed, htake, -⟩ :=
    exists_sealedBy_of_encrypt hlawful.leaves hsize hrun
  rw [h.startSenderChain] at hstart
  simp only [Except.ok.injEq, Prod.mk.injEq] at hstart
  obtain ⟨rfl, rfl⟩ := hstart
  exact ⟨bytes, hsealed, hbytes, by rw [htake, h.header_eq]⟩

/-- She can send another message. -/
theorem SendingAt.exists_encrypt (h : SendingAt prims start chain n session)
    (hlawful : prims.cipher.Lawful) (plaintext : Bytes)
    (hsmall : prims.cipher.encryptCiphertextLength plaintext.length + prims.cipher.macLength <
      2 ^ 32) :
    ∃ message session' buf length, message.length < 2 ^ SIZE_WIDTH ∧
      session.encrypt prims plaintext [] message = .ok (session', some (buf, length)) := by
  have hlength := encryptMessageLength_lt h.senderChain (Nat.mod_lt n (by decide)) hsmall
  have hrandom : session.encryptRandomLength ≤ ([] : Bytes).length := by
    rw [encryptRandomLength, Ratchet.encryptRandomLength, h.senderChain]
    exact Nat.le_refl 0
  obtain ⟨message, hmessage⟩ : ∃ message : Bytes,
      message.length = session.encryptMessageLength prims plaintext.length :=
    ⟨List.replicate _ 0, List.length_replicate⟩
  rw [← hmessage] at hlength
  obtain ⟨session', buf, length, hrun⟩ := encrypt_of_room hlawful hlength
    (Nat.le_of_eq hmessage.symm) hrandom (h.startSenderChain [])
  exact ⟨message, session', buf, length, hlength, hrun⟩

/-- So she sends as many as she likes. -/
theorem exists_encrypted (hstart : SendingAt prims start chain 0 start)
    (hlawful : prims.cipher.Lawful)
    (hsmall : prims.cipher.encryptCiphertextLength 0 + prims.cipher.macLength < 2 ^ 32) (n : ℕ) :
    ∃ session, Encrypted prims start n session := by
  induction n with
  | zero => exact ⟨start, .start⟩
  | succ n ih =>
    obtain ⟨session, hsession⟩ := ih
    obtain ⟨message, session', buf, length, -, hrun⟩ :=
      (hsession.sendingAt hstart).exists_encrypt hlawful [] hsmall
    exact ⟨session', .message hsession hrun⟩

end Sending

/-! ## What Bob reads -/

section Receiving

variable {session : Session K} {ratchetKey : Curve25519PublicKey} {counter : ℕ}
  {plaintext bytes : Bytes}

/-- A sealed message behind a header is decoded. -/
theorem decodeMessage_of_sealed {P : (key : K) → (header body plaintext : Bytes) → Prop} {key : K}
    {macLength : ℕ}
    (hsealed : SealedBy prims.ratchetConfig P key ratchetKey counter plaintext bytes)
    (hmac : macLength = prims.cipher.macLength) (hcounter : counter < 2 ^ 32) (pre : Bytes) :
    ∃ reader, decodeMessage (pre ++ bytes) pre.length bytes.length macLength = .ok reader ∧
      reader.counter = { value := counter, hasValue := true } ∧
      reader.ratchetKey.value.isSome = true ∧ reader.ratchetKey.length = CURVE25519_KEY_LENGTH ∧
      loadKey (pre ++ bytes) reader.ratchetKey = .ok ratchetKey := by
  obtain ⟨hsize, body, rfl, hbody, -⟩ := hsealed
  subst hmac
  have hdrop : (pre ++ (messageHeader PROTOCOL_VERSION ratchetKey.val counter
        (prims.ratchetConfig.ratchetCipher.encryptCiphertextLength plaintext.length) ++ body)).drop
        pre.length =
      messageHeader PROTOCOL_VERSION ratchetKey.val counter
        (prims.ratchetConfig.ratchetCipher.encryptCiphertextLength plaintext.length) ++
        (body ++ []) := by
    rw [List.drop_left, List.append_nil]
  refine ⟨Ratchet.readerOf pre.length (messageHeader PROTOCOL_VERSION ratchetKey.val counter
      (prims.ratchetConfig.ratchetCipher.encryptCiphertextLength plaintext.length)).length
      body.length counter
      (prims.ratchetConfig.ratchetCipher.encryptCiphertextLength plaintext.length),
    ?_, rfl, rfl, rfl, Ratchet.load_readerOf hdrop⟩
  rw [List.length_append]
  exact Ratchet.decodeMessage_eq_readerOf prims.ratchetConfig hdrop rfl hbody hsize hcounter

/-- A field that holds a key. -/
theorem loadKey_of_reads {buf : Bytes} {field : StringField} {key : Curve25519PublicKey}
    (h : field.Reads buf key.val) : field.IsKey ∧ loadKey buf field = .ok key := by
  obtain ⟨pos, rest, rfl, hpos⟩ := h
  refine ⟨⟨rfl, FixedBytes.length_val key⟩, ?_⟩
  rw [loadKey, nonNull, Checked.ok_bind]
  exact loadArray_of_drop_eq_append hpos

/-- **A message of the set-up is read as it was made**, where nobody else's
identity key is expected. -/
theorem exists_reading {key : K}
    (hsealed : Sealed prims.ratchetConfig key ratchetKey counter plaintext bytes)
    (hcounter : counter < 2 ^ 32) (hsize : bytes.length < 2 ^ SIZE_WIDTH)
    (hreceived : session.receivedMessage = false)
    {theirIdentityKey : Option Curve25519PublicKey}
    (htheirs : ∀ theirs ∈ theirIdentityKey, theirs = session.aliceIdentityKey) :
    ∃ reading : Reading prims.cipher.macLength theirIdentityKey
        (session.header bytes.length ++ bytes),
      reading.aliceIdentityKey = session.aliceIdentityKey ∧
      reading.aliceBaseKey = session.aliceBaseKey ∧
      reading.bobOneTimeKey = session.bobOneTimeKey ∧
      reading.bobPrekey = session.bobPrekey ∧ reading.ratchetKey = ratchetKey := by
  obtain ⟨messageReader, hmessage, -, hsome, hlength, hratchetKey⟩ :=
    decodeMessage_of_sealed hsealed.sealedBy rfl hcounter (session.header bytes.length)
  obtain ⟨reader, hreader, hprekey, hone, hbase, hidentity, hbody⟩ :=
    exists_reader_of_header hreceived hsize
  refine ⟨{
    reader := reader, body := (session.header bytes.length).length, messageReader := messageReader
    aliceIdentityKey := session.aliceIdentityKey, aliceBaseKey := session.aliceBaseKey
    bobOneTimeKey := session.bobOneTimeKey, bobPrekey := session.bobPrekey
    ratchetKey := ratchetKey
    decoded := hreader, checked := ?_, same := ?_
    identityKey_read := (loadKey_of_reads hidentity).2, baseKey_read := (loadKey_of_reads hbase).2
    oneTimeKey_read := (loadKey_of_reads hone).2, prekey_read := (loadKey_of_reads hprekey).2
    body_eq := ?_, body_decoded := ?_
    ratchetKey_some := hsome, ratchetKey_length := hlength, ratchetKey_read := hratchetKey },
    rfl, rfl, rfl, rfl, rfl⟩
  · rw [checkMessageFields_iff, hbody]
    exact ⟨.inl (loadKey_of_reads hidentity).1, rfl, (loadKey_of_reads hbase).1,
      (loadKey_of_reads hone).1⟩
  · -- the identity key in the message is the expected one
    obtain ⟨pos, rest, hfield, hpos⟩ := hidentity
    unfold identityKeyDiffers
    cases theirIdentityKey with
    | none => rw [hfield]
    | some theirs =>
      rw [hfield]
      dsimp only
      rw [loadArray_of_drop_eq_append hpos, Checked.ok_bind, htheirs theirs rfl]
      simp
  · rw [hbody, nonNull]
  · rw [hbody]
    exact hmessage

/-- A session with a receiver chain that is new decrypts the messages of that
chain, up to the gap it allows. -/
theorem decrypt_of_chain {inbound : Session K} {key : K} {header : Bytes} {maxPlaintextLength : ℕ}
    (hchains : inbound.ratchet.receiverChains.toList =
      [{ ratchetKey := ratchetKey, chainKey := chainKeyAt prims.ratchetConfig key 0 }])
    (hsealed : Sealed prims.ratchetConfig (messageKeyAt prims.ratchetConfig key counter) ratchetKey
      counter plaintext bytes)
    (hcounter : counter < 2 ^ 32) (hgap : counter ≤ MAX_MESSAGE_GAP)
    (hframes : Frames .PRE_KEY header bytes)
    (hroom : plaintextRoom prims.ratchetConfig plaintext ≤ maxPlaintextLength) :
    ∃ inbound', inbound.decrypt prims .PRE_KEY (header ++ bytes) maxPlaintextLength false =
      .ok (inbound', some plaintext) := by
  obtain ⟨reader, hread, hopens⟩ := hsealed.readAs hcounter header []
  obtain ⟨hverify, hdecrypt⟩ := hopens maxPlaintextLength hroom
  have hexisting : ∃ ratchet', inbound.ratchet.decryptReader prims.ratchetConfig
      (header ++ (bytes ++ [])) reader ratchetKey maxPlaintextLength false =
        .ok (ratchet', some plaintext) := by
    refine Ratchet.decryptReader_existing ?_ ?_
    · rw [hchains]
      exact ⟨_, List.mem_singleton_self _, rfl⟩
    · rw [hchains]
      rintro chain hchain -
      obtain rfl := List.mem_singleton.mp hchain
      rw [hread.counter_eq, chainKeyAt_index,
        Ratchet.keysAhead_chainKeyAt key (Nat.zero_le _) hcounter]
      exact ⟨Nat.zero_le _, by rw [Nat.zero_add]; exact hgap, hverify counter⟩
  obtain ⟨ratchet', hratchet⟩ := hexisting
  rw [decrypt_of_frames hframes, hdecrypt, hratchet, Checked.ok_bind]
  exact ⟨_, rfl⟩

/-- It decrypts nothing that was sealed under another key with the counter of
one of them. -/
theorem decrypt_ne_some_of_rejects {inbound inbound' : Session K} {key key' : K}
    {header plaintext' : Bytes} {maxPlaintextLength : ℕ} {isSequential : Bool}
    (hchains : inbound.ratchet.receiverChains.toList =
      [{ ratchetKey := ratchetKey, chainKey := chainKeyAt prims.ratchetConfig key 0 }])
    (hsealed : Sealed prims.ratchetConfig key' ratchetKey counter plaintext bytes)
    (hrejects : Rejects prims.ratchetConfig (messageKeyAt prims.ratchetConfig key counter) bytes)
    (hcounter : counter < 2 ^ 32) (hframes : Frames .PRE_KEY header bytes) :
    inbound.decrypt prims .PRE_KEY (header ++ bytes) maxPlaintextLength isSequential ≠
      .ok (inbound', some plaintext') := by
  intro hrun
  rw [decrypt_of_frames hframes] at hrun
  obtain ⟨⟨ratchet', result⟩, hratchet, hrun⟩ := Checked.bind_eq_ok.mp hrun
  cases result with
  | none => simp only [failRatchet, Except.ok.injEq, Prod.mk.injEq, reduceCtorEq, and_false] at hrun
  | some opened =>
    rcases hsealed.decrypt_outcome hcounter hratchet with ⟨hnone, -⟩ | ⟨reader, hread, hout⟩
    · cases hnone
    cases hout with
    | newChain senderChain rest plaintext'' hnew =>
      rw [hchains] at hnew
      exact hnew _ (List.mem_singleton_self _) rfl
    | skipped place chain keyPlace plaintext'' hplace hkey hbehind =>
      -- the chain starts at 0, so nothing is behind it
      rw [hchains, List.getElem?_eq_some_iff] at hplace
      obtain ⟨hplace, rfl⟩ := hplace
      obtain rfl : place = 0 := Nat.lt_one_iff.mp hplace
      exact Nat.not_lt_zero _ hbehind
    | existing place chain plaintext'' hplace hkey hsequential hahead hgap hverify =>
      rw [hchains, List.getElem?_eq_some_iff] at hplace
      obtain ⟨hplace, rfl⟩ := hplace
      obtain rfl : place = 0 := Nat.lt_one_iff.mp hplace
      simp only [List.getElem_cons_zero, hread.counter_eq] at hverify
      rw [Ratchet.keysAhead_chainKeyAt key (Nat.zero_le _) hcounter,
        hrejects header [] reader counter maxPlaintextLength hread.decoded] at hverify
      cases hverify

end Receiving

/-! ## The set-up -/

variable (prims) in
/-- The set-up of a new session from the keys of another account: one of its
prekeys, with the signature, and one of its one-time keys or none. -/
def newOutboundSessionTo (zeroKey : K) (localAccount account : Account) (prekey : PreKey)
    (oneTimeKey : Option OneTimeKey) (random : Bytes) : Checked (Session K × Option Unit) :=
  (Session.new zeroKey).newOutboundSession prims localAccount
    account.identityKeys.curve25519Key.publicKey account.identityKeys.ed25519Key.publicKey
    prekey.key.publicKey prekey.signature random
    (oneTimeKey.map (fun oneTimeKey => oneTimeKey.key.publicKey))

section SetUp

variable {zeroKey : K} {alice bob : Account} {prekey : PreKey} {oneTimeKey : Option OneTimeKey}
  {random : Bytes}

/-- The keys of Bob's account are accepted. -/
theorem exists_newOutboundSessionTo (zeroKey : K) (alice : Account)
    (oneTimeKey : Option OneTimeKey) (haccepts : prims.ed25519.Accepts)
    (hmade : bob.KeysMade prims.curve prims.ed25519) (hprekey : bob.HoldsPrekey prekey)
    (hrandom : newOutboundSessionRandomLength ≤ random.length) :
    ∃ start, newOutboundSessionTo prims zeroKey alice bob prekey oneTimeKey random =
      .ok (start, some ()) :=
  exists_newOutboundSession (hmade.verify haccepts hprekey) hrandom _

/-- Bob finds the keys that a message names, and comes to Alice's secret. -/
theorem newInboundSessionFromKeys_of_held (hcommutes : prims.curve.Commutes)
    (hmade : bob.KeysMade prims.curve prims.ed25519)
    (halice : prims.curve.Generated alice.identityKeys.curve25519Key)
    (hprekey : bob.HoldsPrekey prekey)
    (hkey : ∀ key ∈ oneTimeKey, bob.HoldsKey key ∧ key.key.publicKey ≠ prekey.key.publicKey)
    {baseKey : Curve25519KeyPair} (hbase : prims.curve.Generated baseKey) (session : Session K)
    (hidentityKey : session.aliceIdentityKey = alice.identityKeys.curve25519Key.publicKey)
    (hbaseKey : session.aliceBaseKey = baseKey.publicKey)
    (hbobPrekey : session.bobPrekey = prekey.key.publicKey)
    (hbobOneTimeKey : session.bobOneTimeKey =
      (oneTimeKey.map (fun key => key.key.publicKey)).getD prekey.key.publicKey)
    (ratchetKey : Curve25519PublicKey) :
    session.newInboundSessionFromKeys prims bob ratchetKey =
      .ok ({ session with
        ratchet := session.ratchet.initialiseAsBob prims.ratchetConfig
          (handedOver (outboundSecrets prims alice baseKey
            bob.identityKeys.curve25519Key.publicKey prekey.key.publicKey
            (oneTimeKey.map (fun key => key.key.publicKey)))) ratchetKey }, some ()) := by
  obtain ⟨ourPrekey, hfound, hpublic, hgenerated⟩ := hmade.lookupPrekey hprekey
  rw [← hbobPrekey] at hfound
  cases oneTimeKey with
  | none =>
    -- the message names the prekey twice: Bob leaves the fourth step out, as Alice did
    have husing : session.bobPrekey = session.bobOneTimeKey := by
      rw [hbobPrekey, hbobOneTimeKey]
      rfl
    have hsecrets := outboundSecrets_eq_inboundSecrets hcommutes halice hbase hmade.identityKey
      hgenerated hgenerated true (fun _ => rfl)
    rw [if_pos rfl] at hsecrets
    rw [newInboundSessionFromKeys_of_found ratchetKey hfound (by rw [if_pos husing]),
      hidentityKey, hbaseKey, decide_eq_true husing, ← hsecrets, hpublic]
    rfl
  | some key =>
    -- the keys differ, so Bob looks the one-time key up
    obtain ⟨hholds, hne⟩ := hkey key rfl
    have husing : session.bobPrekey ≠ session.bobOneTimeKey := by
      rw [hbobPrekey, hbobOneTimeKey]
      exact hne.symm
    obtain ⟨ourKey, hfoundKey, hpublicKey, hgeneratedKey⟩ := hmade.lookupKey hholds
    have hlookup : bob.lookupKey session.bobOneTimeKey = some ourKey := by
      rw [hbobOneTimeKey]
      exact hfoundKey
    have hsecrets := outboundSecrets_eq_inboundSecrets hcommutes halice hbase hmade.identityKey
      hgenerated hgeneratedKey false (fun h => nomatch h)
    rw [if_neg Bool.false_ne_true] at hsecrets
    rw [newInboundSessionFromKeys_of_found ratchetKey hfound
        (by rw [if_neg husing]; exact ⟨ourKey, hlookup, rfl⟩),
      hidentityKey, hbaseKey, decide_eq_false husing, ← hsecrets, hpublic, hpublicKey]
    rfl

/-- The root key and the chain key of the set-up. -/
def startKeys (prims : Primitives K) (alice bob : Account) (prekey : PreKey)
    (oneTimeKey : Option OneTimeKey) (baseKey : Curve25519KeyPair) : K × K :=
  rootKeysOf prims (handedOver (outboundSecrets prims alice baseKey
    bob.identityKeys.curve25519Key.publicKey prekey.key.publicKey
    (oneTimeKey.map (fun key => key.key.publicKey))))

/-- What Alice starts from: nothing was received, the keys of the set-up, and
a chain that comes with the root key from the secret. -/
structure SetUp (prims : Primitives K) (alice bob : Account) (prekey : PreKey)
    (oneTimeKey : Option OneTimeKey) (baseKey ratchetKey : Curve25519KeyPair)
    (start : Session K) : Prop where
  baseKey_generated : prims.curve.Generated baseKey
  receivedMessage : start.receivedMessage = false
  aliceIdentityKey : start.aliceIdentityKey = alice.identityKeys.curve25519Key.publicKey
  aliceBaseKey : start.aliceBaseKey = baseKey.publicKey
  bobPrekey : start.bobPrekey = prekey.key.publicKey
  bobOneTimeKey : start.bobOneTimeKey =
    (oneTimeKey.map (fun key => key.key.publicKey)).getD prekey.key.publicKey
  rootKey : start.ratchet.rootKey = (startKeys prims alice bob prekey oneTimeKey baseKey).1
  senderChain : start.ratchet.senderChain.toList = [{
    ratchetKey := ratchetKey
    chainKey := chainKeyAt prims.ratchetConfig
      (startKeys prims alice bob prekey oneTimeKey baseKey).2 0 }]

variable {start : Session K} {baseKey ratchetKey : Curve25519KeyPair}

theorem setUp_of_newOutboundSessionTo
    (h : newOutboundSessionTo prims zeroKey alice bob prekey oneTimeKey random =
      .ok (start, some ())) :
    ∃ baseKey ratchetKey, SetUp prims alice bob prekey oneTimeKey baseKey ratchetKey start := by
  obtain ⟨base, ratchet, -, -, -, rfl⟩ := newOutboundSession_eq_some h
  exact ⟨prims.curve.generateKey base, prims.curve.generateKey ratchet,
    ⟨prims.curve.generated_generateKey base, rfl, rfl, rfl, rfl, rfl, rfl, rfl⟩⟩

/-- The chain that Alice sends on. -/
theorem SetUp.sendingAt (h : SetUp prims alice bob prekey oneTimeKey baseKey ratchetKey start) :
    SendingAt prims start {
      ratchetKey := ratchetKey
      chainKey := chainKeyAt prims.ratchetConfig
        (startKeys prims alice bob prekey oneTimeKey baseKey).2 0 } 0 start :=
  ⟨rfl, rfl, rfl, rfl, rfl, h.senderChain⟩

end SetUp

/-! ## Both sides -/

/-- The counter that a message carries. -/
def counterOf (macLength : ℕ) (messageType : MessageType) (message : Bytes) :
    Checked (Option ℕ) := do
  match ← messageBody messageType message with
  | none => .ok none
  | some (body, bodyLength) =>
    let reader ← decodeMessage message body bodyLength macLength
    .ok (if reader.counter.hasValue then some reader.counter.value else none)

/-- **Bob's side is set up from a message**, whether Alice's identity key is
expected or none: he has the root key and the chain key she started from,
and decrypts the message. -/
def Establishes (prims : Primitives K) (zeroKey : K) (alice bob : Account) (start : Session K)
    (plaintext message : Bytes) : Prop :=
  ∀ theirIdentityKey : Option Curve25519PublicKey,
    theirIdentityKey = none ∨
      theirIdentityKey = some alice.identityKeys.curve25519Key.publicKey →
    ∃ inbound keys,
      (Session.new zeroKey).newInboundSession prims bob theirIdentityKey message =
        .ok (inbound, some ()) ∧
      start.outboundKeys = some keys ∧ inbound.inboundKeys = some keys ∧
      ∀ maxPlaintextLength, plaintextRoom prims.ratchetConfig plaintext ≤ maxPlaintextLength →
        ∃ inbound', inbound.decrypt prims .PRE_KEY message maxPlaintextLength false =
          .ok (inbound', some plaintext)

/-- Until something was received a message is found behind the header of the
set-up. -/
theorem frames_of_not_received {session : Session K} {bytes : Bytes}
    (hreceived : session.receivedMessage = false) (hsize : bytes.length < 2 ^ SIZE_WIDTH) :
    Frames .PRE_KEY (session.header bytes.length) bytes := by
  have hframes : Frames session.encryptMessageType _ _ := frames_header hsize
  rwa [encryptMessageType, hreceived, if_neg Bool.false_ne_true] at hframes

/-- The counter is the one that the message was sealed with. -/
theorem counterOf_of_sealed {session : Session K} {key : K} {ratchetKey : Curve25519PublicKey}
    {counter : ℕ} {plaintext bytes : Bytes} (hreceived : session.receivedMessage = false)
    (hsealed : Sealed prims.ratchetConfig key ratchetKey counter plaintext bytes)
    (hcounter : counter < 2 ^ 32) (hsize : bytes.length < 2 ^ SIZE_WIDTH) :
    counterOf prims.cipher.macLength .PRE_KEY (session.header bytes.length ++ bytes) =
      .ok (some counter) := by
  obtain ⟨reader, hreader, hvalue, -⟩ := decodeMessage_of_sealed hsealed.sealedBy rfl hcounter
    (session.header bytes.length)
  rw [counterOf, frames_of_not_received hreceived hsize, Checked.ok_bind]
  dsimp only
  rw [hreader, Checked.ok_bind, hvalue]
  rfl

section Both

variable {zeroKey : K} {alice bob : Account} {prekey : PreKey} {oneTimeKey : Option OneTimeKey}
  {start : Session K} {baseKey ratchetKey : Curve25519KeyPair} {counter : ℕ}
  {plaintext bytes : Bytes}

/-- Bob's side, from a message of the set-up that is sealed under any key. -/
theorem SetUp.newInboundSession (zeroKey : K) {key : K}
    (h : SetUp prims alice bob prekey oneTimeKey baseKey ratchetKey start)
    (hcommutes : prims.curve.Commutes) (hmade : bob.KeysMade prims.curve prims.ed25519)
    (halice : prims.curve.Generated alice.identityKeys.curve25519Key)
    (hprekey : bob.HoldsPrekey prekey)
    (hkey : ∀ key ∈ oneTimeKey, bob.HoldsKey key ∧ key.key.publicKey ≠ prekey.key.publicKey)
    (hsealed : Sealed prims.ratchetConfig key ratchetKey.publicKey counter plaintext bytes)
    (hcounter : counter < 2 ^ 32) (hsize : bytes.length < 2 ^ SIZE_WIDTH)
    {theirIdentityKey : Option Curve25519PublicKey}
    (htheirs : ∀ theirs ∈ theirIdentityKey,
      theirs = alice.identityKeys.curve25519Key.publicKey) :
    ∃ inbound, (Session.new zeroKey).newInboundSession prims bob theirIdentityKey
        (start.header bytes.length ++ bytes) = .ok (inbound, some ()) ∧
      inbound.ratchet.rootKey = start.ratchet.rootKey ∧
      inbound.ratchet.receiverChains.toList = [{
        ratchetKey := ratchetKey.publicKey
        chainKey := chainKeyAt prims.ratchetConfig
          (startKeys prims alice bob prekey oneTimeKey baseKey).2 0 }] := by
  obtain ⟨reading, hidentityKey, hbaseKey, hbobOneTimeKey, hbobPrekey, hratchetKey⟩ :=
    exists_reading hsealed hcounter hsize h.receivedMessage
      (by rw [h.aliceIdentityKey]; exact htheirs)
  rw [h.aliceIdentityKey] at hidentityKey
  rw [h.aliceBaseKey] at hbaseKey
  rw [h.bobOneTimeKey] at hbobOneTimeKey
  rw [h.bobPrekey] at hbobPrekey
  rw [reading.newInboundSession_eq, newInboundSessionFromKeys_of_held hcommutes hmade halice hprekey
    hkey h.baseKey_generated (reading.store (Session.new zeroKey)) hidentityKey hbaseKey hbobPrekey
    hbobOneTimeKey reading.ratchetKey, hratchetKey]
  exact ⟨_, rfl, h.rootKey.symm, rfl⟩

/-- A message at most as far on as Bob allows sets his side up. -/
theorem SetUp.establishes (h : SetUp prims alice bob prekey oneTimeKey baseKey ratchetKey start)
    (hcommutes : prims.curve.Commutes) (hmade : bob.KeysMade prims.curve prims.ed25519)
    (halice : prims.curve.Generated alice.identityKeys.curve25519Key)
    (hprekey : bob.HoldsPrekey prekey)
    (hkey : ∀ key ∈ oneTimeKey, bob.HoldsKey key ∧ key.key.publicKey ≠ prekey.key.publicKey)
    (hsealed : Sealed prims.ratchetConfig (messageKeyAt prims.ratchetConfig
      (startKeys prims alice bob prekey oneTimeKey baseKey).2 counter) ratchetKey.publicKey counter
      plaintext bytes)
    (hgap : counter ≤ MAX_MESSAGE_GAP) (hsize : bytes.length < 2 ^ SIZE_WIDTH) :
    Establishes prims zeroKey alice bob start plaintext (start.header bytes.length ++ bytes) := by
  have hcounter : counter < 2 ^ 32 := Nat.lt_of_le_of_lt hgap (by decide)
  have hframes := frames_of_not_received h.receivedMessage hsize
  intro theirIdentityKey htheirs
  have htheirs' : ∀ theirs ∈ theirIdentityKey,
      theirs = alice.identityKeys.curve25519Key.publicKey := by
    rcases htheirs with rfl | rfl
    · intro theirs hmem
      cases hmem
    · intro theirs hmem
      exact (Option.some.inj hmem).symm
  obtain ⟨inbound, hrun, hroot, hchains⟩ := h.newInboundSession zeroKey hcommutes hmade
    halice hprekey hkey hsealed hcounter hsize htheirs'
  refine ⟨inbound, startKeys prims alice bob prekey oneTimeKey baseKey, hrun, ?_, ?_, ?_⟩
  · unfold outboundKeys
    rw [h.senderChain, h.rootKey]
    rfl
  · unfold inboundKeys
    rw [hchains, hroot, h.rootKey]
    rfl
  · intro maxPlaintextLength hroom
    exact decrypt_of_chain hchains hsealed hcounter hgap hframes hroom

/-- **A set-up works from any of its messages.** The keys of Bob's account
are accepted; what Alice then sends are pre-key messages that she counts in
32 bits, and from each of the first ones, up to the gap he allows, Bob sets
his side up. -/
theorem newOutboundSessionTo_establishes (zeroKey : K) (hcommutes : prims.curve.Commutes)
    (haccepts : prims.ed25519.Accepts) (hlawful : prims.cipher.Lawful)
    (halice : prims.curve.Generated alice.identityKeys.curve25519Key)
    (hbob : bob.Created prims.curve prims.ed25519) (hprekey : bob.HoldsPrekey prekey)
    (hkey : ∀ key ∈ oneTimeKey, bob.HoldsKey key ∧ key.key.publicKey ≠ prekey.key.publicKey)
    (random : Bytes) (hrandom : newOutboundSessionRandomLength ≤ random.length) :
    ∃ start, newOutboundSessionTo prims zeroKey alice bob prekey oneTimeKey random =
        .ok (start, some ()) ∧
      ∀ (n : ℕ) (session session' : Session K) (plaintext random message buf : Bytes) (length : ℕ),
        Encrypted prims start n session → message.length < 2 ^ SIZE_WIDTH →
        session.encrypt prims plaintext random message = .ok (session', some (buf, length)) →
        let sent := buf.take (session.encryptMessageLength prims plaintext.length)
        session.encryptMessageType = .PRE_KEY ∧
        counterOf prims.cipher.macLength .PRE_KEY sent = .ok (some (n % 2 ^ 32)) ∧
        (n ≤ MAX_MESSAGE_GAP → Establishes prims zeroKey alice bob start plaintext sent) := by
  have hmade := hbob.keysMade
  obtain ⟨start, hstart⟩ := exists_newOutboundSessionTo zeroKey alice oneTimeKey haccepts hmade
    hprekey hrandom
  obtain ⟨baseKey, ratchetKey, hsetUp⟩ := setUp_of_newOutboundSessionTo hstart
  refine ⟨start, hstart, ?_⟩
  intro n session session' plaintext random message buf length hencrypted hsize hrun
  have hsending := hencrypted.sendingAt hsetUp.sendingAt
  have hcounter : n % 2 ^ 32 < 2 ^ 32 := Nat.mod_lt _ (by decide)
  obtain ⟨bytes, hsealed, hbytes, hsent⟩ := hsending.message_eq hlawful hsize hrun
  dsimp only
  rw [hsent]
  refine ⟨?_, ?_, ?_⟩
  · rw [encryptMessageType, hsending.receivedMessage, hsetUp.receivedMessage,
      if_neg Bool.false_ne_true]
  · exact counterOf_of_sealed hsetUp.receivedMessage hsealed hcounter hbytes
  · intro hgap
    have hmod : n % 2 ^ 32 = n := Nat.mod_eq_of_lt (Nat.lt_of_le_of_lt hgap (by decide))
    rw [hmod] at hsealed
    exact hsetUp.establishes hcommutes hmade halice hprekey hkey hsealed hgap hbytes

/-- A set-up with a fallback key, and the first message. -/
theorem newOutboundSessionTo_establishes_fallback : ∃ bob start message session' buf length,
    Account.sevens.call .xor .accepting (.generateFallbackKey (List.replicate 32 8)) =
      .ok (bob, .ok (.number (some 1))) ∧
    newOutboundSessionTo .symbolic SymbolicKey.zero Account.sevens bob bob.currentPrekey
      (some bob.currentFallbackKey) (List.replicate 64 0) = .ok (start, some ()) ∧
    start.encrypt .symbolic [] [] message = .ok (session', some (buf, length)) ∧
    start.encryptMessageType = .PRE_KEY ∧
    Establishes .symbolic SymbolicKey.zero Account.sevens bob start []
      (buf.take (start.encryptMessageLength .symbolic 0)) := by
  have hsevens : Account.sevens.Created Curve25519.xor Ed25519.accepting :=
    .newAccount Account.newAccount_sevens
  obtain ⟨bob, hcall, hfallback, hne⟩ : ∃ bob, Account.sevens.call .xor .accepting
      (.generateFallbackKey (List.replicate 32 8)) = .ok (bob, .ok (.number (some 1))) ∧
      bob.numFallbackKeys ≥ 1 ∧
      bob.currentFallbackKey.key.publicKey ≠ bob.currentPrekey.key.publicKey :=
    ⟨_, rfl, by decide, by decide⟩
  have hcommutes : Primitives.symbolic.curve.Commutes := Curve25519.xor_commutes
  have hkey : ∀ key ∈ some bob.currentFallbackKey,
      bob.HoldsKey key ∧ key.key.publicKey ≠ bob.currentPrekey.key.publicKey := by
    rintro key ⟨⟩
    exact ⟨.inr (.inl ⟨hfallback, rfl⟩), hne⟩
  obtain ⟨start, hstart, hall⟩ := newOutboundSessionTo_establishes SymbolicKey.zero hcommutes
    Ed25519.accepting_accepts Cipher.symbolic_lawful hsevens.keysMade.identityKey
    (hsevens.call hcall) (.inl rfl) hkey (List.replicate 64 0) (by decide)
  obtain ⟨baseKey, ratchetKey, hsetUp⟩ := setUp_of_newOutboundSessionTo hstart
  obtain ⟨message, session', buf, length, hsize, hrun⟩ :=
    hsetUp.sendingAt.exists_encrypt Cipher.symbolic_lawful [] (by decide)
  obtain ⟨htype, -, hestablishes⟩ :=
    hall 0 start session' [] [] message buf length .start hsize hrun
  exact ⟨bob, start, message, session', buf, length, hcall, hstart, hrun, htype,
    hestablishes (Nat.zero_le _)⟩

end Both

/-! ## The counter wraps around -/

/-- The claim for every message whose counter Bob allows, however many were
sent before. -/
def EstablishesAll (prims : Primitives K) (zeroKey : K) (alice bob : Account)
    (start : Session K) : Prop :=
  ∀ (n : ℕ) (session session' : Session K) (plaintext random message buf : Bytes)
    (length counter : ℕ),
    Encrypted prims start n session → message.length < 2 ^ SIZE_WIDTH →
    session.encrypt prims plaintext random message = .ok (session', some (buf, length)) →
    let sent := buf.take (session.encryptMessageLength prims plaintext.length)
    counterOf prims.cipher.macLength .PRE_KEY sent = .ok (some counter) →
    counter ≤ MAX_MESSAGE_GAP → Establishes prims zeroKey alice bob start plaintext sent

theorem depth_chainKeyAt (key : SymbolicKey) (n : ℕ) :
    (chainKeyAt Primitives.counting.ratchetConfig key n).key.depth = key.depth + n := by
  induction n with
  | zero => rfl
  | succ n ih =>
    rw [chainKeyAt] at ih ⊢
    simp only [Function.iterate_succ_apply'] at ih ⊢
    rw [← Nat.add_assoc, ← ih]
    rfl

/-- The keys of a chain have codes of their own. -/
theorem code_messageKeyAt (key : SymbolicKey) (n : ℕ) :
    (messageKeyAt Primitives.counting.ratchetConfig key n).code =
      toBigEndian MAC_LENGTH (key.depth + n + 1) := by
  rw [← depth_chainKeyAt]
  rfl

/-- A message under a key of another code is not opened. -/
theorem rejects_of_code_ne {key key' : SymbolicKey} {ratchetKey : Curve25519PublicKey} {counter : ℕ}
    {plaintext bytes : Bytes}
    (hsealed : Sealed Primitives.counting.ratchetConfig key ratchetKey counter plaintext bytes)
    (hcounter : counter < 2 ^ 32) (hne : key'.code ≠ key.code) :
    Rejects Primitives.counting.ratchetConfig key' bytes := by
  intro pre post reader index maxPlaintextLength hreader
  obtain ⟨reader', hread, hopens⟩ := hsealed.readAs hcounter pre post
  obtain rfl : reader' = reader := Except.ok.inj (hread.decoded.symm.trans hreader)
  have hverify := (hopens _ (Nat.le_refl _)).1 index
  unfold Ratchet.verifyMacAndDecrypt at hverify ⊢
  obtain ⟨ciphertext, hciphertext, hverify⟩ := Checked.bind_eq_ok.mp hverify
  rw [hciphertext, Checked.ok_bind]
  refine AesSha256.decrypt_eq_none_of_mac_ne ?_ hverify maxPlaintextLength
  intro authenticated
  rw [AesSha256.mac_echoing key'.code_length, AesSha256.mac_echoing key.code_length]
  exact hne

/-- **Not every message sets Bob's side up**: the one after 2^32 others has
the counter 0 again, under a key that Bob does not come to. -/
theorem not_establishesAll :
    Primitives.counting.curve.Commutes ∧ Primitives.counting.ed25519.Accepts ∧
    Primitives.counting.cipher.Lawful ∧
    Account.sevens.Created Primitives.counting.curve Primitives.counting.ed25519 ∧
    Account.sevens.HoldsPrekey Account.sevens.currentPrekey ∧
    ∃ start, newOutboundSessionTo .counting SymbolicKey.zero Account.sevens Account.sevens
        Account.sevens.currentPrekey none (List.replicate 64 0) = .ok (start, some ()) ∧
      ¬ EstablishesAll .counting SymbolicKey.zero Account.sevens Account.sevens start := by
  have hsevens : Account.sevens.Created Primitives.counting.curve Primitives.counting.ed25519 :=
    .newAccount Account.newAccount_sevens
  have hprekey : Account.sevens.HoldsPrekey Account.sevens.currentPrekey := .inl rfl
  refine ⟨Curve25519.xor_commutes, Ed25519.accepting_accepts, Primitives.counting_lawful, hsevens,
    hprekey, ?_⟩
  have haccepts : Primitives.counting.ed25519.Accepts := Ed25519.accepting_accepts
  have hrandom : newOutboundSessionRandomLength ≤ (List.replicate 64 (0 : UInt8)).length := by decide
  obtain ⟨start, hstart⟩ := exists_newOutboundSessionTo SymbolicKey.zero Account.sevens none haccepts
    hsevens.keysMade hprekey hrandom
  obtain ⟨baseKey, ratchetKey, hsetUp⟩ := setUp_of_newOutboundSessionTo hstart
  refine ⟨start, hstart, ?_⟩
  intro hall
  -- the message after 2^32 others
  obtain ⟨session, hencrypted⟩ :=
    exists_encrypted hsetUp.sendingAt Primitives.counting_lawful (by decide) (2 ^ 32)
  have hsending := hencrypted.sendingAt hsetUp.sendingAt
  obtain ⟨message, session', buf, length, hsize, hrun⟩ :=
    hsending.exists_encrypt Primitives.counting_lawful [] (by decide)
  obtain ⟨bytes, hsealed, hbytes, hsent⟩ :=
    hsending.message_eq Primitives.counting_lawful hsize hrun
  rw [Nat.mod_self] at hsealed
  have hcounter := counterOf_of_sealed hsetUp.receivedMessage hsealed (by decide) hbytes
  have hestablishes := hall _ _ _ _ _ _ _ _ 0 hencrypted hsize hrun
  rw [hsent] at hestablishes
  obtain ⟨inbound, -, hinbound, -, -, hdecrypt⟩ :=
    hestablishes hcounter (Nat.zero_le _) none (.inl rfl)
  obtain ⟨inbound', hdecrypt⟩ := hdecrypt _ (Nat.le_refl _)
  -- Bob has the first key of the chain
  have hnobody : ∀ theirs ∈ (none : Option Curve25519PublicKey),
      theirs = Account.sevens.identityKeys.curve25519Key.publicKey := by
    rintro theirs ⟨⟩
  obtain ⟨inbound'', hinbound', -, hchains⟩ := hsetUp.newInboundSession SymbolicKey.zero
    Curve25519.xor_commutes hsevens.keysMade hsevens.keysMade.identityKey hprekey
    (by rintro key ⟨⟩) hsealed (by decide) hbytes hnobody
  rw [hinbound] at hinbound'
  simp only [Except.ok.injEq, Prod.mk.injEq, and_true] at hinbound'
  obtain rfl := hinbound'
  generalize hkey : (startKeys Primitives.counting Account.sevens Account.sevens
    Account.sevens.currentPrekey none baseKey).2 = key at hchains hsealed
  have hdepth : key.depth = 0 := by
    rw [← hkey]
    rfl
  have hne : (messageKeyAt Primitives.counting.ratchetConfig key 0).code ≠
      (messageKeyAt Primitives.counting.ratchetConfig key (2 ^ 32)).code := by
    rw [code_messageKeyAt, code_messageKeyAt, hdepth]
    decide
  exact decrypt_ne_some_of_rejects hchains hsealed (rejects_of_code_ne hsealed (by decide) hne)
    (by decide) (frames_of_not_received hsetUp.receivedMessage hbytes) hdecrypt

end Olm.Session
