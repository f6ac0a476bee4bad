import Olm.Conversation.Sequential
import Olm.Session.Errors
import Olm.Session.Handshake
import Olm.Session.Pickle

/-!
# No message key is used twice

The messages that one session sends, whatever it receives in between. A
sender chain is made when there is none and dropped when the peer answers
with a new ratchet key, so the messages of a session come from one chain
after the other. Each of them is under the message key of its place in its
chain, and no two have the same ratchet key and counter (`usesKeysOnce`).

`Sender` is a session with a record of its chains and of what it returned:
the calls never look at it.
-/

namespace Olm

variable {K : Type}

namespace Session

/-- A session that was just set up. -/
inductive Created (prims : Primitives K) (zeroKey : K) : Session K → Prop
  | newOutboundSession {session : Session K} {localAccount : Account}
      {identityKey : Curve25519PublicKey} {signingKey : Ed25519PublicKey}
      {preKey : Curve25519PublicKey} {preKeySignature : Ed25519Signature} {random : Bytes}
      {oneTimeKey : Option Curve25519PublicKey} :
      (Session.new zeroKey).newOutboundSession prims localAccount identityKey signingKey preKey
        preKeySignature random oneTimeKey = .ok (session, some ()) → Created prims zeroKey session
  | newInboundSession {session : Session K} {localAccount : Account}
      {theirIdentityKey : Option Curve25519PublicKey} {oneTimeKeyMessage : Bytes} :
      (Session.new zeroKey).newInboundSession prims localAccount theirIdentityKey
        oneTimeKeyMessage = .ok (session, some ()) → Created prims zeroKey session

variable {prims : Primitives K} {zeroKey : K} {session session' : Session K}

theorem Created.noError (h : session.Created prims zeroKey) :
    session.ratchet.lastError = .SUCCESS := by
  cases h with
  | newOutboundSession hrun => exact (Reachable.newOutboundSession .new hrun).settled.noError
  | newInboundSession hrun => exact (Reachable.newInboundSession .new hrun).settled.noError

/-- Its sender chain, if it has one, is at its start. -/
theorem Created.index_eq_zero (h : session.Created prims zeroKey) :
    ∀ chain ∈ session.ratchet.senderChain.toList, chain.chainKey.index = 0 := by
  intro chain hchain
  cases h with
  | newOutboundSession hrun =>
    obtain ⟨base, ratchet, -, -, -, rfl⟩ := newOutboundSession_eq_some hrun
    obtain rfl := List.mem_singleton.mp hchain
    rfl
  | newInboundSession hrun =>
    obtain ⟨reading, hkeys⟩ := newInboundSession_eq_some hrun
    obtain ⟨ourPrekey, bobOneTimeKey, -, -, rfl⟩ := newInboundSessionFromKeys_eq_some hkeys
    cases hchain

/-- `decrypt` keeps the sender chain, or drops it for a new receiver chain. -/
theorem senderChain_of_decrypt {messageType : MessageType} {message : Bytes}
    {maxPlaintextLength : ℕ} {isSequential : Bool} {result : Option Bytes}
    (h : session.decrypt prims messageType message maxPlaintextLength isSequential =
      .ok (session', result)) :
    session'.ratchet.senderChain = session.ratchet.senderChain ∨
      session'.ratchet.senderChain.toList = [] := by
  rcases decrypt_outcome h with ⟨-, -, rfl⟩ | ⟨body, bodyLength, ratchet, -, hratchet, hnone, hsome⟩
  · exact .inl rfl
  · have hsender : session'.ratchet.senderChain = ratchet.senderChain := by
      cases result with
      | none => rw [hnone rfl]
      | some plaintext => rw [hsome rfl]
    rw [hsender]
    rcases Ratchet.decrypt_outcome hratchet with ⟨-, heq⟩ | ⟨reader, ratchetKey, -, -, hout⟩
    · rw [heq]
      exact .inl rfl
    · cases hout with
      | newChain senderChain rest plaintext hnew hchains hgap hverify =>
        have hlength := session.ratchet.senderChain.length_le
        rw [hchains, List.length_cons] at hlength
        obtain rfl : rest = [] := List.length_eq_zero_iff.mp (by omega)
        right
        show (session.ratchet.senderChain.eraseIdx 0).toList = []
        rw [BoundedList.toList_eraseIdx, hchains]
        rfl
      | _ => exact .inl rfl

end Session

/-- A message that `encrypt` returned, and what it was asked to encrypt. -/
structure Output where
  messageType : MessageType
  message : Bytes
  plaintext : Bytes

/-- The ratchet key and the counter that are in a message. -/
def Output.name (macLength : ℕ) (output : Output) :
    Checked (Option (Curve25519PublicKey × ℕ)) := do
  match ← Session.messageBody output.messageType output.message with
  | none => .ok none
  | some (body, bodyLength) =>
    let reader ← decodeMessage output.message body bodyLength macLength
    let ratchetKey ← Session.loadKey output.message reader.ratchetKey
    .ok (if reader.counter.hasValue then some (ratchetKey, reader.counter.value) else none)

/-- A session, the ratchet keys and first chain keys of its sender chains,
and the messages it returned, the last of each first. -/
structure Sender (K : Type) where
  session : Session K
  chains : List (Curve25519PublicKey × K)
  outputs : List Output

namespace Sender

/-- A session that has sent nothing yet. -/
def of (session : Session K) : Sender K where
  session := session
  chains := session.ratchet.senderChain.toList.map
    (fun chain => (chain.ratchetKey.publicKey, chain.chainKey.key))
  outputs := []

/-- A call of `encrypt` or of `decrypt`. -/
inductive Request where
  | encrypt (plaintext random message : Bytes)
  | decrypt (messageType : MessageType) (message : Bytes) (maxPlaintextLength : ℕ)
      (isSequential : Bool)

variable (prims : Primitives K)

/-- `encrypt`, which puts the message on record, and its chain if that is a
new one. -/
def encrypt (s : Sender K) (plaintext random message : Bytes) : Checked (Sender K) := do
  let (session, result) ← s.session.encrypt prims plaintext random message
  match result with
  | none => .ok { s with session := session }
  | some (buf, _) =>
    let (_, senderChain) ← s.session.ratchet.startSenderChain prims.ratchetConfig random
    .ok {
      session := session
      chains :=
        if s.session.ratchet.senderChain.toList = [] then
          (senderChain.ratchetKey.publicKey, senderChain.chainKey.key) :: s.chains
        else s.chains
      outputs := {
        messageType := s.session.encryptMessageType
        message := buf.take (s.session.encryptMessageLength prims plaintext.length)
        plaintext := plaintext } :: s.outputs }

/-- One call. -/
def step (s : Sender K) : Request → Checked (Sender K)
  | .encrypt plaintext random message => s.encrypt prims plaintext random message
  | .decrypt messageType message maxPlaintextLength isSequential => do
    let (session, _) ← s.session.decrypt prims messageType message maxPlaintextLength isSequential
    .ok { s with session := session }

/-- A chain has fewer than 2^32 messages, and the key of a new chain is not
that of an earlier one. The buffer is one that a `size_t` can count. -/
def Assumed (s : Sender K) : Request → Prop
  | .encrypt _ random message => message.length < 2 ^ SIZE_WIDTH ∧
    ∀ started senderChain,
      s.session.ratchet.startSenderChain prims.ratchetConfig random = .ok (started, senderChain) →
      senderChain.chainKey.index + 1 < 2 ^ 32 ∧
      (s.session.ratchet.senderChain.toList = [] →
        senderChain.ratchetKey.publicKey ∉ s.chains.map Prod.fst)
  | .decrypt .. => True

/-- A message that names its place in one of the chains, and is under the
message key of that place. -/
structure Holds (P : (key : K) → (header body plaintext : Bytes) → Prop)
    (chains : List (Curve25519PublicKey × K)) (output : Output) (name : Curve25519PublicKey × ℕ) :
    Prop where
  name_eq : output.name prims.cipher.macLength = .ok (some name)
  sealed_ : ∃ start header body, (name.1, start) ∈ chains ∧ output.message = header ++ body ∧
    SealedBy prims.ratchetConfig P (messageKeyAt prims.ratchetConfig start name.2) name.1 name.2
      output.plaintext body

/-- **Each message key is used once**: the messages are at places of their
own, under the keys of these places, and the places of a chain are taken in
turn, from 0 on. -/
def UsesKeysOnce (P : (key : K) → (header body plaintext : Bytes) → Prop) (s : Sender K) : Prop :=
  (s.chains.map Prod.fst).Nodup ∧
  ∃ names, List.Forall₂ (Holds prims P s.chains) s.outputs names ∧ names.Nodup ∧
    ∀ ratchetKey, ∃ n, countersOf names ratchetKey = (List.range n).reverse

/-! ## The invariant -/

/-- The record of a session: its sender chain, if it has one, is the last on
record, and has moved past the messages of it. -/
structure Keeps (P : (key : K) → (header body plaintext : Bytes) → Prop) (s : Sender K)
    (names : List (Curve25519PublicKey × ℕ)) : Prop where
  noError : s.session.ratchet.lastError = .SUCCESS
  distinct : (s.chains.map Prod.fst).Nodup
  outputs : List.Forall₂ (Holds prims P s.chains) s.outputs names
  counters : ∀ ratchetKey, ∃ n, countersOf names ratchetKey = (List.range n).reverse ∧
    ∀ chain rest, s.session.ratchet.senderChain.toList = chain :: rest →
      chain.ratchetKey.publicKey = ratchetKey →
      ∃ start, (ratchetKey, start) ∈ s.chains ∧
        chain.chainKey = chainKeyAt prims.ratchetConfig start n

variable {prims} {P : (key : K) → (header body plaintext : Bytes) → Prop} {s s' : Sender K}
  {names : List (Curve25519PublicKey × ℕ)}

/-- A message on record stays one when a chain is added. -/
theorem Holds.mono {chains chains' : List (Curve25519PublicKey × K)} {output : Output}
    {name : Curve25519PublicKey × ℕ} (h : Holds prims P chains output name)
    (hsub : chains ⊆ chains') : Holds prims P chains' output name := by
  obtain ⟨start, header, body, hmem, hmessage, hsealed⟩ := h.sealed_
  exact ⟨h.name_eq, start, header, body, hsub hmem, hmessage, hsealed⟩

/-- The messages on record are of the chains on record. -/
theorem Keeps.mem_chains (h : s.Keeps prims P names) {name : Curve25519PublicKey × ℕ}
    (hname : name ∈ names) : name.1 ∈ s.chains.map Prod.fst := by
  obtain ⟨i, hi⟩ := List.getElem?_of_mem hname
  obtain ⟨output, -, hholds⟩ := h.outputs.flip.exists_getElem? hi
  obtain ⟨start, header, body, hmem, -⟩ := hholds.sealed_
  exact List.mem_map_of_mem hmem

/-- The name that is in a message is the place it was sealed at. -/
theorem holds_of_sealedBy {chains : List (Curve25519PublicKey × K)}
    {ratchetKey : Curve25519PublicKey} {start : K} {counter : ℕ} {messageType : MessageType}
    {header body plaintext : Bytes} (hmem : (ratchetKey, start) ∈ chains)
    (hframes : Session.Frames messageType header body) (hcounter : counter < 2 ^ 32)
    (hsealed : SealedBy prims.ratchetConfig P (messageKeyAt prims.ratchetConfig start counter)
      ratchetKey counter plaintext body) :
    Holds prims P chains
      { messageType := messageType, message := header ++ body, plaintext := plaintext }
      (ratchetKey, counter) := by
  refine ⟨?_, start, header, body, hmem, rfl, hsealed⟩
  obtain ⟨reader, hreader, hvalue, -, -, hload⟩ :=
    Session.decodeMessage_of_sealed hsealed rfl hcounter header
  have hbody : Session.messageBody messageType (header ++ body) =
      .ok (some (header.length, body.length)) := hframes
  simp only [Output.name, hbody, Checked.ok_bind, hreader, hload, hvalue, if_true]

/-- Another message of the chain that is used. -/
theorem Keeps.send {session : Session K} {chains : List (Curve25519PublicKey × K)}
    {senderChain : SenderChain K} {start : K} {n : ℕ} {output : Output}
    (h : s.Keeps prims P names) (hnoError : session.ratchet.lastError = .SUCCESS)
    (hdistinct : (chains.map Prod.fst).Nodup) (hsub : s.chains ⊆ chains)
    (hmem : (senderChain.ratchetKey.publicKey, start) ∈ chains)
    (hindex : senderChain.chainKey = chainKeyAt prims.ratchetConfig start n) (hlt : n + 1 < 2 ^ 32)
    (hcounters : countersOf names senderChain.ratchetKey.publicKey = (List.range n).reverse)
    (hsender : session.ratchet.senderChain.toList = [{ senderChain with
      chainKey := advanceChainKey prims.ratchetConfig senderChain.chainKey }])
    (hholds : Holds prims P chains output (senderChain.ratchetKey.publicKey, n)) :
    ({ session := session, chains := chains, outputs := output :: s.outputs } : Sender K).Keeps
      prims P ((senderChain.ratchetKey.publicKey, n) :: names) := by
  refine ⟨hnoError, hdistinct, .cons hholds (h.outputs.imp fun _ _ hold => hold.mono hsub), ?_⟩
  intro ratchetKey
  by_cases hkey : senderChain.ratchetKey.publicKey = ratchetKey
  · subst hkey
    refine ⟨n + 1, ?_, ?_⟩
    · rw [countersOf_cons_self, hcounters, List.range_succ, List.reverse_append]
      rfl
    · intro chain rest hchain hname
      rw [hsender] at hchain
      obtain ⟨rfl, -⟩ := List.cons.inj hchain
      exact ⟨start, hmem, by rw [hindex, advanceChainKey_chainKeyAt _ _ hlt]⟩
  · obtain ⟨m, hcounters', -⟩ := h.counters ratchetKey
    refine ⟨m, (countersOf_cons_of_ne hkey).trans hcounters', ?_⟩
    intro chain rest hchain hname
    rw [hsender] at hchain
    obtain ⟨rfl, -⟩ := List.cons.inj hchain
    exact absurd hname hkey

/-- **What `encrypt` does**: it fails, or sends the next message of the chain
that is there, or the first of a new one. -/
theorem Keeps.encrypt {plaintext random message : Bytes} (h : s.Keeps prims P names)
    (hleaves : prims.cipher.Leaves P)
    (hassumed : s.Assumed prims (.encrypt plaintext random message))
    (hrun : s.encrypt prims plaintext random message = .ok s') :
    ∃ names', s'.Keeps prims P names' := by
  obtain ⟨hsize, hfresh⟩ := hassumed
  obtain ⟨⟨session, result⟩, hencrypt, hrun⟩ := Checked.bind_eq_ok.mp hrun
  cases result with
  | none =>
    obtain rfl := Except.ok.inj hrun
    obtain ⟨-, heq⟩ := Session.eq_of_encrypt_none h.noError hencrypt
    rw [heq]
    exact ⟨names, h.noError, h.distinct, h.outputs, h.counters⟩
  | some written =>
    obtain ⟨buf, length⟩ := written
    obtain ⟨started, senderChain, bytes, hstart, rfl, -, hsealed, htake, hframes⟩ :=
      Session.exists_sealedBy_of_encrypt hleaves hsize hencrypt
    simp only [hstart, Checked.ok_bind, htake] at hrun
    obtain rfl := Except.ok.inj hrun
    obtain ⟨hlt, hnew⟩ := hfresh started senderChain hstart
    rcases Ratchet.startSenderChain_exits hstart with ⟨rest, hchains, rfl⟩ |
      ⟨hchains, hindex, rootKey, rfl⟩
    · -- the next message of the chain
      obtain ⟨n, hcounters, hsender⟩ := h.counters senderChain.ratchetKey.publicKey
      obtain ⟨start, hmem, hkey⟩ := hsender senderChain rest hchains rfl
      have hrest : rest = [] := by
        have hlength := s.session.ratchet.senderChain.length_le
        rw [hchains, List.length_cons] at hlength
        exact List.length_eq_zero_iff.mp (by omega)
      subst hrest
      have hne : s.session.ratchet.senderChain.toList ≠ [] := by
        rw [hchains]
        exact List.cons_ne_nil _ _
      rw [if_neg hne]
      rw [hkey, chainKeyAt_index] at hlt
      rw [hkey] at hsealed
      refine ⟨_, h.send h.noError h.distinct (List.Subset.refl _) hmem hkey hlt hcounters ?_
        (holds_of_sealedBy hmem hframes (Nat.lt_of_succ_lt hlt) hsealed)⟩
      simp only [BoundedList.toList_set, hchains, List.set_cons_zero]
    · -- the first message of a new chain
      have hkey : senderChain.chainKey =
          chainKeyAt prims.ratchetConfig senderChain.chainKey.key 0 :=
        congrArg (ChainKey.mk · senderChain.chainKey.key) hindex
      have hfresh := hnew hchains
      have hcounters : countersOf names senderChain.ratchetKey.publicKey =
          (List.range 0).reverse := by
        refine List.eq_nil_iff_forall_not_mem.mpr fun counter hmem => ?_
        exact hfresh (h.mem_chains (mem_countersOf.mp hmem))
      rw [if_pos hchains]
      rw [hkey] at hsealed
      have hmem : (senderChain.ratchetKey.publicKey, senderChain.chainKey.key) ∈
          (senderChain.ratchetKey.publicKey, senderChain.chainKey.key) :: s.chains :=
        List.mem_cons_self
      refine ⟨_, h.send h.noError ?_ (List.subset_cons_self _ _) hmem hkey (by decide) hcounters ?_
        (holds_of_sealedBy hmem hframes (by decide) hsealed)⟩
      · rw [List.map_cons]
        exact List.nodup_cons.mpr ⟨hfresh, h.distinct⟩
      · simp only [BoundedList.toList_set, BoundedList.toList_push, hchains]
        rfl

/-- **What `decrypt` does** to the sender chain: it stays, or is dropped. -/
theorem Keeps.decrypt {session : Session K} {messageType : MessageType} {message : Bytes}
    {maxPlaintextLength : ℕ} {isSequential : Bool} {result : Option Bytes}
    (h : s.Keeps prims P names)
    (hrun : s.session.decrypt prims messageType message maxPlaintextLength isSequential =
      .ok (session, result)) :
    ({ s with session := session } : Sender K).Keeps prims P names := by
  refine ⟨Session.noError_of_decrypt h.noError hrun, h.distinct, h.outputs, ?_⟩
  intro ratchetKey
  obtain ⟨n, hcounters, hsender⟩ := h.counters ratchetKey
  refine ⟨n, hcounters, ?_⟩
  intro chain rest hchain hname
  rcases Session.senderChain_of_decrypt hrun with hsame | hnone
  · dsimp only at hchain
    rw [hsame] at hchain
    exact hsender chain rest hchain hname
  · exact absurd (hnone.symm.trans hchain) (List.cons_ne_nil _ _).symm

/-! ## Runs -/

/-- One call. -/
theorem Keeps.step {e : Request} (h : s.Keeps prims P names) (hleaves : prims.cipher.Leaves P)
    (hassumed : s.Assumed prims e) (hrun : s.step prims e = .ok s') :
    ∃ names', s'.Keeps prims P names' := by
  cases e with
  | encrypt plaintext random message => exact h.encrypt hleaves hassumed hrun
  | decrypt messageType message maxPlaintextLength isSequential =>
    obtain ⟨⟨session, result⟩, hdecrypt, hrun⟩ := Checked.bind_eq_ok.mp hrun
    obtain rfl := Except.ok.inj hrun
    exact ⟨names, h.decrypt hdecrypt⟩

/-- A session whose sender chain is at its start has no messages yet. -/
theorem keeps_of {session : Session K} (hnoError : session.ratchet.lastError = .SUCCESS)
    (hindex : ∀ chain ∈ session.ratchet.senderChain.toList, chain.chainKey.index = 0) :
    (of session).Keeps prims P [] := by
  refine ⟨hnoError, ?_, .nil, ?_⟩
  · have hlength := session.ratchet.senderChain.length_le
    simp only [of, List.map_map]
    match hchains : session.ratchet.senderChain.toList, hlength with
    | [], _ => exact List.nodup_nil
    | [chain], _ => exact List.nodup_singleton _
  · intro ratchetKey
    refine ⟨0, rfl, ?_⟩
    rintro chain rest hchain rfl
    have hchains : session.ratchet.senderChain.toList = chain :: rest := hchain
    have hmem : chain ∈ session.ratchet.senderChain.toList := by
      rw [hchains]
      exact List.mem_cons_self
    exact ⟨chain.chainKey.key, List.mem_map_of_mem hmem,
      congrArg (ChainKey.mk · chain.chainKey.key) (hindex chain hmem)⟩

/-- Places that are taken in turn in each chain are taken once. -/
theorem nodup_of_countersOf
    (h : ∀ ratchetKey, ∃ n, countersOf names ratchetKey = (List.range n).reverse) :
    names.Nodup := by
  have hnodup : ∀ ratchetKey, (countersOf names ratchetKey).Nodup := by
    intro ratchetKey
    obtain ⟨n, hn⟩ := h ratchetKey
    rw [hn, List.nodup_reverse]
    exact List.nodup_range
  clear h
  induction names with
  | nil => exact List.nodup_nil
  | cons name names ih =>
    refine List.nodup_cons.mpr ⟨?_, ih fun ratchetKey => ?_⟩
    · have hown := hnodup name.1
      rw [countersOf_cons_self, List.nodup_cons] at hown
      intro hmem
      exact hown.1 (mem_countersOf.mpr hmem)
    · refine (hnodup ratchetKey).sublist ?_
      exact ((List.sublist_cons_self name names).filter _).map _

theorem Keeps.usesKeysOnce (h : s.Keeps prims P names) : s.UsesKeysOnce prims P := by
  have hcounters : ∀ ratchetKey, ∃ n, countersOf names ratchetKey = (List.range n).reverse :=
    fun ratchetKey => (h.counters ratchetKey).imp fun _ hn => hn.1
  exact ⟨h.distinct, names, h.outputs, nodup_of_countersOf hcounters, hcounters⟩

/-- What holds in every run. -/
theorem keeps_of_run {session : Session K} {zeroKey : K}
    (hcreated : session.Created prims zeroKey) (hleaves : prims.cipher.Leaves P)
    (hrun : Run (step prims) (Assumed prims) (of session) s) :
    ∃ names, s.Keeps prims P names :=
  hrun.invariant (P := fun s => ∃ names, s.Keeps prims P names)
    ⟨[], keeps_of hcreated.noError hcreated.index_eq_zero⟩
    (fun _ _ _ ⟨_, hkeeps⟩ hassumed hstep => hkeeps.step hleaves hassumed hstep)

end Sender

/-- **No message key of a session is used twice**, in any run of calls: each
message is the cipher's output under the key of a place of its own, and a
failed `encrypt` changes nothing but `last_error`. -/
theorem Sender.usesKeysOnce_of_run {curve : Curve25519} {ed25519 : Ed25519} {hashes : Hashes}
    {aes : Aes256} {session : Session SharedKey} {s : Sender SharedKey}
    (hcreated : session.Created (.ofHashes curve ed25519 hashes aes) (FixedBytes.zero _))
    (hrun : Run (step (.ofHashes curve ed25519 hashes aes))
      (Assumed (.ofHashes curve ed25519 hashes aes)) (of session) s) :
    s.UsesKeysOnce (.ofHashes curve ed25519 hashes aes) (fun key header body plaintext =>
      body = AesSha256.sealBody hashes aes CIPHER_KDF_INFO key.val header plaintext) ∧
    ∀ plaintext random message session',
      s.session.encrypt (.ofHashes curve ed25519 hashes aes) plaintext random message =
        .ok (session', none) →
      (session'.lastError = .NOT_ENOUGH_RANDOM ∨ session'.lastError = .OUTPUT_BUFFER_TOO_SMALL) ∧
        session' = { s.session with lastError := session'.lastError } := by
  obtain ⟨names, hkeeps⟩ := keeps_of_run hcreated
    ((aesSha256_leaves hashes aes CIPHER_KDF_INFO).comap Subtype.val) hrun
  exact ⟨hkeeps.usesKeysOnce,
    fun _ _ _ _ hfailed => Session.eq_of_encrypt_none hkeeps.noError hfailed⟩

/-! ### Two chains -/

/-- A session that Alice set up. -/
def Session.sevens : Session SharedKey :=
  match (Session.new (FixedBytes.zero _)).newOutboundSession
      (.ofHashes .xor .accepting .zero .identity) Account.sevens (FixedBytes.zero _)
      (FixedBytes.zero _) (FixedBytes.zero _) (FixedBytes.zero _) (List.replicate 64 1) none with
  | .ok (session, _) => session
  | .error _ => Session.new (FixedBytes.zero _)

theorem Session.created_sevens :
    Session.sevens.Created (.ofHashes .xor .accepting .zero .identity) (FixedBytes.zero _) :=
  .newOutboundSession (by decide +kernel : (Session.new (FixedBytes.zero _)).newOutboundSession
    (.ofHashes .xor .accepting .zero .identity) Account.sevens (FixedBytes.zero _)
    (FixedBytes.zero _) (FixedBytes.zero _) (FixedBytes.zero _) (List.replicate 64 1) none =
      .ok (Session.sevens, some ()))

namespace Sender

/-- What is assumed of `encrypt`, looked at in the chain it uses. -/
theorem assumed_encrypt {prims : Primitives K} {s : Sender K} {plaintext random message : Bytes}
    (hsize : message.length < 2 ^ SIZE_WIDTH)
    (h : (s.session.ratchet.startSenderChain prims.ratchetConfig random).toOption.all
      (fun result => decide (result.2.chainKey.index + 1 < 2 ^ 32 ∧
        (s.session.ratchet.senderChain.toList = [] →
          result.2.ratchetKey.publicKey ∉ s.chains.map Prod.fst))) = true) :
    s.Assumed prims (.encrypt plaintext random message) := by
  refine ⟨hsize, fun started senderChain hstart => ?_⟩
  rw [hstart] at h
  exact of_decide_eq_true h

/-- A message, an answer on a new chain, and a message on a new chain. -/
theorem usesKeysOnce_of_run_sevens : ∃ s,
    Run (step (.ofHashes .xor .accepting .zero .identity))
      (Assumed (.ofHashes .xor .accepting .zero .identity)) (of Session.sevens) s ∧
    s.chains.length = 2 ∧ s.outputs.length = 2 ∧
    s.UsesKeysOnce (.ofHashes .xor .accepting .zero .identity) (fun key header body plaintext =>
      body = AesSha256.sealBody .zero .identity CIPHER_KDF_INFO key.val header plaintext) ∧
    ∀ plaintext random message session',
      s.session.encrypt (.ofHashes .xor .accepting .zero .identity) plaintext random message =
        .ok (session', none) →
      (session'.lastError = .NOT_ENOUGH_RANDOM ∨ session'.lastError = .OUTPUT_BUFFER_TOO_SMALL) ∧
        session' = { s.session with lastError := session'.lastError } := by
  have h₀ : Run (step (.ofHashes .xor .accepting .zero .identity))
      (Assumed (.ofHashes .xor .accepting .zero .identity)) (of Session.sevens)
      (of Session.sevens) := .start
  have h₁ := h₀.extend (.encrypt [] [] (List.replicate 210 0))
    (assumed_encrypt (by decide +kernel) (by decide +kernel)) (by decide +kernel)
  have h₂ := h₁.extend (.decrypt .MESSAGE (Session.paddingMessage 0 0) 16 false) trivial
    (by decide +kernel)
  have h₃ := h₂.extend (.encrypt [] (List.replicate 32 2) (List.replicate 80 0))
    (assumed_encrypt (by decide +kernel) (by decide +kernel)) (by decide +kernel)
  exact ⟨_, h₃, by decide +kernel, by decide +kernel,
    usesKeysOnce_of_run Session.created_sevens h₃⟩

end Sender

end Olm
