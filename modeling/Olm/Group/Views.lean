import Olm.Common.Lists
import Olm.Group.Network

/-!
# What a group network comes to

To its members a group is the messages, and for each key and each receiver the
message that it goes back to (`GroupView`). All that this allows can happen in
the network, one thing after another (`Shows.acts`). In any run of it a receiver
decrypts what was sent from its first message on and nothing that was sent before
(`groupDecrypt_iff_of_run`).
-/

namespace Olm

/-! ## What can be done -/

/-- A key or a receiver goes back to the message `first`, and descends from a key
that the sender handed out after `granted` messages. -/
structure Reach where
  granted : ℕ
  first : ℕ

/-- What a network comes to: what was sent, and how far back the keys and the
receivers go. -/
structure GroupView where
  plaintexts : List Bytes
  keys : List Reach
  members : List Reach

/-- What can be done in a network, with buffers of the size that is asked for. -/
inductive GroupAct where
  | encrypt (plaintext : Bytes)
  | share
  | install (key : ℕ)
  | forward (member first : ℕ)
  | deliver (member k : ℕ)
  | reload (member : ℕ)
  | reloadSender

namespace GroupView

/-- And what comes of it. -/
def act (v : GroupView) : GroupAct → Option GroupView
  | .encrypt plaintext =>
    if plaintext.length < 2 ^ 32 ∧ v.plaintexts.length + 1 < 2 ^ 31 then
      some { v with plaintexts := v.plaintexts ++ [plaintext] }
    else none
  | .share => some { v with keys := v.keys ++ [⟨v.plaintexts.length, v.plaintexts.length⟩] }
  | .install i => (v.keys[i]?).map fun key => { v with members := v.members ++ [key] }
  | .forward i first => (v.members[i]?).bind fun member =>
    if member.first ≤ first ∧ first < 2 ^ 31 then
      some { v with keys := v.keys ++ [⟨member.granted, first⟩] }
    else none
  | .deliver i k => (v.members[i]?).bind fun _ => (v.plaintexts[k]?).map fun _ => v
  | .reload i => (v.members[i]?).map fun _ => v
  | .reloadSender => some v

end GroupView

/-! ## What can happen -/

namespace GroupNetwork

open GroupConversation

variable {prims : GroupPrimitives} {start : OutboundGroupSession} {n n' : GroupNetwork}
  {v v' : GroupView}

/-- The network comes to that. -/
structure Shows (prims : GroupPrimitives) (start : OutboundGroupSession) (n : GroupNetwork)
    (v : GroupView) : Prop where
  follows : n.Follows prims start
  plaintexts : n.sent.map (·.plaintext) = v.plaintexts
  keys : List.Forall₂ (fun key reach => key.granted = reach.granted ∧ reach.first < 2 ^ 31 ∧
    key.Gives prims start reach.first) n.keys v.keys
  holders : List.Forall₂ (fun holder reach => holder.granted = reach.granted ∧
    holder.session.Holds prims start reach.first) n.holders v.members

theorem Shows.length_sent (h : n.Shows prims start v) : n.sent.length = v.plaintexts.length := by
  rw [← h.plaintexts, List.length_map]

/-- A receiver that goes as far back as it did. -/
theorem Shows.withSession (h : n.Shows prims start v) {i : ℕ} {holder : GroupHolder} {reach : Reach}
    {session : InboundGroupSession} (hfollows : (n.withSession i holder session).Follows prims start)
    (hreach : v.members[i]? = some reach) (hgranted : holder.granted = reach.granted)
    (hholds : session.Holds prims start reach.first) :
    (n.withSession i holder session).Shows prims start v where
  follows := hfollows
  plaintexts := h.plaintexts
  keys := h.keys
  holders := h.holders.set hreach ⟨hgranted, hholds⟩

/-- Room of any size. -/
theorem exists_room (length : ℕ) : ∃ room : Bytes, room.length = length :=
  ⟨List.replicate length 0, List.length_replicate⟩

/-- A message of less than `2 ^ 32` bytes has a length that fits. -/
theorem groupEncryptMessageLength_lt (prims : GroupPrimitives) (session : OutboundGroupSession)
    {plaintextLength : ℕ} (h : plaintextLength < 2 ^ 32) :
    session.groupEncryptMessageLength prims plaintextLength < 2 ^ SIZE_WIDTH := by
  have hcounter := session.ratchet.counter.toNat_lt
  have hindex := varintLength_le session.ratchet.counter.toNat
  have hciphertext := varintLength_le (aesEncryptCbcLength plaintextLength)
  have hblocks : aesEncryptCbcLength plaintextLength ≤ plaintextLength + AES_BLOCK_LENGTH :=
    Nat.sub_le _ _
  have hraw : session.rawMessageLength prims plaintextLength < 2 ^ 35 := by
    show VERSION_LENGTH + (1 + varintLength session.ratchet.counter.toNat) +
      (1 + (varintLength (aesEncryptCbcLength plaintextLength) +
        aesEncryptCbcLength plaintextLength)) + MAC_LENGTH + ED25519_SIGNATURE_LENGTH < 2 ^ 35
    simp only [VERSION_LENGTH, MAC_LENGTH, ED25519_SIGNATURE_LENGTH, AES_BLOCK_LENGTH] at hblocks ⊢
    omega
  show encodeBase64Length (session.rawMessageLength prims plaintextLength) < 2 ^ 64
  rw [encodeBase64Length]
  omega

/-- With room for it, a message is sent. -/
theorem step_encrypt (haes : prims.aes.Inverts) (haccepts : prims.ed25519.Accepts)
    (hsigning : ∃ random, n.outbound.signingKey = prims.ed25519.generateKey random)
    {plaintext message : Bytes}
    (hroom : n.outbound.groupEncryptMessageLength prims plaintext.length ≤ message.length)
    (hsize : message.length < 2 ^ SIZE_WIDTH) :
    ∃ outbound bytes, n.step prims (.encrypt plaintext message) =
      .ok { n with outbound := outbound, sent := n.sent ++ [⟨plaintext, bytes⟩] } := by
  obtain ⟨bytes, rest, hencrypt, -⟩ :=
    OutboundGroupSession.groupEncrypt_of_le haes haccepts hsigning hroom hsize
  unfold GroupNetwork.step
  dsimp only
  rw [hencrypt]
  exact ⟨_, _, rfl⟩

/-- A receiver passes its key on from any message that it holds. -/
theorem step_forward {i first k : ℕ} {holder : GroupHolder} (hholder : n.holders[i]? = some holder)
    (hholds : holder.session.Holds prims start first) (hle : first ≤ k) (hk : k < 2 ^ 31)
    {key : Bytes} (hroom : key.length = encodeBase64Length SESSION_EXPORT_RAW_LENGTH) :
    ∃ session text, n.step prims (.forward i key (start.ratchet.counter + UInt32.ofNat k)) =
        .ok { n.withSession i holder session with
          keys := n.keys ++ [⟨text, true, holder.granted⟩] } ∧
      session.Holds prims start first ∧
      GroupKeyText.Gives prims start ⟨text, true, holder.granted⟩ k := by
  obtain ⟨advanced, hm, hadvanced⟩ := hholds.getMegolm_of_le hle hk
  have hexport := @InboundGroupSession.exportInboundGroupSession_append prims holder.session key []
    _ advanced _ hroom hm (counter_ratchetAfter start k)
  rw [List.append_nil] at hexport
  obtain ⟨-, htext⟩ := (hholds.exportInboundGroupSession hk hexport).2 _ _ rfl
  unfold GroupNetwork.step
  dsimp only
  rw [hholder]
  dsimp only
  rw [hexport]
  refine ⟨_, _, rfl, hadvanced, ?_⟩
  unfold GroupKeyText.Gives
  rw [if_pos rfl]
  exact htext

/-- What was sent can be delivered to anyone. -/
theorem Follows.step_deliver (h : n.Follows prims start) {i first k : ℕ} {holder : GroupHolder}
    (hholder : n.holders[i]? = some holder) (hholds : holder.session.Holds prims start first)
    {sent : GroupSent} (hsent : n.sent[k]? = some sent) {maxPlaintextLength : ℕ}
    (hmax : prims.megolmCipher.decryptMaxPlaintextLength (prims.ciphertextLength sent.plaintext) ≤
      maxPlaintextLength) :
    ∃ session, n.step prims (.deliver i sent.message maxPlaintextLength) =
        .ok (n.withSession i holder session) ∧
      session.Holds prims start first := by
  obtain ⟨hlt, -⟩ := List.getElem?_eq_some_iff.mp hsent
  have hk : k < 2 ^ 31 := hlt.trans h.few
  have hsealed := h.sealed k sent hsent
  obtain ⟨d, hdecrypt⟩ : ∃ d, holder.session.groupDecrypt prims sent.message maxPlaintextLength =
      .ok d := by
    by_cases hle : first ≤ k
    · obtain ⟨session', hread⟩ := hholds.groupDecrypt_of_le hle hk hsealed hmax
      exact ⟨_, hread⟩
    · exact ⟨_, hholds.groupDecrypt_of_lt (Nat.lt_of_not_le hle) hsealed hmax⟩
  have hnext := hholds.groupDecrypt (.inl ⟨k, hk, _, hsealed⟩) hdecrypt
  unfold GroupNetwork.step
  dsimp only
  rw [hholder]
  dsimp only
  rw [hdecrypt]
  exact ⟨_, rfl, hnext⟩

/-- **What can be done in the view can happen in the network.** -/
theorem Shows.act (h : n.Shows prims start v) (haes : prims.aes.Inverts)
    (haccepts : prims.ed25519.Accepts)
    (hsigning : ∃ random, start.signingKey = prims.ed25519.generateKey random) {a : GroupAct}
    (hact : v.act a = some v') :
    ∃ e n', n.Assumed prims start e ∧ n.step prims e = .ok n' ∧ n'.Shows prims start v' := by
  have hlength := h.length_sent
  cases a with
  | encrypt plaintext =>
    obtain ⟨⟨hsize, hfew⟩, hact⟩ := Option.ite_none_right_eq_some.mp hact
    obtain rfl := Option.some.inj hact
    have hlt := groupEncryptMessageLength_lt prims n.outbound hsize
    obtain ⟨message, hmessage⟩ :=
      exists_room (n.outbound.groupEncryptMessageLength prims plaintext.length)
    rw [← hmessage] at hlt
    obtain ⟨outbound, bytes, hstep⟩ := step_encrypt haes haccepts (h.follows.signing ▸ hsigning)
      hmessage.ge hlt
    have hassumed : n.Assumed prims start (.encrypt plaintext message) := ⟨hlt, by omega⟩
    refine ⟨_, _, hassumed, hstep, h.follows.step haes haccepts hsigning hassumed hstep, ?_,
      h.keys, h.holders⟩
    rw [List.map_append, h.plaintexts]
    rfl
  | share =>
    obtain rfl := Option.some.inj hact
    obtain ⟨key, hroom⟩ := exists_room (encodeBase64Length SESSION_KEY_RAW_LENGTH)
    obtain ⟨text, hstep, hgives⟩ := h.follows.step_share hroom.ge
    have hfew := h.follows.few
    rw [hlength] at hstep hgives hfew
    have hassumed : n.Assumed prims start (.share key) := trivial
    exact ⟨_, _, hassumed, hstep, h.follows.step haes haccepts hsigning hassumed hstep,
      h.plaintexts, List.rel_append h.keys (.cons ⟨rfl, hfew, hgives⟩ .nil), h.holders⟩
  | install i =>
    obtain ⟨reach, hreach, rfl⟩ := Option.map_eq_some_iff.mp hact
    obtain ⟨key, hkey, hgranted, hfirst, hgives⟩ := h.keys.flip.exists_getElem? hreach
    obtain ⟨session, hstep, hholds⟩ := step_install haccepts hsigning hkey hfirst hgives
    have hassumed : n.Assumed prims start (.install i) := trivial
    exact ⟨_, _, hassumed, hstep, h.follows.step haes haccepts hsigning hassumed hstep,
      h.plaintexts, h.keys, List.rel_append h.holders (.cons ⟨hgranted, hholds⟩ .nil)⟩
  | forward i first =>
    obtain ⟨reach, hreach, hact⟩ := Option.bind_eq_some_iff.mp hact
    obtain ⟨⟨hle, hlt⟩, hact⟩ := Option.ite_none_right_eq_some.mp hact
    obtain rfl := Option.some.inj hact
    obtain ⟨holder, hholder, hgranted, hholds⟩ := h.holders.flip.exists_getElem? hreach
    obtain ⟨key, hroom⟩ := exists_room (encodeBase64Length SESSION_EXPORT_RAW_LENGTH)
    obtain ⟨session, text, hstep, hsession, hgives⟩ := step_forward hholder hholds hle hlt hroom
    have hassumed : n.Assumed prims start
        (.forward i key (start.ratchet.counter + UInt32.ofNat first)) := by
      show (_ + _ - _ : UInt32).toNat < _
      rw [UInt32.add_comm, UInt32.add_sub_cancel, UInt32.toNat_ofNat']
      omega
    exact ⟨_, _, hassumed, hstep, h.follows.step haes haccepts hsigning hassumed hstep,
      h.plaintexts, List.rel_append h.keys (.cons ⟨hgranted, hlt, hgives⟩ .nil),
      h.holders.set hreach ⟨hgranted, hsession⟩⟩
  | deliver i k =>
    obtain ⟨reach, hreach, hact⟩ := Option.bind_eq_some_iff.mp hact
    obtain ⟨plaintext, hplaintext, rfl⟩ := Option.map_eq_some_iff.mp hact
    obtain ⟨holder, hholder, hgranted, hholds⟩ := h.holders.flip.exists_getElem? hreach
    obtain ⟨sent, hsent, -⟩ := List.exists_getElem?_of_map h.plaintexts hplaintext
    obtain ⟨maxPlaintextLength, hmax⟩ : ∃ m, prims.megolmCipher.decryptMaxPlaintextLength
        (prims.ciphertextLength sent.plaintext) ≤ m := ⟨_, le_rfl⟩
    obtain ⟨session, hstep, hsession⟩ := h.follows.step_deliver hholder hholds hsent hmax
    have hassumed : n.Assumed prims start (.deliver i sent.message maxPlaintextLength) :=
      .inl ⟨sent, List.mem_of_getElem? hsent, rfl⟩
    exact ⟨_, _, hassumed, hstep, h.withSession
      (h.follows.step haes haccepts hsigning hassumed hstep) hreach hgranted hsession⟩
  | reload i =>
    obtain ⟨reach, hreach, rfl⟩ := Option.map_eq_some_iff.mp hact
    obtain ⟨holder, hholder, hgranted, hholds⟩ := h.holders.flip.exists_getElem? hreach
    obtain ⟨pickled, hroom⟩ := exists_room holder.session.pickleInboundGroupSessionLength
    obtain ⟨session, hstep, hsession⟩ := step_reload haes hholder [] hroom.ge
    have hassumed : n.Assumed prims start (.reload i [] pickled) := trivial
    exact ⟨_, _, hassumed, hstep, h.withSession
      (h.follows.step haes haccepts hsigning hassumed hstep) hreach hgranted (hsession _ _ hholds)⟩
  | reloadSender =>
    obtain rfl := Option.some.inj hact
    obtain ⟨pickled, hroom⟩ := exists_room n.outbound.pickleOutboundGroupSessionLength
    obtain ⟨outbound, hstep, -⟩ := step_reloadSender (n := n) haes [] hroom.ge
    have hassumed : n.Assumed prims start (.reloadSender [] pickled) := trivial
    exact ⟨_, _, hassumed, hstep, h.follows.step haes haccepts hsigning hassumed hstep,
      h.plaintexts, h.keys, h.holders⟩

/-- **So can any number of things, one after another.** -/
theorem Shows.acts (h : n.Shows prims start v) (haes : prims.aes.Inverts)
    (haccepts : prims.ed25519.Accepts)
    (hsigning : ∃ random, start.signingKey = prims.ed25519.generateKey random)
    {script : List GroupAct} (hacts : script.foldlM GroupView.act v = some v') :
    ∃ n', Run (GroupNetwork.step prims) (Assumed prims start) n n' ∧ n'.Shows prims start v' := by
  induction script generalizing n v with
  | nil =>
    obtain rfl := Option.some.inj hacts
    exact ⟨n, .start, h⟩
  | cons a script ih =>
    rw [List.foldlM_cons] at hacts
    obtain ⟨v₁, hact, hacts⟩ := Option.bind_eq_some_iff.mp hacts
    obtain ⟨e, n₁, hassumed, hstep, h₁⟩ := h.act haes haccepts hsigning hact
    obtain ⟨n', hrun, hshows⟩ := ih h₁ hacts
    exact ⟨n', (Run.step e .start hassumed hstep).trans hrun, hshows⟩

theorem shows_alone : (alone start).Shows prims start ⟨[], [], []⟩ where
  follows := follows_alone start
  plaintexts := rfl
  keys := .nil
  holders := .nil

/-! ## What is read -/

/-- **A receiver decrypts what was sent from its first message on, and nothing
that was sent before**, whoever it got its key from and whatever happened
since: its first message is not before the one that the key was granted
from. -/
theorem groupDecrypt_iff_of_run (haes : prims.aes.Inverts) (haccepts : prims.ed25519.Accepts)
    (hsigning : ∃ random, start.signingKey = prims.ed25519.generateKey random)
    (hrun : Run (GroupNetwork.step prims) (Assumed prims start) (alone start) n)
    {holder : GroupHolder} (hmem : holder ∈ n.holders) :
    ∃ first, holder.granted ≤ first ∧ first < 2 ^ 31 ∧
      holder.session.inboundGroupSessionFirstKnownIndex =
        start.ratchet.counter + UInt32.ofNat first ∧
      ∀ k sent, n.sent[k]? = some sent → ∀ maxPlaintextLength,
        prims.megolmCipher.decryptMaxPlaintextLength (prims.ciphertextLength sent.plaintext) ≤
          maxPlaintextLength →
        (first ≤ k → ∃ session', holder.session.groupDecrypt prims sent.message maxPlaintextLength =
          .ok ⟨session', some (start.ratchet.counter + UInt32.ofNat k), some sent.plaintext⟩) ∧
        (k < first → holder.session.groupDecrypt prims sent.message maxPlaintextLength =
          .ok ⟨{ holder.session with lastError := .UNKNOWN_MESSAGE_INDEX },
            some (start.ratchet.counter + UInt32.ofNat k), none⟩) := by
  have hfollows := follows_of_run haes haccepts hsigning hrun
  obtain ⟨first, hgranted, hholds⟩ := hfollows.holders holder hmem
  refine ⟨first, hgranted, hholds.lt, hholds.firstKnownIndex, ?_⟩
  intro k sent hsent maxPlaintextLength hmax
  obtain ⟨hk, -⟩ := List.getElem?_eq_some_iff.mp hsent
  have hlt : k < 2 ^ 31 := hk.trans hfollows.few
  have hsealed := hfollows.sealed k sent hsent
  exact ⟨fun hle => hholds.groupDecrypt_of_le hle hlt hsealed hmax,
    fun hbefore => hholds.groupDecrypt_of_lt hbefore hsealed hmax⟩

/-- The second message is the first that Bob can read. Once he has read the third he
passes the key on from there to Carol; he and the sender go on from pickles, and Carol
is given the message from before and the one after. -/
def passedOn : List GroupAct :=
  [.encrypt [1], .share, .install 0, .encrypt [2], .encrypt [3], .deliver 0 2, .forward 0 2,
    .install 1, .reload 0, .reloadSender, .encrypt [4], .deliver 1 1, .deliver 1 3]

theorem exists_passedOn : ∃ start n,
    OutboundGroupSession.new.initOutboundGroupSession .symbolic (List.replicate 160 7) =
        .ok (start, some ()) ∧ start.ratchet.counter = 0 ∧
      Run (GroupNetwork.step .symbolic) (Assumed .symbolic start) (alone start) n ∧
      n.Shows .symbolic start ⟨[[1], [2], [3], [4]], [⟨1, 1⟩, ⟨1, 2⟩], [⟨1, 1⟩, ⟨1, 2⟩]⟩ := by
  have hlong : OutboundGroupSession.initOutboundGroupSessionRandomLength ≤
      (List.replicate 160 (7 : UInt8)).length := List.length_replicate.ge
  obtain ⟨start, hinit, hcounter⟩ :=
    OutboundGroupSession.exists_initOutboundGroupSession .symbolic .new hlong
  have hacts : passedOn.foldlM GroupView.act ⟨[], [], []⟩ =
      some ⟨[[1], [2], [3], [4]], [⟨1, 1⟩, ⟨1, 2⟩], [⟨1, 1⟩, ⟨1, 2⟩]⟩ := rfl
  obtain ⟨n, hrun, hshows⟩ := shows_alone.acts Aes256.identity_inverts
    Ed25519.accepting_accepts (OutboundGroupSession.signingKey_of_init hinit) hacts
  exact ⟨start, n, hinit, hcounter, hrun, hshows⟩

/-- Carol reads from the third message on, though her key descends from the second. -/
theorem groupDecrypt_iff_of_run_passedOn :
    ∃ (carol : GroupHolder) (second third : GroupSent), carol.granted = 1 ∧
      second.plaintext = [2] ∧ carol.session.groupDecrypt .symbolic second.message 16 =
        .ok ⟨{ carol.session with lastError := .UNKNOWN_MESSAGE_INDEX }, some 1, none⟩ ∧
      ∃ session', carol.session.groupDecrypt .symbolic third.message 16 =
        .ok ⟨session', some 2, some [3]⟩ := by
  obtain ⟨start, n, hinit, hcounter, hrun, hshows⟩ := exists_passedOn
  obtain ⟨carol, hcarol, hgranted, hholds⟩ := hshows.holders.flip.exists_getElem? (i := 1) rfl
  obtain ⟨second, hsecond, htwo⟩ := List.exists_getElem?_of_map hshows.plaintexts (i := 1) rfl
  obtain ⟨third, hthird, hthree⟩ := List.exists_getElem?_of_map hshows.plaintexts (i := 2) rfl
  obtain ⟨first, -, hlt, hfirst, hreads⟩ := groupDecrypt_iff_of_run Aes256.identity_inverts
    Ed25519.accepting_accepts (OutboundGroupSession.signingKey_of_init hinit) hrun
    (List.mem_of_getElem? hcarol)
  have hindex : first = 2 := by
    rw [hholds.firstKnownIndex, UInt32.add_right_inj] at hfirst
    have hmod := congrArg UInt32.toNat hfirst
    rw [UInt32.toNat_ofNat', UInt32.toNat_ofNat'] at hmod
    change 2 % _ = _ at hmod
    omega
  have hrefused := (hreads 1 second hsecond 16 (by rw [htwo]; decide +kernel)).2 (by omega)
  have hread := (hreads 2 third hthird 16 (by rw [hthree]; decide +kernel)).1 (by omega)
  rw [hcounter] at hrefused hread
  rw [hthree] at hread
  exact ⟨carol, second, third, hgranted, htwo, hrefused, hread⟩

end GroupNetwork

end Olm
