import Olm.Group.Delivery
import Olm.Group.Export
import Olm.Group.Reload

/-!
# A group and its keys

One sender, and any number of receivers that were given its key: by the
sender, at whatever message it had got to, or by another receiver, that
exported its session at an index. Keys and messages are texts; a text is
installed or delivered as often as one likes, and everyone may go through a
pickle at any time. The network may make up messages, as long as their
signature does not verify.

Every receiver has a first index (`Holds`), which no key that is passed on
gets behind, in any run (`follows_of_run`).
-/

namespace Olm

/-- A receiver. Its key descends from one that the sender handed out after
`granted` messages. -/
structure GroupHolder where
  session : InboundGroupSession
  granted : ℕ

/-- The text of a session key, in the export format or not. -/
structure GroupKeyText where
  text : Bytes
  exported : Bool
  granted : ℕ

/-- The text is given to a new object, in the format that it has. -/
def GroupKeyText.install (prims : GroupPrimitives) (key : GroupKeyText) :
    Checked (InboundGroupSession × Option Unit) :=
  if key.exported then InboundGroupSession.new.importInboundGroupSession prims key.text
  else InboundGroupSession.new.initInboundGroupSession prims key.text

/-- The sender, what it sent, the keys that are around, and the receivers. -/
structure GroupNetwork where
  outbound : OutboundGroupSession
  sent : List GroupSent
  keys : List GroupKeyText
  holders : List GroupHolder

/-- What happens. `share` is `olm_outbound_group_session_key`, `forward` is
`olm_export_inbound_group_session`, and `install` makes a new receiver of the
text of a key. -/
inductive NetworkEvent where
  | encrypt (plaintext message : Bytes)
  | share (key : Bytes)
  | forward (holder : ℕ) (key : Bytes) (messageIndex : UInt32)
  | install (key : ℕ)
  | deliver (holder : ℕ) (message : Bytes) (maxPlaintextLength : ℕ)
  | reload (holder : ℕ) (key pickled : Bytes)
  | reloadSender (key pickled : Bytes)

/-- `olm_outbound_group_session`: the memory is cleared. -/
def OutboundGroupSession.new : OutboundGroupSession where
  ratchet := .init (fun _ => FixedBytes.zero _) 0
  signingKey := { publicKey := FixedBytes.zero _, privateKey := FixedBytes.zero _ }
  lastError := .SUCCESS

/-- With enough random bytes a session is set up, and counts from 0. -/
theorem OutboundGroupSession.exists_initOutboundGroupSession (prims : GroupPrimitives)
    (session : OutboundGroupSession) {random : Bytes}
    (h : initOutboundGroupSessionRandomLength ≤ random.length) :
    ∃ outbound, session.initOutboundGroupSession prims random = .ok (outbound, some ()) ∧
      outbound.ratchet.counter = 0 := by
  have hload (n pos : ℕ) (hle : pos + n ≤ initOutboundGroupSessionRandomLength) :
      ∃ a : FixedBytes n, loadArray n random pos = .ok a := by
    obtain ⟨a, ha, -⟩ := loadArray_of_le (hle.trans h)
    exact ⟨a, ha⟩
  obtain ⟨part₀, h₀⟩ := hload MEGOLM_RATCHET_PART_LENGTH 0 (by decide)
  obtain ⟨part₁, h₁⟩ := hload MEGOLM_RATCHET_PART_LENGTH (0 + MEGOLM_RATCHET_PART_LENGTH) (by decide)
  obtain ⟨part₂, h₂⟩ :=
    hload MEGOLM_RATCHET_PART_LENGTH (0 + MEGOLM_RATCHET_PART_LENGTH * 2) (by decide)
  obtain ⟨part₃, h₃⟩ :=
    hload MEGOLM_RATCHET_PART_LENGTH (0 + MEGOLM_RATCHET_PART_LENGTH * 3) (by decide)
  obtain ⟨key, hkey⟩ := hload ED25519_RANDOM_LENGTH MEGOLM_RATCHET_LENGTH (by decide)
  unfold initOutboundGroupSession loadRatchet
  rw [if_neg (Nat.not_lt.mpr h), h₀, h₁, h₂, h₃, hkey]
  exact ⟨_, rfl, rfl⟩

/-- `olm_init_outbound_group_session` makes a signing key. -/
theorem OutboundGroupSession.signingKey_of_init {prims : GroupPrimitives}
    {session outbound : OutboundGroupSession} {random : Bytes}
    (h : session.initOutboundGroupSession prims random = .ok (outbound, some ())) :
    ∃ random, outbound.signingKey = prims.ed25519.generateKey random := by
  unfold initOutboundGroupSession at h
  split at h
  · cases h
  · obtain ⟨data, -, h⟩ := Checked.bind_eq_ok.mp h
    obtain ⟨random', -, h⟩ := Checked.bind_eq_ok.mp h
    cases h
    exact ⟨random', rfl⟩

namespace GroupNetwork

variable (prims : GroupPrimitives)

/-- A receiver with another session, in its place. -/
def withSession (n : GroupNetwork) (i : ℕ) (holder : GroupHolder) (session : InboundGroupSession) :
    GroupNetwork :=
  { n with holders := n.holders.set i { holder with session := session } }

/-- One event. -/
def step (n : GroupNetwork) : NetworkEvent → Checked GroupNetwork
  | .encrypt plaintext message => do
    let (outbound, result) ← n.outbound.groupEncrypt prims plaintext message
    match result with
    | none => .ok { n with outbound := outbound }
    | some (buf, length) =>
      .ok { n with outbound := outbound, sent := n.sent ++ [⟨plaintext, buf.take length⟩] }
  | .share key => do
    let (outbound, result) ← n.outbound.outboundGroupSessionKey prims key
    match result with
    | none => .ok { n with outbound := outbound }
    | some (buf, length) =>
      .ok { n with outbound := outbound, keys := n.keys ++ [⟨buf.take length, false, n.sent.length⟩] }
  | .forward i key messageIndex =>
    match n.holders[i]? with
    | none => .ok n
    | some holder => do
      let (session, result) ← holder.session.exportInboundGroupSession prims key messageIndex
      let n := n.withSession i holder session
      match result with
      | none => .ok n
      | some (buf, length) =>
        .ok { n with keys := n.keys ++ [⟨buf.take length, true, holder.granted⟩] }
  | .install i =>
    match n.keys[i]? with
    | none => .ok n
    | some key => do
      let (session, result) ← key.install prims
      match result with
      | none => .ok n
      | some () => .ok { n with holders := n.holders ++ [⟨session, key.granted⟩] }
  | .deliver i message maxPlaintextLength =>
    match n.holders[i]? with
    | none => .ok n
    | some holder => do
      let d ← holder.session.groupDecrypt prims message maxPlaintextLength
      .ok (n.withSession i holder d.session)
  | .reload i key pickled =>
    match n.holders[i]? with
    | none => .ok n
    | some holder => do
      let (session, result) ←
        holder.session.pickleInboundGroupSession prims.hashes prims.aes key pickled
      match result with
      | none => .ok (n.withSession i holder session)
      | some (buf, length) => do
        let (restored, result) ← InboundGroupSession.new.unpickleInboundGroupSession prims.hashes
          prims.aes key (buf.take length)
        .ok (n.withSession i holder (if result.isSome then restored else session))
  | .reloadSender key pickled => do
    let (session, result) ←
      n.outbound.pickleOutboundGroupSession prims.hashes prims.aes key pickled
    match result with
    | none => .ok { n with outbound := session }
    | some (buf, length) => do
      let (restored, result) ← OutboundGroupSession.new.unpickleOutboundGroupSession prims.hashes
        prims.aes key (buf.take length)
      .ok { n with outbound := if result.isSome then restored else session }

/-! ## Assumptions -/

open InboundGroupSession in
/-- A message that is not signed with the key: whatever is taken for the
signature of it does not verify. -/
def Unsigned (signingKey : Ed25519PublicKey) (message : Bytes) : Prop :=
  ∀ parts, takeApart prims message = .ok (.ok parts) → ∀ signature authenticated,
    loadArray ED25519_SIGNATURE_LENGTH parts.buf (parts.length - ED25519_SIGNATURE_LENGTH) =
      .ok signature →
    readBytes parts.buf 0 (parts.length - ED25519_SIGNATURE_LENGTH) = .ok authenticated →
    prims.ed25519.verify signingKey authenticated signature = false

/-- Fewer than `2^31` messages are sent, an export is of one of the `2^31`
indices from the first message on, and what is delivered was sent or is not
signed. -/
def Assumed (start : OutboundGroupSession) (n : GroupNetwork) : NetworkEvent → Prop
  | .encrypt _ message => message.length < 2 ^ SIZE_WIDTH ∧ n.sent.length + 1 < 2 ^ 31
  | .forward _ _ messageIndex => (messageIndex - start.ratchet.counter).toNat < 2 ^ 31
  | .deliver _ message _ =>
    (∃ sent ∈ n.sent, sent.message = message) ∨ Unsigned prims start.signingKey.publicKey message
  | _ => True

end GroupNetwork

/-! ## Receivers -/

namespace InboundGroupSession

open GroupConversation

variable {prims : GroupPrimitives} {start : OutboundGroupSession}
  {session session' : InboundGroupSession} {first k : ℕ}

/-- **The session holds the sender's ratchet** from the message `first` on,
and has got to some later one. -/
structure Holds (prims : GroupPrimitives) (start : OutboundGroupSession)
    (session : InboundGroupSession) (first : ℕ) : Prop where
  signingKey : session.signingKey = start.signingKey.publicKey
  initial : session.initialRatchet = ratchetAfter prims start first
  latest : ∃ l, first ≤ l ∧ l < 2 ^ 31 ∧ session.latestRatchet = ratchetAfter prims start l

/-- Only the keys and the ratchets matter. -/
theorem Holds.frame (h : session.Holds prims start first)
    (hsigning : session'.signingKey = session.signingKey)
    (hinitial : session'.initialRatchet = session.initialRatchet)
    (hlatest : session'.latestRatchet = session.latestRatchet) :
    session'.Holds prims start first :=
  ⟨hsigning.trans h.signingKey, hinitial.trans h.initial, hlatest.symm ▸ h.latest⟩

theorem Holds.lt (h : session.Holds prims start first) : first < 2 ^ 31 := by
  obtain ⟨l, hle, hlt, -⟩ := h.latest
  omega

/-- Its first known index is that of the message. -/
theorem Holds.firstKnownIndex (h : session.Holds prims start first) :
    session.inboundGroupSessionFirstKnownIndex = start.ratchet.counter + UInt32.ofNat first := by
  rw [inboundGroupSessionFirstKnownIndex, h.initial, counter_ratchetAfter]

/-- Which of two messages comes first, as `_get_megolm` finds it out. -/
theorem index_sub_lt_iff (c : UInt32) {k l : ℕ} (hk : k < 2 ^ 31) (hl : l < 2 ^ 31) :
    c + UInt32.ofNat k - (c + UInt32.ofNat l) < (1 : UInt32) <<< 31 ↔ l ≤ k := by
  have hc := c.toNat_lt
  have hlimit : ((1 : UInt32) <<< 31).toNat = 2 ^ 31 := by decide
  rw [UInt32.lt_iff_toNat_lt, hlimit, UInt32.toNat_sub, UInt32.toNat_add, UInt32.toNat_add,
    UInt32.toNat_ofNat', UInt32.toNat_ofNat']
  omega

/-- A jump between two messages is a stretch of single steps. -/
theorem advanceTo_ratchetAfter {l : ℕ} (hle : l ≤ k) (hk : k < 2 ^ 31) :
    (ratchetAfter prims start l).advanceTo prims.hashes.hmacSha256
      (start.ratchet.counter + UInt32.ofNat k) = ratchetAfter prims start k := by
  have hsum : start.ratchet.counter + UInt32.ofNat k =
      (ratchetAfter prims start l).counter + UInt32.ofNat (k - l) := by
    rw [counter_ratchetAfter, UInt32.add_assoc, ← UInt32.ofNat_add, Nat.add_sub_cancel' hle]
  rw [hsum, Megolm.advanceTo_add _ _ (by omega), ratchetAfter, ratchetAfter,
    ← Function.iterate_add_apply, Nat.sub_add_cancel hle]

/-- **The ratchet of a message that it holds.** -/
theorem Holds.getMegolm_of_le (h : session.Holds prims start first) (hle : first ≤ k)
    (hk : k < 2 ^ 31) :
    ∃ session', session.getMegolm prims (start.ratchet.counter + UInt32.ofNat k) =
        (session', some (ratchetAfter prims start k)) ∧ session'.Holds prims start first := by
  obtain ⟨l, hfirst, hl, hlatest⟩ := h.latest
  have hahead := index_sub_lt_iff start.ratchet.counter hk hl
  have hbehind := (index_sub_lt_iff start.ratchet.counter hk h.lt).mpr hle
  rw [← @counter_ratchetAfter prims start l, ← hlatest] at hahead
  rw [← @counter_ratchetAfter prims start first, ← h.initial] at hbehind
  unfold getMegolm
  by_cases hlk : l ≤ k
  · rw [if_pos (hahead.mpr hlk), hlatest, advanceTo_ratchetAfter hlk hk]
    exact ⟨_, rfl, h.signingKey, h.initial, k, hle, hk, rfl⟩
  · rw [if_neg (fun hlt => hlk (hahead.mp hlt)), if_neg (UInt32.not_le.mpr hbehind), h.initial,
      advanceTo_ratchetAfter hle hk]
    exact ⟨_, rfl, h⟩

/-- **It has none of a message before.** -/
theorem Holds.getMegolm_of_lt (h : session.Holds prims start first) (hlt : k < first) :
    session.getMegolm prims (start.ratchet.counter + UInt32.ofNat k) =
      ({ session with lastError := .UNKNOWN_MESSAGE_INDEX }, none) := by
  obtain ⟨l, hfirst, hl, hlatest⟩ := h.latest
  have hk : k < 2 ^ 31 := lt_trans hlt h.lt
  have hahead := index_sub_lt_iff start.ratchet.counter hk hl
  have hbehind := index_sub_lt_iff start.ratchet.counter hk h.lt
  rw [← @counter_ratchetAfter prims start l, ← hlatest] at hahead
  rw [← @counter_ratchetAfter prims start first, ← h.initial] at hbehind
  unfold getMegolm
  rw [if_neg (fun hlt' => Nat.not_le.mpr (lt_of_lt_of_le hlt hfirst) (hahead.mp hlt')),
    if_pos (UInt32.not_lt.mp fun hlt' => Nat.not_le.mpr hlt (hbehind.mp hlt'))]

/-- Asking for a ratchet leaves what it holds. -/
theorem Holds.getMegolm (h : session.Holds prims start first) (hk : k < 2 ^ 31) :
    (session.getMegolm prims (start.ratchet.counter + UInt32.ofNat k)).1.Holds prims start first := by
  by_cases hle : first ≤ k
  · obtain ⟨session', hget, hholds⟩ := h.getMegolm_of_le hle hk
    rw [hget]
    exact hholds
  · rw [h.getMegolm_of_lt (by omega)]
    exact h.frame rfl rfl rfl

/-- **It decrypts a message that it holds**, with its index. -/
theorem Holds.groupDecrypt_of_le (h : session.Holds prims start first) (hle : first ≤ k)
    (hk : k < 2 ^ 31) {plaintext message : Bytes} (hsealed : GroupSealed prims
      start.signingKey.publicKey (ratchetAfter prims start k) plaintext message)
    {maxPlaintextLength : ℕ}
    (hmax : prims.megolmCipher.decryptMaxPlaintextLength (prims.ciphertextLength plaintext) ≤
      maxPlaintextLength) :
    ∃ session', session.groupDecrypt prims message maxPlaintextLength =
      .ok ⟨session', some (start.ratchet.counter + UInt32.ofNat k), some plaintext⟩ := by
  obtain ⟨session', hm, -⟩ := h.getMegolm_of_le hle hk
  rw [← h.signingKey] at hsealed
  rw [← @counter_ratchetAfter prims start k] at hm ⊢
  exact ⟨_, groupDecrypt_of_getMegolm hsealed hm hmax⟩

/-- **And refuses one before.** -/
theorem Holds.groupDecrypt_of_lt (h : session.Holds prims start first) (hlt : k < first)
    {plaintext message : Bytes} (hsealed : GroupSealed prims
      start.signingKey.publicKey (ratchetAfter prims start k) plaintext message)
    {maxPlaintextLength : ℕ}
    (hmax : prims.megolmCipher.decryptMaxPlaintextLength (prims.ciphertextLength plaintext) ≤
      maxPlaintextLength) :
    session.groupDecrypt prims message maxPlaintextLength =
      .ok ⟨{ session with lastError := .UNKNOWN_MESSAGE_INDEX },
        some (start.ratchet.counter + UInt32.ofNat k), none⟩ := by
  have hm := h.getMegolm_of_lt hlt
  rw [← h.signingKey] at hsealed
  rw [← @counter_ratchetAfter prims start k] at hm ⊢
  exact groupDecrypt_of_getMegolm_none hsealed hm hmax

/-- A delivery leaves what it holds, whether the message was sent or made up. -/
theorem Holds.groupDecrypt (h : session.Holds prims start first) {message : Bytes}
    (hmessage : (∃ k < 2 ^ 31, ∃ plaintext, GroupSealed prims start.signingKey.publicKey
        (ratchetAfter prims start k) plaintext message) ∨
      GroupNetwork.Unsigned prims start.signingKey.publicKey message)
    {maxPlaintextLength : ℕ} {d : GroupDecryption}
    (hrun : session.groupDecrypt prims message maxPlaintextLength = .ok d) :
    d.session.Holds prims start first := by
  rw [groupDecrypt_eq] at hrun
  obtain ⟨parts, htake, hrun⟩ := Checked.bind_eq_ok.mp hrun
  cases parts with
  | error code =>
    cases hrun
    exact h.frame rfl rfl rfl
  | ok parts =>
    obtain ⟨⟨session', plaintext⟩, hdecrypt, hrun⟩ := Checked.bind_eq_ok.mp hrun
    cases hrun
    rcases hmessage with ⟨k, hk, plaintext', hsealed⟩ | hunsigned
    · -- it asks for the ratchet that it was sealed under
      obtain ⟨parts', htake', hparts⟩ := takeApart_of_sealed hsealed
      rw [htake] at htake'
      cases htake'
      have hget := h.getMegolm (k := k) hk
      rw [← @counter_ratchetAfter prims, ← hparts.messageIndex] at hget
      rcases decryptDecoded_outcome hdecrypt with
        ⟨-, code, rfl⟩ | ⟨-, hm⟩ | ⟨advanced, m, hm, ⟨-, rfl⟩ | ⟨-, rfl⟩⟩
      · exact h.frame rfl rfl rfl
      · rw [hm] at hget
        exact hget
      · rw [hm] at hget
        exact hget.frame rfl rfl rfl
      · rw [hm] at hget
        exact hget.frame rfl rfl rfl
    · -- it is refused before its index is looked at
      unfold decryptDecoded at hdecrypt
      obtain ⟨signature, hsignature, hdecrypt⟩ := Checked.bind_eq_ok.mp hdecrypt
      obtain ⟨authenticated, hauthenticated, hdecrypt⟩ := Checked.bind_eq_ok.mp hdecrypt
      rw [h.signingKey, hunsigned parts htake signature authenticated hsignature hauthenticated]
        at hdecrypt
      cases hdecrypt
      exact h.frame rfl rfl rfl

/-- So does an export, which gives the ratchet of a later message. -/
theorem Holds.exportInboundGroupSession (h : session.Holds prims start first) {key : Bytes}
    (hk : k < 2 ^ 31) {result : Option (Bytes × ℕ)}
    (hrun : session.exportInboundGroupSession prims key (start.ratchet.counter + UInt32.ofNat k) =
      .ok (session', result)) :
    session'.Holds prims start first ∧ ∀ buf length, result = some (buf, length) →
      first ≤ k ∧ buf.take length = Base64.encode (exportRaw (ratchetAfter prims start k)
        start.signingKey.publicKey) := by
  by_cases hroom : encodeBase64Length SESSION_EXPORT_RAW_LENGTH ≤ key.length
  · obtain ⟨room, post, rfl, hlen, -⟩ := exists_cut
      (n := key.length - encodeBase64Length SESSION_EXPORT_RAW_LENGTH)
      (show key.length = encodeBase64Length SESSION_EXPORT_RAW_LENGTH + _ by omega)
    by_cases hle : first ≤ k
    · obtain ⟨advanced, hm, hadvanced⟩ := h.getMegolm_of_le hle hk
      have hexport := @exportInboundGroupSession_append prims session room post _ advanced _ hlen hm
        (counter_ratchetAfter start k)
      rw [hexport] at hrun
      cases hrun
      refine ⟨hadvanced, ?_⟩
      rintro buf length hresult
      cases hresult
      refine ⟨hle, ?_⟩
      rw [hadvanced.signingKey]
      refine List.take_left' ?_
      rw [Base64.encode_length, exportRaw, sessionKeyBody_length]
    · have hm := h.getMegolm_of_lt (Nat.lt_of_not_le hle)
      unfold InboundGroupSession.exportInboundGroupSession at hrun
      dsimp only at hrun
      rw [if_neg (by rw [List.length_append]; omega), hm] at hrun
      cases hrun
      exact ⟨h.frame rfl rfl rfl, fun buf length hresult => by cases hresult⟩
  · unfold InboundGroupSession.exportInboundGroupSession at hrun
    dsimp only at hrun
    rw [if_pos (by omega)] at hrun
    cases hrun
    exact ⟨h.frame rfl rfl rfl, fun buf length hresult => by cases hresult⟩

end InboundGroupSession

open GroupConversation

/-- The text gives a receiver the ratchet from the message `first` on. -/
def GroupKeyText.Gives (prims : GroupPrimitives) (start : OutboundGroupSession)
    (key : GroupKeyText) (first : ℕ) : Prop :=
  key.text = Base64.encode
    (if key.exported then
      InboundGroupSession.exportRaw (ratchetAfter prims start first) start.signingKey.publicKey
    else OutboundGroupSession.sessionKeyRaw prims
      { start with ratchet := ratchetAfter prims start first })

namespace GroupNetwork

variable {prims : GroupPrimitives} {start : OutboundGroupSession} {n n' : GroupNetwork}

/-! ## The whole network -/

/-- **How the network stands**: the sender is as many steps on as it has sent
messages, each of which is sealed under the ratchet of its index; and no key
and no receiver goes back behind the message it was granted from. -/
structure Follows (prims : GroupPrimitives) (start : OutboundGroupSession) (n : GroupNetwork) :
    Prop where
  few : n.sent.length < 2 ^ 31
  signing : n.outbound.signingKey = start.signingKey
  ratchet : n.outbound.ratchet = ratchetAfter prims start n.sent.length
  sealed : ∀ k sent, n.sent[k]? = some sent →
    GroupSealed prims start.signingKey.publicKey (ratchetAfter prims start k) sent.plaintext
      sent.message
  keys : ∀ key ∈ n.keys, ∃ first, key.granted ≤ first ∧ first < 2 ^ 31 ∧
    key.Gives prims start first
  holders : ∀ holder ∈ n.holders, ∃ first, holder.granted ≤ first ∧
    holder.session.Holds prims start first

/-- The sender with other errors. -/
theorem Follows.frameSender (h : n.Follows prims start) {outbound : OutboundGroupSession}
    (hsigning : outbound.signingKey = n.outbound.signingKey)
    (hratchet : outbound.ratchet = n.outbound.ratchet) :
    ({ n with outbound := outbound } : GroupNetwork).Follows prims start :=
  { h with signing := hsigning.trans h.signing, ratchet := hratchet.trans h.ratchet }

/-- A receiver that holds what it held. -/
theorem Follows.withSession (h : n.Follows prims start) {i : ℕ} {holder : GroupHolder}
    (hholder : n.holders[i]? = some holder) {session : InboundGroupSession}
    (hsession : ∀ first, holder.session.Holds prims start first → session.Holds prims start first) :
    (n.withSession i holder session).Follows prims start := by
  refine { h with holders := ?_ }
  intro other hother
  rcases List.mem_or_eq_of_mem_set hother with hother | rfl
  · exact h.holders other hother
  · obtain ⟨first, hgranted, hholds⟩ := h.holders holder (List.mem_of_getElem? hholder)
    exact ⟨first, hgranted, hsession first hholds⟩

/-- One key more. -/
theorem Follows.addKey (h : n.Follows prims start) {key : GroupKeyText} {first : ℕ}
    (hgranted : key.granted ≤ first) (hfirst : first < 2 ^ 31) (hgives : key.Gives prims start first) :
    ({ n with keys := n.keys ++ [key] } : GroupNetwork).Follows prims start := by
  refine { h with keys := ?_ }
  intro other hother
  rcases List.mem_append.mp hother with hother | hother
  · exact h.keys other hother
  · obtain rfl := List.mem_singleton.mp hother
    exact ⟨first, hgranted, hfirst, hgives⟩

/-- A receiver that has the key from the first message on. -/
def firstMember (start : OutboundGroupSession) : InboundGroupSession :=
  InboundGroupSession.new.installed start.ratchet start.signingKey.publicKey

/-- That receiver tracks the sender. -/
theorem Follows.tracks (h : n.Follows prims start) :
    Tracks prims start ⟨n.outbound, firstMember start, n.sent⟩ where
  few := h.few
  signing := h.signing
  ratchet := h.ratchet
  inboundKey := rfl
  initial := rfl
  cached := ⟨0, by decide, rfl⟩
  sealed := h.sealed

/-- A message more, and the sender one step on. -/
theorem Follows.encrypt (h : n.Follows prims start) (haes : prims.aes.Inverts)
    (haccepts : prims.ed25519.Accepts)
    (hsigning : ∃ random, start.signingKey = prims.ed25519.generateKey random)
    {plaintext message : Bytes}
    (hassumed : n.Assumed prims start (.encrypt plaintext message))
    (hstep : n.step prims (.encrypt plaintext message) = .ok n') : n'.Follows prims start := by
  obtain ⟨⟨outbound, result⟩, hencrypt, hstep⟩ := Checked.bind_eq_ok.mp hstep
  -- the sender and what it sent are those of a conversation
  have hconversation : GroupConversation.step prims ⟨n.outbound, firstMember start, n.sent⟩
      (.encrypt plaintext message) = .ok ⟨n'.outbound, firstMember start, n'.sent⟩ ∧
      n'.keys = n.keys ∧ n'.holders = n.holders := by
    unfold GroupConversation.step
    dsimp only
    rw [hencrypt, Checked.ok_bind]
    cases result with
    | none =>
      cases hstep
      exact ⟨rfl, rfl, rfl⟩
    | some written =>
      cases hstep
      exact ⟨rfl, rfl, rfl⟩
  obtain ⟨hconversation, hkeys, hholders⟩ := hconversation
  have htracks := h.tracks.step (e := .encrypt plaintext message) haes haccepts hsigning hassumed
    hconversation
  exact {
    few := htracks.few
    signing := htracks.signing
    ratchet := htracks.ratchet
    sealed := htracks.sealed
    keys := hkeys ▸ h.keys
    holders := hholders ▸ h.holders }

/-- With room for it, a key is handed out. -/
theorem Follows.step_share (h : n.Follows prims start) {key : Bytes}
    (hroom : encodeBase64Length SESSION_KEY_RAW_LENGTH ≤ key.length) :
    ∃ text, n.step prims (.share key) =
        .ok { n with keys := n.keys ++ [⟨text, false, n.sent.length⟩] } ∧
      GroupKeyText.Gives prims start ⟨text, false, n.sent.length⟩ n.sent.length := by
  obtain ⟨room, post, rfl, hlen, -⟩ := exists_cut
    (n := key.length - encodeBase64Length SESSION_KEY_RAW_LENGTH)
    (show key.length = encodeBase64Length SESSION_KEY_RAW_LENGTH + _ by omega)
  have hshare := @OutboundGroupSession.outboundGroupSessionKey_append prims n.outbound room post hlen
  unfold GroupNetwork.step
  dsimp only
  rw [hshare]
  refine ⟨_, rfl, ?_⟩
  have hraw : n.outbound.sessionKeyRaw prims = OutboundGroupSession.sessionKeyRaw prims
      { start with ratchet := ratchetAfter prims start n.sent.length } := by
    rw [← h.ratchet]
    unfold OutboundGroupSession.sessionKeyRaw
    rw [h.signing]
  unfold GroupKeyText.Gives
  dsimp only
  rw [if_neg Bool.false_ne_true, ← hraw]
  refine List.take_left' ?_
  rw [Base64.encode_length, OutboundGroupSession.sessionKeyRaw_length]

/-- So the key that the sender hands out is from where it has got to. -/
theorem Follows.share (h : n.Follows prims start) {key : Bytes}
    (hstep : n.step prims (.share key) = .ok n') : n'.Follows prims start := by
  by_cases hroom : encodeBase64Length SESSION_KEY_RAW_LENGTH ≤ key.length
  · obtain ⟨text, hshare, hgives⟩ := h.step_share hroom
    rw [hstep] at hshare
    cases hshare
    exact h.addKey le_rfl h.few hgives
  · unfold GroupNetwork.step OutboundGroupSession.outboundGroupSessionKey at hstep
    dsimp only at hstep
    rw [if_pos (Nat.lt_of_not_le hroom)] at hstep
    cases hstep
    exact h.frameSender rfl rfl

/-- **What a key installs**: the ratchet from where it gives it. -/
theorem session_of_install (haccepts : prims.ed25519.Accepts)
    (hsigning : ∃ random, start.signingKey = prims.ed25519.generateKey random) {key : GroupKeyText}
    {first : ℕ} (hgives : key.Gives prims start first) :
    ∃ verified, key.install prims =
      .ok ({ InboundGroupSession.new.installed (ratchetAfter prims start first)
        start.signingKey.publicKey with signingKeyVerified := verified }, some ()) := by
  unfold GroupKeyText.Gives at hgives
  unfold GroupKeyText.install
  rw [hgives]
  cases key.exported with
  | true =>
    rw [if_pos rfl, if_pos rfl, InboundGroupSession.importInboundGroupSession_exportRaw]
    exact ⟨_, rfl⟩
  | false =>
    rw [if_neg Bool.false_ne_true, if_neg Bool.false_ne_true]
    have hinit := @InboundGroupSession.initInboundGroupSession_sessionKeyRaw prims .new haccepts
      { start with ratchet := ratchetAfter prims start first } hsigning
    exact ⟨true, hinit⟩

/-- A key that was handed out is installed. -/
theorem step_install (haccepts : prims.ed25519.Accepts)
    (hsigning : ∃ random, start.signingKey = prims.ed25519.generateKey random) {i first : ℕ}
    {key : GroupKeyText} (hkey : n.keys[i]? = some key) (hfirst : first < 2 ^ 31)
    (hgives : key.Gives prims start first) :
    ∃ session, n.step prims (.install i) =
        .ok { n with holders := n.holders ++ [⟨session, key.granted⟩] } ∧
      session.Holds prims start first := by
  obtain ⟨verified, hinstall⟩ := session_of_install haccepts hsigning hgives
  unfold GroupNetwork.step
  dsimp only
  rw [hkey]
  dsimp only
  rw [hinstall]
  exact ⟨_, rfl, rfl, rfl, first, le_rfl, hfirst, rfl⟩

/-- A new receiver. -/
theorem Follows.install (h : n.Follows prims start) (haccepts : prims.ed25519.Accepts)
    (hsigning : ∃ random, start.signingKey = prims.ed25519.generateKey random) {i : ℕ}
    (hstep : n.step prims (.install i) = .ok n') : n'.Follows prims start := by
  cases hkey : n.keys[i]? with
  | none =>
    unfold GroupNetwork.step at hstep
    dsimp only at hstep
    rw [hkey] at hstep
    cases hstep
    exact h
  | some key =>
    obtain ⟨first, hgranted, hfirst, hgives⟩ := h.keys key (List.mem_of_getElem? hkey)
    obtain ⟨session, hinstall, hholds⟩ := step_install haccepts hsigning hkey hfirst hgives
    rw [hstep] at hinstall
    cases hinstall
    refine { h with holders := ?_ }
    intro other hother
    rcases List.mem_append.mp hother with hother | hother
    · exact h.holders other hother
    · obtain rfl := List.mem_singleton.mp hother
      exact ⟨first, hgranted, hholds⟩

/-- A receiver passes its key on, from a message that it holds. -/
theorem Follows.forward (h : n.Follows prims start) {i : ℕ} {key : Bytes} {messageIndex : UInt32}
    (hassumed : n.Assumed prims start (.forward i key messageIndex))
    (hstep : n.step prims (.forward i key messageIndex) = .ok n') : n'.Follows prims start := by
  unfold GroupNetwork.step at hstep
  dsimp only at hstep
  cases hholder : n.holders[i]? with
  | none =>
    rw [hholder] at hstep
    cases hstep
    exact h
  | some holder =>
    rw [hholder] at hstep
    obtain ⟨⟨session, result⟩, hexport, hstep⟩ := Checked.bind_eq_ok.mp hstep
    obtain ⟨k, hk⟩ : ∃ k, (messageIndex - start.ratchet.counter).toNat = k := ⟨_, rfl⟩
    have hindex : messageIndex = start.ratchet.counter + UInt32.ofNat k := by
      rw [← hk, UInt32.ofNat_toNat, UInt32.add_comm, UInt32.sub_add_cancel]
    have hlt : k < 2 ^ 31 := hk ▸ hassumed
    rw [hindex] at hexport
    have hholds : ∀ first, holder.session.Holds prims start first →
        session.Holds prims start first :=
      fun first hfirst => (hfirst.exportInboundGroupSession hlt hexport).1
    have hnext := h.withSession hholder hholds
    cases result with
    | none =>
      cases hstep
      exact hnext
    | some written =>
      obtain ⟨buf, length⟩ := written
      cases hstep
      obtain ⟨first, hgranted, hfirst⟩ := h.holders holder (List.mem_of_getElem? hholder)
      obtain ⟨hle, htext⟩ := (hfirst.exportInboundGroupSession hlt hexport).2 _ _ rfl
      refine hnext.addKey (hgranted.trans hle) hlt ?_
      unfold GroupKeyText.Gives
      rw [if_pos rfl]
      exact htext

/-- A message reaches a receiver. -/
theorem Follows.deliver (h : n.Follows prims start) {i : ℕ} {message : Bytes}
    {maxPlaintextLength : ℕ} (hassumed : n.Assumed prims start (.deliver i message maxPlaintextLength))
    (hstep : n.step prims (.deliver i message maxPlaintextLength) = .ok n') :
    n'.Follows prims start := by
  unfold GroupNetwork.step at hstep
  dsimp only at hstep
  cases hholder : n.holders[i]? with
  | none =>
    rw [hholder] at hstep
    cases hstep
    exact h
  | some holder =>
    rw [hholder] at hstep
    obtain ⟨d, hdecrypt, hstep⟩ := Checked.bind_eq_ok.mp hstep
    cases hstep
    refine h.withSession hholder fun first hfirst => hfirst.groupDecrypt ?_ hdecrypt
    rcases hassumed with ⟨sent, hmem, rfl⟩ | hunsigned
    · obtain ⟨k, hsent⟩ := List.getElem?_of_mem hmem
      obtain ⟨hk, -⟩ := List.getElem?_eq_some_iff.mp hsent
      exact .inl ⟨k, hk.trans h.few, sent.plaintext, h.sealed k sent hsent⟩
    · exact .inr hunsigned

/-- With room for it, a receiver comes out of its pickle. -/
theorem step_reload (haes : prims.aes.Inverts) {i : ℕ} {holder : GroupHolder}
    (hholder : n.holders[i]? = some holder) (key : Bytes) {pickled : Bytes}
    (hroom : holder.session.pickleInboundGroupSessionLength ≤ pickled.length) :
    ∃ session, n.step prims (.reload i key pickled) = .ok (n.withSession i holder session) ∧
      ∀ start first, holder.session.Holds prims start first → session.Holds prims start first := by
  obtain ⟨text, -, hpickle, restored, hunpickle, hinitial, hlatest, hkey, -⟩ :=
    InboundGroupSession.survives haes holder.session .new key hroom
  unfold GroupNetwork.step
  dsimp only
  rw [hholder]
  dsimp only
  rw [hpickle, Checked.ok_bind]
  dsimp only
  rw [List.take_left, hunpickle]
  exact ⟨_, rfl, fun start first hfirst => hfirst.frame hkey hinitial hlatest⟩

/-- A receiver goes through a pickle. -/
theorem Follows.reload (h : n.Follows prims start) (haes : prims.aes.Inverts) {i : ℕ}
    {key pickled : Bytes} (hstep : n.step prims (.reload i key pickled) = .ok n') :
    n'.Follows prims start := by
  cases hholder : n.holders[i]? with
  | none =>
    unfold GroupNetwork.step at hstep
    dsimp only at hstep
    rw [hholder] at hstep
    cases hstep
    exact h
  | some holder =>
    by_cases hroom : holder.session.pickleInboundGroupSessionLength ≤ pickled.length
    · obtain ⟨session, hreload, hholds⟩ := step_reload haes hholder key hroom
      rw [hstep] at hreload
      cases hreload
      exact h.withSession hholder (hholds start)
    · unfold InboundGroupSession.pickleInboundGroupSessionLength at hroom
      unfold GroupNetwork.step at hstep
      dsimp only at hstep
      rw [hholder] at hstep
      dsimp only at hstep
      unfold InboundGroupSession.pickleInboundGroupSession pickleGroupSession at hstep
      rw [if_pos (Nat.lt_of_not_le hroom), Checked.ok_bind] at hstep
      cases hstep
      exact h.withSession hholder fun first hfirst => hfirst.frame rfl rfl rfl

/-- So does the sender. -/
theorem step_reloadSender (haes : prims.aes.Inverts) (key : Bytes) {pickled : Bytes}
    (hroom : n.outbound.pickleOutboundGroupSessionLength ≤ pickled.length) :
    ∃ outbound, n.step prims (.reloadSender key pickled) = .ok { n with outbound := outbound } ∧
      outbound.signingKey = n.outbound.signingKey ∧ outbound.ratchet = n.outbound.ratchet := by
  obtain ⟨text, -, hpickle, restored, hunpickle, hratchet, hkey, -⟩ :=
    OutboundGroupSession.survives haes n.outbound .new key hroom
  unfold GroupNetwork.step
  dsimp only
  rw [hpickle, Checked.ok_bind]
  dsimp only
  rw [List.take_left, hunpickle]
  exact ⟨_, rfl, hkey, hratchet⟩

theorem Follows.reloadSender (h : n.Follows prims start) (haes : prims.aes.Inverts)
    {key pickled : Bytes} (hstep : n.step prims (.reloadSender key pickled) = .ok n') :
    n'.Follows prims start := by
  by_cases hroom : n.outbound.pickleOutboundGroupSessionLength ≤ pickled.length
  · obtain ⟨outbound, hreload, hkey, hratchet⟩ := step_reloadSender haes key hroom
    rw [hstep] at hreload
    cases hreload
    exact h.frameSender hkey hratchet
  · unfold OutboundGroupSession.pickleOutboundGroupSessionLength at hroom
    unfold GroupNetwork.step at hstep
    dsimp only at hstep
    unfold OutboundGroupSession.pickleOutboundGroupSession pickleGroupSession at hstep
    rw [if_pos (Nat.lt_of_not_le hroom), Checked.ok_bind] at hstep
    cases hstep
    exact h.frameSender rfl rfl

/-- One event. -/
theorem Follows.step (h : n.Follows prims start) (haes : prims.aes.Inverts)
    (haccepts : prims.ed25519.Accepts)
    (hsigning : ∃ random, start.signingKey = prims.ed25519.generateKey random) {e : NetworkEvent}
    (hassumed : n.Assumed prims start e) (hstep : n.step prims e = .ok n') :
    n'.Follows prims start := by
  cases e with
  | encrypt plaintext message => exact h.encrypt haes haccepts hsigning hassumed hstep
  | share key => exact h.share hstep
  | install i => exact h.install haccepts hsigning hstep
  | forward i key messageIndex => exact h.forward hassumed hstep
  | deliver i message maxPlaintextLength => exact h.deliver hassumed hstep
  | reload i key pickled => exact h.reload haes hstep
  | reloadSender key pickled => exact h.reloadSender haes hstep

/-- The sender alone, before it has sent or handed out anything. -/
def alone (outbound : OutboundGroupSession) : GroupNetwork := ⟨outbound, [], [], []⟩

theorem follows_alone (start : OutboundGroupSession) : (alone start).Follows prims start where
  few := Nat.two_pow_pos 31
  signing := rfl
  ratchet := rfl
  sealed := fun k sent hsent => by cases hsent
  keys := fun key hmem => by cases hmem
  holders := fun holder hmem => by cases hmem

/-- **So it stands throughout a run.** -/
theorem follows_of_run (haes : prims.aes.Inverts) (haccepts : prims.ed25519.Accepts)
    (hsigning : ∃ random, start.signingKey = prims.ed25519.generateKey random)
    (hrun : Run (GroupNetwork.step prims) (Assumed prims start) (alone start) n) :
    n.Follows prims start := by
  exact hrun.invariant (follows_alone start) fun _ _ _ h hassumed hstep =>
    h.step haes haccepts hsigning hassumed hstep

end GroupNetwork

end Olm
