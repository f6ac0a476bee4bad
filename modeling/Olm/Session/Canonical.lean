import Olm.Session.Pickle

/-!
# Pickles that are given back

The converse of `Session.reads_unpickle`. A pickle says of each of the three
lists of the ratchet how many values follow. Nothing checks that there is
room for as many, and the values of the last list may stop where the pickle
ends, so a session can be unpickled that is pickled as something else.
`Session.givesBack_iff` says which pickles these are.
-/

namespace Olm.Session

/-! ## What a pickle says -/

/-- The `std::uint32_t` at `pos`. -/
def uint32At (b : Bytes) (pos : ℕ) : ℕ := ofBigEndian ((b.drop pos).take 4)

/-- The version. -/
def pickleVersion (b : Bytes) : ℕ := uint32At b 0

/-- Where the sender chains begin: after the version, `received_message`,
the four keys of the session and the root key. -/
def senderChainsAt : ℕ := 165

/-- How many sender chains are said to follow. -/
def senderChains (b : Bytes) : ℕ := uint32At b senderChainsAt

/-- Where the receiver chains begin. -/
def receiverChainsAt (b : Bytes) : ℕ := senderChainsAt + (4 + 100 * senderChains b)

/-- How many receiver chains are said to follow. -/
def receiverChains (b : Bytes) : ℕ := uint32At b (receiverChainsAt b)

/-- Where the skipped message keys begin. -/
def skippedMessageKeysAt (b : Bytes) : ℕ := receiverChainsAt b + (4 + 68 * receiverChains b)

/-- How many skipped message keys are said to follow. -/
def skippedMessageKeys (b : Bytes) : ℕ := uint32At b (skippedMessageKeysAt b)

/-- The pickle with `received_message` as `pickle` writes it. -/
def withBool (b : Bytes) : Bytes := b.modify 4 fun receivedMessage =>
  if receivedMessage != 0 then 1 else 0

/-- If all of the bytes are unpickled over a new session, then it is pickled
as these bytes, and each list holds as many values as they say. -/
def GivesBack (stale : Ratchet.Stale) (b : Bytes) : Prop :=
  ∀ session, unpickle stale (Session.new (FixedBytes.zero _)) b = (session, some []) →
    pickleVersion b = 1 →
    session.pickle = withBool b ∧
    session.ratchet.senderChain.toList.length = senderChains b ∧
    session.ratchet.receiverChains.toList.length = receiverChains b ∧
    session.ratchet.skippedMessageKeys.toList.length = skippedMessageKeys b

/-! ## Which pickles are unpickled -/

theorem consumes_unpickleBody {stale : Ratchet.Stale} {includesChainIndex : Bool}
    {left : Bytes → Option Bytes}
    (h : (Ratchet.unpickle stale includesChainIndex).Consumes fun input =>
      Unpickler.skip OLM_SHARED_KEY_LENGTH input >>= left) :
    (unpickleBody stale includesChainIndex).Consumes fun input =>
      Unpickler.skip 161 input >>= left := by
  have hbody : (unpickleBody stale includesChainIndex).Consumes _ :=
    .andThen (.field _ consumes_unpickleBool)
      (.andThen (.field _ (consumes_unpickleBytes _))
      (.andThen (.field _ (consumes_unpickleBytes _))
      (.andThen (.field _ (consumes_unpickleBytes _))
      (.andThen (.field _ (consumes_unpickleBytes _))
      (.field _ h)))))
  intro session input
  refine (hbody session input).trans ?_
  simp only [Unpickler.skip_bind_skip_bind]
  rfl

theorem unpickle_of_version {stale : Ratchet.Stale} {target : Session SharedKey} {b : Bytes}
    (hlen : 4 ≤ b.length) (hversion : pickleVersion b = 1) :
    unpickle stale target b = unpickleBody stale false target (b.drop 4) := by
  rw [pickleVersion, uint32At, List.drop_zero] at hversion
  rw [unpickle, unpickleUInt32, if_neg (by omega), hversion]
  rfl

theorem unpickle_of_lt {stale : Ratchet.Stale} {target : Session SharedKey} {b : Bytes}
    (hlen : b.length < 4) : unpickle stale target b = (target, none) := by
  rw [unpickle, unpickleUInt32, if_pos hlen]

/-- With version 1, all of a pickle is read when the lists end where it
ends. -/
theorem exists_unpickle_iff {stale : Ratchet.Stale} {target : Session SharedKey} {b : Bytes}
    (hversion : pickleVersion b = 1) :
    (∃ session, unpickle stale target b = (session, some [])) ↔
      (Unpickler.skip senderChainsAt b >>= skipLists) = some [] := by
  have hskip : (Unpickler.skip 4 b >>= fun input => Unpickler.skip 161 input >>= skipLists) =
      (Unpickler.skip senderChainsAt b >>= skipLists) := Unpickler.skip_bind_skip_bind 4 161 _ b
  rw [← hskip]
  rcases Nat.lt_or_ge b.length 4 with hlen | hlen
  · rw [unpickle_of_lt hlen, Unpickler.skip, if_neg (by omega)]
    simp
  · have hfour : Unpickler.skip 4 b = some (b.drop 4) := if_pos hlen
    have hbody := consumes_unpickleBody (Ratchet.consumes_unpickle stale)
    rw [unpickle_of_version hlen hversion, hbody.exists_eq_some, hfour, Option.bind_eq_bind,
      Option.bind_some]

theorem ne_nil_of_skipList {m : ℕ} {input rest : Bytes} (h : skipList m input = some rest) :
    input ≠ [] := by
  rintro rfl
  cases h

theorem skipList_drop_eq_some {m pos : ℕ} {b rest : Bytes} (hne : rest ≠ []) :
    skipList m (b.drop pos) = some rest ↔
      pos + (4 + m * uint32At b pos) < b.length ∧
        rest = b.drop (pos + (4 + m * uint32At b pos)) := by
  rw [skipList_eq_some_of_ne hne, List.length_drop, List.drop_drop, uint32At]
  constructor
  · rintro ⟨hlt, hrest⟩
    exact ⟨by omega, hrest⟩
  · rintro ⟨hlt, hrest⟩
    exact ⟨by omega, hrest⟩

theorem skipList_drop_eq_nil {m pos : ℕ} {b : Bytes} :
    skipList m (b.drop pos) = some [] ↔
      ∃ j ≤ uint32At b pos, b.length = pos + (4 + m * j) := by
  rw [skipList_eq_nil, List.length_drop, uint32At]
  constructor
  · rintro ⟨j, hj, hlen⟩
    exact ⟨j, hj, by omega⟩
  · rintro ⟨j, hj, hlen⟩
    exact ⟨j, hj, by omega⟩

/-- The lists end where the pickle ends. -/
theorem skipLists_eq_nil_iff {b : Bytes} :
    (Unpickler.skip senderChainsAt b >>= skipLists) = some [] ↔
      ∃ j ≤ skippedMessageKeys b, b.length = skippedMessageKeysAt b + (4 + 68 * j) := by
  simp only [skipLists, Option.bind_eq_bind, Option.bind_eq_some_iff, Unpickler.skip_eq_some]
  constructor
  · rintro ⟨_, ⟨-, rfl⟩, input, hsenders, input', hreceivers, hskipped⟩
    obtain ⟨-, rfl⟩ := (skipList_drop_eq_some (ne_nil_of_skipList hreceivers)).mp hsenders
    obtain ⟨-, rfl⟩ := (skipList_drop_eq_some (ne_nil_of_skipList hskipped)).mp hreceivers
    exact skipList_drop_eq_nil.mp hskipped
  · rintro ⟨j, hj, hlen⟩
    have hskipped : skippedMessageKeysAt b < b.length := by omega
    have hreceivers : receiverChainsAt b < b.length :=
      Nat.lt_of_le_of_lt (Nat.le_add_right _ _) hskipped
    have hsenders : senderChainsAt < b.length :=
      Nat.lt_of_le_of_lt (Nat.le_add_right _ _) hreceivers
    have hne : ∀ pos < b.length, b.drop pos ≠ [] := fun pos hlt hnil =>
      Nat.not_le_of_lt hlt (List.drop_eq_nil_iff.mp hnil)
    exact ⟨_, ⟨Nat.le_of_lt hsenders, rfl⟩,
      _, (skipList_drop_eq_some (hne _ hreceivers)).mpr ⟨hreceivers, rfl⟩,
      _, (skipList_drop_eq_some (hne _ hskipped)).mpr ⟨hskipped, rfl⟩,
      skipList_drop_eq_nil.mpr ⟨j, hj, hlen⟩⟩

end Olm.Session

namespace Olm.Ratchet

/-! ## What is unpickled -/

/-- The lists of a ratchet as a pickle has them: the values that are there,
and how many it says are there. Only the last list can be short. -/
structure PickledLists where
  senderSize : UInt32
  senderChains : List (SenderChain SharedKey)
  receiverSize : UInt32
  receiverChains : List (ReceiverChain SharedKey)
  skippedSize : UInt32
  skippedMessageKeys : List (SkippedMessageKey SharedKey)
  length_senderChains : senderChains.length = senderSize.toNat
  length_receiverChains : receiverChains.length = receiverSize.toNat
  length_skippedMessageKeys : skippedMessageKeys.length ≤ skippedSize.toNat

namespace PickledLists

variable (lists : PickledLists)

/-- Their bytes. -/
def bytes : Bytes :=
  pickleUInt32 lists.senderSize ++ ((lists.senderChains.map pickleSenderChain).flatten ++
    (pickleUInt32 lists.receiverSize ++ ((lists.receiverChains.map pickleReceiverChain).flatten ++
    (pickleUInt32 lists.skippedSize ++
      ((lists.skippedMessageKeys.map pickleSkippedMessageKey).flatten ++ [])))))

/-- The ratchet with the values put into its lists, which were empty. -/
structure Loaded (ratchet : Ratchet SharedKey) : Prop where
  senderChain : ratchet.senderChain = lists.senderChains.foldl .insertEnd .empty
  receiverChains : ratchet.receiverChains = lists.receiverChains.foldl .insertEnd .empty
  skippedMessageKeys : ratchet.skippedMessageKeys = lists.skippedMessageKeys.foldl .insertEnd .empty

/-- All the values are there, and there is room for them. -/
structure Fits : Prop where
  senderChains : lists.senderChains.length ≤ 1
  receiverChains : lists.receiverChains.length ≤ MAX_RECEIVER_CHAINS
  all : lists.skippedMessageKeys.length = lists.skippedSize.toNat
  skippedMessageKeys : lists.skippedMessageKeys.length ≤ MAX_SKIPPED_MESSAGE_KEYS

variable {lists} {ratchet : Ratchet SharedKey}

/-- **The lists are pickled as they were** when they fit. -/
theorem Loaded.pickle_eq_iff (h : lists.Loaded ratchet) :
    ratchet.pickle = ratchet.rootKey.val ++ lists.bytes ↔ lists.Fits := by
  have hskipped : pickleList pickleSkippedMessageKey
        (lists.skippedMessageKeys.foldl .insertEnd (.empty : BoundedList _ 40)) ++ [] =
      pickleUInt32 lists.skippedSize ++
        ((lists.skippedMessageKeys.map pickleSkippedMessageKey).flatten ++ []) ↔ _ :=
    pickleList_append_eq_iff (by decide) lists.length_skippedMessageKeys
  rw [List.append_nil, ← h.skippedMessageKeys] at hskipped
  rw [Ratchet.pickle, List.append_cancel_left_eq, bytes, h.senderChain, h.receiverChains,
    pickleList_append_eq_iff (by decide) (Nat.le_of_eq lists.length_senderChains),
    pickleList_append_eq_iff (by decide) (Nat.le_of_eq lists.length_receiverChains), hskipped]
  constructor
  · rintro ⟨-, hsender, -, hreceiver, hall, hfits, -⟩
    exact ⟨hsender, hreceiver, hall.symm, hfits⟩
  · rintro ⟨hsender, hreceiver, hall, hfits⟩
    exact ⟨lists.length_senderChains.symm, hsender, lists.length_receiverChains.symm, hreceiver,
      hall.symm, hfits, rfl⟩

/-- Lists that fit are as long as the pickle says. -/
theorem Loaded.length_eq (h : lists.Loaded ratchet) (hfits : lists.Fits) :
    ratchet.senderChain.toList.length = lists.senderSize.toNat ∧
      ratchet.receiverChains.toList.length = lists.receiverSize.toNat ∧
      ratchet.skippedMessageKeys.toList.length = lists.skippedSize.toNat := by
  obtain ⟨hsender, hreceiver, hall, hskipped⟩ := hfits
  rw [h.senderChain, h.receiverChains, h.skippedMessageKeys, BoundedList.length_foldl_insertEnd,
    BoundedList.length_foldl_insertEnd, BoundedList.length_foldl_insertEnd,
    ← lists.length_senderChains, ← lists.length_receiverChains, ← hall]
  simp only [BoundedList.toList_empty, List.length_nil, Nat.zero_add]
  exact ⟨Nat.min_eq_right hsender, Nat.min_eq_right hreceiver, Nat.min_eq_right hskipped⟩

end PickledLists

/-- What a ratchet is unpickled from. -/
theorem unpickle_eq_some {stale : Stale} {target ratchet : Ratchet SharedKey} {input : Bytes}
    (hsender : target.senderChain = .empty) (hreceivers : target.receiverChains = .empty)
    (hskipped : target.skippedMessageKeys = .empty)
    (h : unpickle stale false target input = (ratchet, some [])) :
    ∃ lists : PickledLists, lists.Loaded ratchet ∧ input = ratchet.rootKey.val ++ lists.bytes := by
  obtain ⟨_, input₁, h₁, h⟩ := Unpickler.andThen_eq_some.mp h
  obtain ⟨rootKey, hrootKey, rfl⟩ := Unpickler.field_eq_some.mp h₁
  obtain ⟨_, input₂, h₂, h⟩ := Unpickler.andThen_eq_some.mp h
  obtain ⟨senderChain, hsenderChain, rfl⟩ := Unpickler.field_eq_some.mp h₂
  obtain ⟨_, input₃, h₃, h⟩ := Unpickler.andThen_eq_some.mp h
  obtain ⟨receiverChains, hreceiverChains, rfl⟩ := Unpickler.field_eq_some.mp h₃
  obtain ⟨_, input₄, h₄, h⟩ := Unpickler.andThen_eq_some.mp h
  obtain ⟨skippedMessageKeys, hskippedMessageKeys, rfl⟩ := Unpickler.field_eq_some.mp h₄
  -- no chain index follows
  cases h
  have hne : input₂ ≠ [] := Session.ne_nil_of_skipList
    ((consumes_unpickleList consumes_unpickleReceiverChain (by decide) _).exists_eq_some.mp
      ⟨_, hreceiverChains⟩)
  have hne' : input₃ ≠ [] := Session.ne_nil_of_skipList
    ((consumes_unpickleList consumes_unpickleSkippedMessageKey (by decide) _).exists_eq_some.mp
      ⟨_, hskippedMessageKeys⟩)
  obtain ⟨senderSize, senders, hle, hend, hsenders, rfl⟩ :=
    unpickleList_eq_some writesBack_unpickleSenderChain hsenderChain
  obtain ⟨receiverSize, receivers, hle', hend', hreceivers', rfl⟩ :=
    unpickleList_eq_some writesBack_unpickleReceiverChain hreceiverChains
  obtain ⟨skippedSize, keys, hle'', -, hkeys, rfl⟩ :=
    unpickleList_eq_some writesBack_unpickleSkippedMessageKey hskippedMessageKeys
  have hsenderLength : senders.length = senderSize.toNat :=
    Nat.le_antisymm hle (Nat.le_of_not_lt fun hlt => hne (hend hlt))
  have hreceiverLength : receivers.length = receiverSize.toNat :=
    Nat.le_antisymm hle' (Nat.le_of_not_lt fun hlt => hne' (hend' hlt))
  refine ⟨⟨senderSize, senders, receiverSize, receivers, skippedSize, keys, hsenderLength,
    hreceiverLength, hle''⟩, ⟨?_, ?_, ?_⟩, writesBack_unpickleBytes _ _ _ _ _ hrootKey⟩
  · rw [← hsender]
    exact hsenders
  · rw [← hreceivers]
    exact hreceivers'
  · rw [← hskipped]
    exact hkeys

end Olm.Ratchet

namespace Olm.Session

open Ratchet (PickledLists)

/-- What a session is unpickled from. -/
theorem unpickle_eq_some {stale : Ratchet.Stale} {session : Session SharedKey} {b : Bytes}
    (hversion : pickleVersion b = 1)
    (h : unpickle stale (Session.new (FixedBytes.zero _)) b = (session, some [])) :
    ∃ (flag : UInt8) (lists : PickledLists), lists.Loaded session.ratchet ∧
      session.receivedMessage = (flag != 0) ∧
      b = pickleUInt32 SESSION_PICKLE_VERSION ++ ([flag] ++ (session.aliceIdentityKey.val ++
        (session.aliceBaseKey.val ++ (session.bobOneTimeKey.val ++ (session.bobPrekey.val ++
        (session.ratchet.rootKey.val ++ lists.bytes)))))) := by
  have hlen : 4 ≤ b.length := by
    by_contra hlt
    rw [unpickle_of_lt (by omega)] at h
    cases h
  have hhead : b = pickleUInt32 SESSION_PICKLE_VERSION ++ b.drop 4 := by
    have htake : (b.take 4).length = 4 := List.length_take_of_le hlen
    have hone : (SESSION_PICKLE_VERSION).toNat = ofBigEndian (b.take 4) := hversion.symm
    rw [pickleUInt32, hone, toBigEndian_ofBigEndian htake, List.take_append_drop]
  rw [unpickle_of_version hlen hversion] at h
  obtain ⟨_, input₁, h₁, h⟩ := Unpickler.andThen_eq_some.mp h
  obtain ⟨receivedMessage, hflag, rfl⟩ := Unpickler.field_eq_some.mp h₁
  obtain ⟨_, input₂, h₂, h⟩ := Unpickler.andThen_eq_some.mp h
  obtain ⟨aliceIdentityKey, hidentity, rfl⟩ := Unpickler.field_eq_some.mp h₂
  obtain ⟨_, input₃, h₃, h⟩ := Unpickler.andThen_eq_some.mp h
  obtain ⟨aliceBaseKey, hbase, rfl⟩ := Unpickler.field_eq_some.mp h₃
  obtain ⟨_, input₄, h₄, h⟩ := Unpickler.andThen_eq_some.mp h
  obtain ⟨bobOneTimeKey, honeTime, rfl⟩ := Unpickler.field_eq_some.mp h₄
  obtain ⟨_, input₅, h₅, h⟩ := Unpickler.andThen_eq_some.mp h
  obtain ⟨bobPrekey, hprekey, rfl⟩ := Unpickler.field_eq_some.mp h₅
  obtain ⟨ratchet, hratchet, rfl⟩ := Unpickler.field_eq_some.mp h
  obtain ⟨lists, hloaded, hinput⟩ := Ratchet.unpickle_eq_some rfl rfl rfl hratchet
  obtain ⟨flag, hbytes, hreceived⟩ : ∃ flag, b.drop 4 = [flag] ++ input₁ ∧
      receivedMessage = (flag != 0) := by
    cases hdrop : b.drop 4 with
    | nil =>
      rw [hdrop] at hflag
      cases hflag
    | cons flag rest =>
      rw [hdrop] at hflag
      cases hflag
      exact ⟨flag, rfl, rfl⟩
  refine ⟨flag, lists, hloaded, hreceived, ?_⟩
  rw [← hinput, ← writesBack_unpickleBytes _ _ _ _ _ hprekey,
    ← writesBack_unpickleBytes _ _ _ _ _ honeTime, ← writesBack_unpickleBytes _ _ _ _ _ hbase,
    ← writesBack_unpickleBytes _ _ _ _ _ hidentity, ← hbytes]
  exact hhead

theorem uint32At_of_drop {b rest : Bytes} {pos : ℕ} {size : UInt32}
    (h : b.drop pos = pickleUInt32 size ++ rest) : uint32At b pos = size.toNat := by
  have hlt := size.toNat_lt
  have htake : (pickleUInt32 size ++ rest).take 4 = pickleUInt32 size :=
    List.take_left' (length_pickleUInt32 size)
  rw [uint32At, h, htake, pickleUInt32, ofBigEndian_toBigEndian, Nat.mod_eq_of_lt (by omega)]

/-- What follows a list. -/
theorem drop_of_drop {α : Type} {b rest : Bytes} {pos m : ℕ} {size : UInt32} {values : List α}
    {pickleValue : α → Bytes} (hvalue : ∀ value, (pickleValue value).length = m)
    (hlen : values.length = size.toNat)
    (h : b.drop pos = pickleUInt32 size ++ ((values.map pickleValue).flatten ++ rest)) :
    b.drop (pos + (4 + m * uint32At b pos)) = rest := by
  have hlist : (pickleUInt32 size ++ (values.map pickleValue).flatten).length =
      4 + m * uint32At b pos := by
    rw [uint32At_of_drop h, ← hlen, List.length_append, length_pickleUInt32,
      length_flatten_map hvalue]
    rfl
  rw [← List.drop_drop, h, ← List.append_assoc, List.drop_left' hlist]

/-- What the pickle says of the lists. -/
theorem sizes_of_drop {b : Bytes} {lists : PickledLists} (h : b.drop senderChainsAt = lists.bytes) :
    senderChains b = lists.senderSize.toNat ∧ receiverChains b = lists.receiverSize.toNat ∧
      skippedMessageKeys b = lists.skippedSize.toNat ∧
      b.length = skippedMessageKeysAt b + (4 + 68 * lists.skippedMessageKeys.length) := by
  have hsenderChain : ∀ value, (pickleSenderChain value).length = 100 := length_pickleSenderChain
  have hreceiverChain : ∀ value, (pickleReceiverChain value).length = 68 :=
    length_pickleReceiverChain
  have hmessageKey : ∀ value, (pickleSkippedMessageKey value).length = 68 :=
    length_pickleSkippedMessageKey
  have hreceivers := drop_of_drop hsenderChain lists.length_senderChains h
  have hskipped := drop_of_drop hreceiverChain lists.length_receiverChains hreceivers
  refine ⟨uint32At_of_drop h, uint32At_of_drop hreceivers, uint32At_of_drop hskipped, ?_⟩
  have hlen : (b.drop (skippedMessageKeysAt b)).length = _ := congrArg List.length hskipped
  rw [List.append_nil, List.length_drop, List.length_append, length_pickleUInt32,
    length_flatten_map hmessageKey, pickleLengthUInt32] at hlen
  omega

/-- A session is pickled as it was unpickled when its lists fit. -/
theorem unpickle_pickle_iff {stale : Ratchet.Stale} {session : Session SharedKey} {b : Bytes}
    (hversion : pickleVersion b = 1)
    (h : unpickle stale (Session.new (FixedBytes.zero _)) b = (session, some [])) :
    ∃ lists : PickledLists, lists.Loaded session.ratchet ∧
      (session.pickle = withBool b ↔ lists.Fits) ∧
      senderChains b = lists.senderSize.toNat ∧ receiverChains b = lists.receiverSize.toNat ∧
      skippedMessageKeys b = lists.skippedSize.toNat ∧
      b.length = skippedMessageKeysAt b + (4 + 68 * lists.skippedMessageKeys.length) := by
  obtain ⟨flag, lists, hloaded, hflag, hb⟩ := unpickle_eq_some hversion h
  obtain ⟨front, hfront, hcut⟩ : ∃ front : Bytes, front.length = senderChainsAt ∧
      b = front ++ lists.bytes := by
    refine ⟨pickleUInt32 SESSION_PICKLE_VERSION ++ ([flag] ++ (session.aliceIdentityKey.val ++
      (session.aliceBaseKey.val ++ (session.bobOneTimeKey.val ++ (session.bobPrekey.val ++
      session.ratchet.rootKey.val))))), ?_, ?_⟩
    · simp only [List.length_append, List.length_singleton, FixedBytes.length_val]
      rfl
    · rw [hb]
      simp only [List.append_assoc]
  have hdrop : b.drop senderChainsAt = lists.bytes := by rw [hcut, List.drop_left' hfront]
  have hwith : withBool b = pickleUInt32 SESSION_PICKLE_VERSION ++
      (pickleBool session.receivedMessage ++ (session.aliceIdentityKey.val ++
      (session.aliceBaseKey.val ++ (session.bobOneTimeKey.val ++ (session.bobPrekey.val ++
      (session.ratchet.rootKey.val ++ lists.bytes)))))) := by
    rw [hb, hflag]
    rfl
  refine ⟨lists, hloaded, ?_, sizes_of_drop hdrop⟩
  rw [hwith, pickle, ← hloaded.pickle_eq_iff]
  simp only [List.append_cancel_left_eq]

/-- **Which pickles are given back.** Where the lists end where the pickle
ends, no list may be longer than there is room for, and no value of the last
list may be missing. -/
theorem givesBack_iff (stale : Ratchet.Stale) (b : Bytes) :
    GivesBack stale b ↔
      (pickleVersion b = 1 → ∀ j ≤ skippedMessageKeys b,
        b.length = skippedMessageKeysAt b + (4 + 68 * j) →
        senderChains b ≤ 1 ∧ receiverChains b ≤ MAX_RECEIVER_CHAINS ∧
        skippedMessageKeys b ≤ MAX_SKIPPED_MESSAGE_KEYS ∧ j = skippedMessageKeys b) := by
  constructor
  · intro h hversion j hj hlen
    obtain ⟨session, hread⟩ := (exists_unpickle_iff hversion).mpr
      (skipLists_eq_nil_iff.mpr ⟨j, hj, hlen⟩)
    obtain ⟨hpickle, -⟩ := h session hread hversion
    obtain ⟨lists, hloaded, hiff, hsender, hreceiver, hskipped, hlen'⟩ :=
      unpickle_pickle_iff hversion hread
    obtain ⟨hfits, hfits', hall, hfits''⟩ := hiff.mp hpickle
    rw [lists.length_senderChains] at hfits
    rw [lists.length_receiverChains] at hfits'
    refine ⟨by omega, by omega, by omega, by omega⟩
  · intro h session hread hversion
    obtain ⟨lists, hloaded, hiff, hsender, hreceiver, hskipped, hlen⟩ :=
      unpickle_pickle_iff hversion hread
    obtain ⟨hfits, hfits', hfits'', hall⟩ := h hversion lists.skippedMessageKeys.length
      (by rw [hskipped]; exact lists.length_skippedMessageKeys) hlen
    have hlists : lists.Fits := by
      refine ⟨?_, ?_, by omega, by omega⟩
      · rw [lists.length_senderChains, ← hsender]
        exact hfits
      · rw [lists.length_receiverChains, ← hreceiver]
        exact hfits'
    obtain ⟨hsenders, hreceivers, hkeys⟩ := hloaded.length_eq hlists
    exact ⟨hiff.mpr hlists, hsenders.trans hsender.symm, hreceivers.trans hreceiver.symm,
      hkeys.trans hskipped.symm⟩

/-- A pickle that ends where the one skipped message key it speaks of should
be. -/
theorem not_givesBack :
    ¬GivesBack .zero ([0, 0, 0, 1] ++ (List.replicate 172 0 ++ [1])) := by
  intro h
  have hversion : pickleVersion ([0, 0, 0, 1] ++ (List.replicate 172 0 ++ [1])) = 1 := by decide
  have hone : skippedMessageKeys ([0, 0, 0, 1] ++ (List.replicate 172 0 ++ [1])) = 1 := by decide
  have hat : skippedMessageKeysAt ([0, 0, 0, 1] ++ (List.replicate 172 0 ++ [1])) = 173 := by
    decide
  have hlen : ([0, 0, 0, 1] ++ (List.replicate 172 0 ++ [1]) : Bytes).length = 177 := by
    simp only [List.length_append, List.length_replicate, List.length_cons, List.length_nil]
  obtain ⟨session, hread⟩ := (exists_unpickle_iff hversion).mpr
    (skipLists_eq_nil_iff.mpr ⟨0, Nat.zero_le _, by rw [hlen, hat]⟩)
  obtain ⟨lists, -, hiff, -, -, hskipped, hlen'⟩ := unpickle_pickle_iff hversion hread
  have hall := (hiff.mp (h session hread hversion).1).all
  rw [hone] at hskipped
  rw [hlen, hat] at hlen'
  omega

end Olm.Session
