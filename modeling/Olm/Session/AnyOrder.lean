import Olm.Common.Window
import Olm.Session.Errors

/-!
# Messages in any order

The keys of one receiver chain are a window on its messages: a message
ahead of the chain moves it on and stores the keys that were skipped, a
message behind it takes its key out again. So where the messages of a chain
arrive in two orders, the ratchet ends up the same (`deliver_perm`): as
long as no index wraps around, after which the chain is taken to be at its
start.
-/

namespace Olm

variable {K : Type} (config : RatchetConfig K)

/-- The key that is stored for the message `counter` of a chain. -/
def skippedKeyAt (ratchetKey : Curve25519PublicKey) (start : K) (counter : ℕ) :
    SkippedMessageKey K where
  ratchetKey := ratchetKey
  messageKey := { index := counter, key := messageKeyAt config start counter }

/-- The check of `decrypt` on a stored key. -/
def SkippedMessageKey.isFor (ratchetKey : Curve25519PublicKey) (counter : ℕ)
    (skipped : SkippedMessageKey K) : Bool :=
  decide (counter = skipped.messageKey.index ∧ skipped.ratchetKey = ratchetKey)

/-- The window of a chain: where the chain is at, and the stored keys. -/
def moveWindow (ratchetKey : Curve25519PublicKey) (start : K) :
    Window (SkippedMessageKey K) → ℕ → Window (SkippedMessageKey K) :=
  Window.receive (skippedKeyAt config ratchetKey start) (SkippedMessageKey.isFor ratchetKey)

/-- **The window does not depend on the order.** -/
theorem foldl_moveWindow_perm (ratchetKey : Curve25519PublicKey) (start : K)
    (window : Window (SkippedMessageKey K)) {counters counters' : List ℕ}
    (h : counters.Perm counters') :
    counters.foldl (moveWindow config ratchetKey start) window =
      counters'.foldl (moveWindow config ratchetKey start) window := by
  refine Window.foldl_receive_perm ?_ ?_ window h
  · intro counter i
    simp [SkippedMessageKey.isFor, skippedKeyAt, eq_comm]
  · intro counter counter' skipped hcounter hcounter'
    simp only [SkippedMessageKey.isFor, decide_eq_true_eq] at hcounter hcounter'
    exact hcounter.1.trans hcounter'.1.symm

namespace Ratchet

/-! ## A ratchet and the window of one of its chains -/

/-- **The chain that starts at `start`** is the one the ratchet has, or makes
with its first message, for this ratchet key. -/
structure HasChain (ratchet : Ratchet K) (ratchetKey : Curve25519PublicKey) (start : K) :
    Prop where
  stored : ∀ chain, ratchet.receiverChainOf ratchetKey = some chain →
    chain.chainKey = chainKeyAt config start chain.chainKey.index
  made : ratchet.receiverChainOf ratchetKey = none →
    ∃ senderChain rest, ratchet.senderChain.toList = senderChain :: rest ∧
      (createChainKey config ratchet.rootKey senderChain.ratchetKey ratchetKey).2.key = start
  skipped : ∀ skipped ∈ ratchet.skippedMessageKeys.toList, skipped.ratchetKey = ratchetKey →
    skipped.messageKey.key = messageKeyAt config start skipped.messageKey.index

/-- What the messages of a chain that is stored leave as it is. -/
structure Around (K : Type) where
  rootKey : K
  senderChain : BoundedList (SenderChain K) 1
  before : List (ReceiverChain K)
  after : List (ReceiverChain K)

/-- The ratchet, with the stored chain and the skipped keys taken out, is
`around`, and these are those of the window. -/
structure Shows (around : Around K) (ratchetKey : Curve25519PublicKey) (start : K)
    (ratchet : Ratchet K) (window : Window (SkippedMessageKey K)) : Prop where
  rootKey : ratchet.rootKey = around.rootKey
  senderChain : ratchet.senderChain = around.senderChain
  before : ∀ chain ∈ around.before, chain.ratchetKey ≠ ratchetKey
  receiverChains : ratchet.receiverChains.toList = around.before ++
    { ratchetKey := ratchetKey, chainKey := chainKeyAt config start window.index } :: around.after
  kept : ratchet.skippedMessageKeys.toList = window.kept
  skipped : ∀ skipped ∈ window.kept, skipped.ratchetKey = ratchetKey →
    skipped.messageKey.key = messageKeyAt config start skipped.messageKey.index

variable {config} {ratchet ratchet' : Ratchet K} {around : Around K}
  {ratchetKey : Curve25519PublicKey} {start : K} {window : Window (SkippedMessageKey K)}
  {buf plaintext : Bytes} {reader : MessageReader} {maxPlaintextLength : ℕ}

/-- The window is all that the ratchet is besides. -/
theorem Shows.eq (h : ratchet.Shows config around ratchetKey start window)
    (h' : ratchet'.Shows config around ratchetKey start window) :
    ratchet = { ratchet' with lastError := ratchet.lastError } := by
  have hreceivers : ratchet.receiverChains = ratchet'.receiverChains :=
    BoundedList.ext (h.receiverChains.trans h'.receiverChains.symm)
  have hskipped : ratchet.skippedMessageKeys = ratchet'.skippedMessageKeys :=
    BoundedList.ext (h.kept.trans h'.kept.symm)
  rw [← hreceivers, ← hskipped, ← h.rootKey.trans h'.rootKey.symm,
    ← h.senderChain.trans h'.senderChain.symm]

theorem Shows.withError (h : ratchet.Shows config around ratchetKey start window)
    (code : OlmErrorCode) :
    ({ ratchet with lastError := code } : Ratchet K).Shows config around ratchetKey start window :=
  ⟨h.rootKey, h.senderChain, h.before, h.receiverChains, h.kept, h.skipped⟩

/-- The chain that is found. -/
theorem Shows.find (h : ratchet.Shows config around ratchetKey start window) :
    ∃ place, ratchet.receiverChains.toList.findFinIdx? (fun chain => chain.ratchetKey = ratchetKey) =
        some place ∧ place.val = around.before.length ∧
      ratchet.receiverChains.toList.get place =
        { ratchetKey := ratchetKey, chainKey := chainKeyAt config start window.index } :=
  List.findFinIdx?_of_append_cons h.receiverChains
    (fun chain hchain => by simpa using h.before chain hchain) (decide_eq_true rfl)

/-- The loop over the skipped keys takes the first that goes with the
message, where all that do open it. -/
theorem trySkippedMessageKeys_eq_findIdx? {skipped : List (SkippedMessageKey K)} (place : ℕ)
    (hall : ∀ key ∈ skipped, key.isFor ratchetKey reader.counter.value = true →
      verifyMacAndDecrypt config key.messageKey buf reader maxPlaintextLength =
        .ok (some plaintext)) :
    trySkippedMessageKeys config ratchetKey buf reader maxPlaintextLength skipped place =
      .ok ((skipped.findIdx? (·.isFor ratchetKey reader.counter.value)).map
        (fun i => (place + i, plaintext))) := by
  induction skipped generalizing place with
  | nil => rfl
  | cons key skipped ih =>
    have hrest := ih (place + 1) (fun key hkey => hall key (List.mem_cons_of_mem _ hkey))
    rw [trySkippedMessageKeys, List.findIdx?_cons]
    by_cases hmatch : reader.counter.value = key.messageKey.index ∧ key.ratchetKey = ratchetKey
    · have hfor : key.isFor ratchetKey reader.counter.value = true := decide_eq_true hmatch
      rw [if_pos hmatch, if_pos hfor, hall key List.mem_cons_self hfor, Checked.ok_bind]
      rfl
    · have hfor : ¬ key.isFor ratchetKey reader.counter.value = true := by
        simpa [SkippedMessageKey.isFor] using hmatch
      rw [if_neg hmatch, if_neg hfor, hrest, Option.map_map]
      congr 2
      funext i
      simp only [Function.comp_apply, Nat.add_assoc, Nat.add_comm 1]

/-- Moving the chain past a message moves the window past it. -/
theorem Shows.advanceReceiverChain (h : ratchet.Shows config around ratchetKey start window)
    {counter : ℕ} (hahead : window.index ≤ counter) (hcounter : counter + 1 < 2 ^ 32)
    (hroom : window.kept.length + (counter - window.index) ≤ MAX_SKIPPED_MESSAGE_KEYS) :
    (ratchet.advanceReceiverChain config around.before.length
      { ratchetKey := ratchetKey, chainKey := chainKeyAt config start window.index }
      counter).Shows config around ratchetKey start
        (moveWindow config ratchetKey start window counter) := by
  obtain ⟨skipped, hadvance, hskipped⟩ := advanceReceiverChain_chainKeyAt config ratchet
    around.before.length ratchetKey start hahead hcounter
  have hkept : skipped.toList =
      skippedKeysOf config ratchetKey start window.index counter ++ window.kept := by
    rw [hskipped, h.kept]
    refine List.take_of_length_le ?_
    simp only [skippedKeysOf, List.length_append, List.length_reverse, List.length_map,
      List.length_range']
    omega
  have hmoved : moveWindow config ratchetKey start window counter =
      { index := counter + 1
        kept := skippedKeysOf config ratchetKey start window.index counter ++ window.kept } := by
    rw [moveWindow, Window.receive, if_pos hahead]
    rfl
  rw [hadvance, hmoved]
  refine ⟨h.rootKey, h.senderChain, h.before, ?_, hkept, ?_⟩
  · simp only [BoundedList.toList_set, h.receiverChains, List.set_append_right _ _ (Nat.le_refl _),
      Nat.sub_self, List.set_cons_zero]
  · intro skipped hmem hkey
    rcases List.mem_append.mp hmem with hnew | hold
    · obtain ⟨i, -, -, rfl⟩ := (mem_skippedKeysOf config).mp hnew
      rfl
    · exact h.skipped skipped hold hkey

/-- A message that the chain is not past moves it on. -/
theorem Shows.decryptReader_eq (h : ratchet.Shows config around ratchetKey start window)
    (hahead : window.index ≤ reader.counter.value) (hcounter : reader.counter.value < 2 ^ 32)
    (hgap : reader.counter.value ≤ window.index + MAX_MESSAGE_GAP)
    (hopens : verifyMacAndDecrypt config
      { index := reader.counter.value, key := messageKeyAt config start reader.counter.value } buf
      reader maxPlaintextLength = .ok (some plaintext)) :
    ratchet.decryptReader config buf reader ratchetKey maxPlaintextLength false =
      .ok (ratchet.advanceReceiverChain config around.before.length
        { ratchetKey := ratchetKey, chainKey := chainKeyAt config start window.index }
        reader.counter.value, some plaintext) := by
  obtain ⟨place, hfind, hplace, hchain⟩ := h.find
  rw [List.get_eq_getElem] at hchain
  rw [← hplace]
  simp only [Ratchet.decryptReader, hfind, hchain, Fin.getElem_fin, Bool.false_and,
    Bool.false_eq_true, if_false, chainKeyAt_index, gt_iff_lt, if_neg (Nat.not_lt.mpr hahead)]
  rw [verifyMacAndDecryptForExistingChain_of_le hahead hgap,
    keysAhead_chainKeyAt start hahead hcounter, hopens]
  rfl

/-- And the window, where there is room for the keys that it skips. -/
theorem Shows.decryptReader_ahead (h : ratchet.Shows config around ratchetKey start window)
    (hahead : window.index ≤ reader.counter.value) (hcounter : reader.counter.value + 1 < 2 ^ 32)
    (hgap : reader.counter.value ≤ window.index + MAX_MESSAGE_GAP)
    (hroom : window.kept.length + (reader.counter.value - window.index) ≤ MAX_SKIPPED_MESSAGE_KEYS)
    (hopens : verifyMacAndDecrypt config
      { index := reader.counter.value, key := messageKeyAt config start reader.counter.value } buf
      reader maxPlaintextLength = .ok (some plaintext)) :
    ∃ ratchet' result,
      ratchet.decryptReader config buf reader ratchetKey maxPlaintextLength false =
        .ok (ratchet', result) ∧
      ratchet'.Shows config around ratchetKey start
        (moveWindow config ratchetKey start window reader.counter.value) :=
  ⟨_, some plaintext, h.decryptReader_eq hahead (Nat.lt_of_succ_lt hcounter) hgap hopens,
    h.advanceReceiverChain hahead hcounter hroom⟩

/-- A message behind the chain takes its key out, where it is stored. -/
theorem Shows.decryptReader_behind (h : ratchet.Shows config around ratchetKey start window)
    (hbehind : reader.counter.value < window.index)
    (hopens : ∀ index, verifyMacAndDecrypt config
      { index := index, key := messageKeyAt config start reader.counter.value } buf reader
      maxPlaintextLength = .ok (some plaintext)) :
    ∃ ratchet' result,
      ratchet.decryptReader config buf reader ratchetKey maxPlaintextLength false =
        .ok (ratchet', result) ∧
      ratchet'.Shows config around ratchetKey start
        (moveWindow config ratchetKey start window reader.counter.value) := by
  obtain ⟨place, hfind, -, hchain⟩ := h.find
  rw [List.get_eq_getElem] at hchain
  have hmoved : moveWindow config ratchetKey start window reader.counter.value =
      { window with kept := window.kept.eraseP (·.isFor ratchetKey reader.counter.value) } := by
    rw [moveWindow, Window.receive, if_neg (Nat.not_le.mpr hbehind)]
  have htry : trySkippedMessageKeys config ratchetKey buf reader maxPlaintextLength
      ratchet.skippedMessageKeys.toList 0 =
      .ok ((window.kept.findIdx? (·.isFor ratchetKey reader.counter.value)).map
        (fun i => (0 + i, plaintext))) := by
    rw [h.kept]
    refine trySkippedMessageKeys_eq_findIdx? 0 fun key hkey hfor => ?_
    obtain ⟨hindex, hratchetKey⟩ := of_decide_eq_true hfor
    have hopen := hopens key.messageKey.index
    rw [hindex, ← h.skipped key hkey hratchetKey] at hopen
    exact hopen
  have hkept : ∀ skipped ∈ window.kept.eraseP (·.isFor ratchetKey reader.counter.value),
      skipped.ratchetKey = ratchetKey →
      skipped.messageKey.key = messageKeyAt config start skipped.messageKey.index :=
    fun skipped hmem => h.skipped skipped (List.mem_of_mem_eraseP hmem)
  rw [hmoved]
  simp only [Ratchet.decryptReader, hfind, hchain, Fin.getElem_fin, Bool.false_and,
    Bool.false_eq_true, if_false, chainKeyAt_index, gt_iff_lt, if_pos hbehind, htry,
    Checked.ok_bind]
  cases hfound : window.kept.findIdx? (·.isFor ratchetKey reader.counter.value) with
  | none =>
    have herase : window.kept.eraseP (·.isFor ratchetKey reader.counter.value) = window.kept := by
      rw [List.eraseP_eq_eraseIdx, hfound]
    rw [herase]
    exact ⟨_, none, rfl, h.withError _⟩
  | some i =>
    have herase : window.kept.eraseP (·.isFor ratchetKey reader.counter.value) =
        window.kept.eraseIdx i := by
      rw [List.eraseP_eq_eraseIdx, hfound]
    refine ⟨_, some plaintext, rfl, h.rootKey, h.senderChain, h.before, h.receiverChains, ?_,
      hkept⟩
    rw [BoundedList.toList_eraseIdx, h.kept, herase, Nat.zero_add]

/-! ### A chain that is not stored yet -/

variable (config) in
/-- The ratchet has the window of the chain, or gets it when it starts the
chain. -/
def Stands (around : Around K) (ratchetKey : Curve25519PublicKey) (start : K) (ratchet : Ratchet K)
    (window : Window (SkippedMessageKey K)) : Prop :=
  ratchet.Shows config around ratchetKey start window ∨
  ratchet.receiverChainOf ratchetKey = none ∧ window.index = 0 ∧
  ratchet.skippedMessageKeys.toList = window.kept ∧
  ∃ senderChain rest, ratchet.senderChain.toList = senderChain :: rest ∧
    (ratchet.startReceiverChain config senderChain ratchetKey).2 =
      { ratchetKey := ratchetKey, chainKey := chainKeyAt config start 0 } ∧
    around.before = [] ∧
    (ratchet.startReceiverChain config senderChain ratchetKey).1.Shows config around ratchetKey
      start window

theorem HasChain.stands (h : ratchet.HasChain config ratchetKey start) :
    ∃ around window, ratchet.Stands config around ratchetKey start window := by
  cases hchain : ratchet.receiverChainOf ratchetKey with
  | some chain =>
    obtain ⟨hkey, before, after, hlist, hbefore⟩ := List.find?_eq_some_iff_append.mp hchain
    refine ⟨⟨ratchet.rootKey, ratchet.senderChain, before, after⟩,
      ⟨chain.chainKey.index, ratchet.skippedMessageKeys.toList⟩, .inl ⟨rfl, rfl, ?_, ?_, rfl,
        h.skipped⟩⟩
    · intro other hother
      simpa using hbefore other hother
    · rw [hlist, ← h.stored chain hchain, ← of_decide_eq_true hkey]
  | none =>
    obtain ⟨senderChain, rest, hsender, hstart⟩ := h.made hchain
    have hstarted : (ratchet.startReceiverChain config senderChain ratchetKey).2 =
        { ratchetKey := ratchetKey, chainKey := chainKeyAt config start 0 } := by
      simp only [startReceiverChain, ← hstart, ← createChainKey_index]
    refine ⟨⟨(createChainKey config ratchet.rootKey senderChain.ratchetKey ratchetKey).1,
      ratchet.senderChain.eraseIdx 0, [], ratchet.receiverChains.toList.take 4⟩,
      ⟨0, ratchet.skippedMessageKeys.toList⟩, .inr ⟨hchain, rfl, rfl, senderChain, rest, hsender,
        hstarted, rfl, ⟨rfl, rfl, nofun, ?_, rfl, h.skipped⟩⟩⟩
    rw [← hstarted]
    rfl

/-- The window starts where the chain is at. -/
theorem Stands.index_eq (h : ratchet.Stands config around ratchetKey start window) :
    window.index = ratchet.chainIndexOf ratchetKey := by
  rcases h with h | ⟨hnone, hindex, -⟩
  · obtain ⟨place, hfind, -, hchain⟩ := h.find
    rw [chainIndexOf, receiverChainOf_eq, hfind, Option.map_some, hchain]
    rfl
  · rw [hindex, chainIndexOf, hnone]
    rfl

theorem Stands.kept_eq (h : ratchet.Stands config around ratchetKey start window) :
    window.kept = ratchet.skippedMessageKeys.toList := by
  rcases h with h | ⟨-, -, hkept, -⟩
  · exact h.kept.symm
  · exact hkept.symm

/-- A message that there is room for: the chain moves at most
`MAX_MESSAGE_GAP`, and the keys that are skipped can be stored. -/
structure Fits (ratchet : Ratchet K) (ratchetKey : Curve25519PublicKey) (counter : ℕ) : Prop where
  gap : counter ≤ ratchet.chainIndexOf ratchetKey + MAX_MESSAGE_GAP
  room : ratchet.skippedMessageKeys.toList.length +
    (counter - ratchet.chainIndexOf ratchetKey) ≤ MAX_SKIPPED_MESSAGE_KEYS

/-- **One message moves the window**, and the chain is stored after it. -/
theorem Stands.decryptReader (h : ratchet.Stands config around ratchetKey start window)
    (hfits : ratchet.Fits ratchetKey reader.counter.value)
    (hcounter : reader.counter.value + 1 < 2 ^ 32)
    (hload : (nonNull reader.ratchetKey.value >>= loadArray CURVE25519_KEY_LENGTH buf) =
      .ok ratchetKey)
    (hopens : ∀ index, verifyMacAndDecrypt config
      { index := index, key := messageKeyAt config start reader.counter.value } buf reader
      maxPlaintextLength = .ok (some plaintext)) :
    ∃ ratchet' result,
      ratchet.decryptReader config buf reader ratchetKey maxPlaintextLength false =
        .ok (ratchet', result) ∧
      ratchet'.Shows config around ratchetKey start
        (moveWindow config ratchetKey start window reader.counter.value) := by
  have hgap := hfits.gap
  have hroom := hfits.room
  rw [← h.index_eq] at hgap hroom
  rw [← h.kept_eq] at hroom
  rcases h with h | ⟨hnone, hindex, -, senderChain, rest, hsender, hstarted, hbefore, hshows⟩
  · rcases Nat.lt_or_ge reader.counter.value window.index with hbehind | hahead
    · exact h.decryptReader_behind hbehind hopens
    · exact h.decryptReader_ahead hahead hcounter hgap hroom (hopens _)
  · -- the chain is started, and moved past the message at once
    have hchain : createChainKey config ratchet.rootKey senderChain.ratchetKey ratchetKey =
        ((ratchet.startReceiverChain config senderChain ratchetKey).1.rootKey,
          chainKeyAt config start 0) :=
      Prod.ext rfl (congrArg ReceiverChain.chainKey hstarted)
    have hfind : ratchet.receiverChains.toList.findFinIdx?
        (fun chain => chain.ratchetKey = ratchetKey) = none := by
      rw [receiverChainOf_eq, Option.map_eq_none_iff] at hnone
      exact hnone
    have hadvanced := hshows.advanceReceiverChain (by omega : window.index ≤ reader.counter.value)
      hcounter hroom
    rw [hbefore, hindex, List.length_nil] at hadvanced
    obtain ⟨pos, hpos, hkey⟩ := Checked.bind_eq_ok.mp hload
    refine ⟨_, some plaintext, ?_, hadvanced⟩
    rw [hindex, Nat.zero_add] at hgap
    simp only [Ratchet.decryptReader, hfind, verifyMacAndDecryptForNewChain, hsender,
      if_neg (Nat.not_lt.mpr hgap), gt_iff_lt, hpos, hkey, Checked.ok_bind, hchain]
    rw [verifyMacAndDecryptForExistingChain_of_le (Nat.zero_le _) (by simpa using hgap),
      keysAhead_chainKeyAt start (Nat.zero_le _) (Nat.lt_of_succ_lt hcounter), hopens]
    simp only [Checked.ok_bind, hstarted]

end Ratchet

/-! ## Deliveries -/

namespace Session

variable (prims : Primitives K)

/-- A message to be decrypted: what comes before the message of a ratchet,
that message and its counter, and the room for the plain text. -/
structure Delivery where
  messageType : MessageType
  header : Bytes
  body : Bytes
  counter : ℕ
  maxPlaintextLength : ℕ

/-- A message of an honest sender, on the chain that starts at `start`. -/
structure Delivery.IsHonest (ratchetKey : Curve25519PublicKey) (start : K) (delivery : Delivery) :
    Prop where
  frames : Frames delivery.messageType delivery.header delivery.body
  counter_lt : delivery.counter < 2 ^ 32
  sealed_ : ∃ plaintext,
    Sealed prims.ratchetConfig (messageKeyAt prims.ratchetConfig start delivery.counter) ratchetKey
      delivery.counter plaintext delivery.body ∧
    plaintextRoom prims.ratchetConfig plaintext ≤ delivery.maxPlaintextLength

/-- `decrypt` on one message after the other, whatever it returns. -/
def deliver (session : Session K) : List Delivery → Checked (Session K)
  | [] => .ok session
  | delivery :: rest => do
    let (session, _) ← session.decrypt prims delivery.messageType
      (delivery.header ++ delivery.body) delivery.maxPlaintextLength false
    session.deliver rest

/-- There is room for every message when its turn comes. -/
def FitsAll (session : Session K) (ratchetKey : Curve25519PublicKey) : List Delivery → Prop
  | [] => True
  | delivery :: rest => session.ratchet.Fits ratchetKey delivery.counter ∧
    ∀ session' result, session.decrypt prims delivery.messageType
      (delivery.header ++ delivery.body) delivery.maxPlaintextLength false =
        .ok (session', result) → session'.FitsAll ratchetKey rest

variable {prims} {session : Session K} {around : Ratchet.Around K}
  {ratchetKey : Curve25519PublicKey} {start : K} {window : Window (SkippedMessageKey K)}

/-- **One delivery moves the window.** -/
theorem Delivery.IsHonest.decrypt {delivery : Delivery}
    (h : delivery.IsHonest prims ratchetKey start)
    (hstands : session.ratchet.Stands prims.ratchetConfig around ratchetKey start window)
    (hcounter : delivery.counter + 1 < 2 ^ 32)
    (hfits : session.ratchet.Fits ratchetKey delivery.counter) :
    ∃ session' result, session.decrypt prims delivery.messageType
        (delivery.header ++ delivery.body) delivery.maxPlaintextLength false =
          .ok (session', result) ∧
      session'.ratchet.Shows prims.ratchetConfig around ratchetKey start
        (moveWindow prims.ratchetConfig ratchetKey start window delivery.counter) := by
  obtain ⟨plaintext, hsealed, hroom⟩ := h.sealed_
  obtain ⟨reader, hread, hopens⟩ := hsealed.readAs h.counter_lt delivery.header []
  obtain ⟨hopens, hdecrypt⟩ := hopens delivery.maxPlaintextLength hroom
  have hvalue := hread.counter_eq
  rw [← hvalue] at hopens hcounter hfits ⊢
  obtain ⟨ratchet', result, hratchet, hshows⟩ :=
    hstands.decryptReader hfits hcounter hread.loaded hopens
  rw [decrypt_of_frames h.frames, hdecrypt, hratchet, Checked.ok_bind]
  cases result with
  | none => exact ⟨_, none, rfl, hshows.withError _⟩
  | some found => exact ⟨_, some found, rfl, hshows⟩

/-- A message that the chain is not past is decrypted, and moves it on. -/
theorem Delivery.IsHonest.decrypt_ahead {delivery : Delivery}
    (h : delivery.IsHonest prims ratchetKey start)
    (hshows : session.ratchet.Shows prims.ratchetConfig around ratchetKey start window)
    (hahead : window.index ≤ delivery.counter)
    (hgap : delivery.counter ≤ window.index + MAX_MESSAGE_GAP) :
    ∃ session' plaintext, session.decrypt prims delivery.messageType
        (delivery.header ++ delivery.body) delivery.maxPlaintextLength false =
          .ok (session', some plaintext) ∧
      session'.ratchet = session.ratchet.advanceReceiverChain prims.ratchetConfig
        around.before.length
        { ratchetKey := ratchetKey, chainKey := chainKeyAt prims.ratchetConfig start window.index }
        delivery.counter := by
  obtain ⟨plaintext, hsealed, hroom⟩ := h.sealed_
  obtain ⟨reader, hread, hopens⟩ := hsealed.readAs h.counter_lt delivery.header []
  obtain ⟨hopens, hdecrypt⟩ := hopens delivery.maxPlaintextLength hroom
  have hcounter := h.counter_lt
  rw [← hread.counter_eq] at hahead hgap hcounter hopens ⊢
  rw [decrypt_of_frames h.frames, hdecrypt, hshows.decryptReader_eq hahead hcounter hgap (hopens _),
    Checked.ok_bind]
  exact ⟨_, plaintext, rfl, rfl⟩

theorem deliver_cons {delivery : Delivery} {rest : List Delivery} {session' : Session K}
    {result : Option Bytes}
    (h : session.decrypt prims delivery.messageType (delivery.header ++ delivery.body)
      delivery.maxPlaintextLength false = .ok (session', result)) :
    session.deliver prims (delivery :: rest) = session'.deliver prims rest := by
  rw [deliver, h, Checked.ok_bind]

/-- Deliveries on a chain that is stored move its window one by one. -/
theorem deliver_of_shows {deliveries : List Delivery}
    (hshows : session.ratchet.Shows prims.ratchetConfig around ratchetKey start window)
    (hhonest : ∀ delivery ∈ deliveries, delivery.IsHonest prims ratchetKey start)
    (hcounter : ∀ delivery ∈ deliveries, delivery.counter + 1 < 2 ^ 32)
    (hfits : session.FitsAll prims ratchetKey deliveries) :
    ∃ session', session.deliver prims deliveries = .ok session' ∧
      session'.ratchet.Shows prims.ratchetConfig around ratchetKey start
        ((deliveries.map Delivery.counter).foldl
          (moveWindow prims.ratchetConfig ratchetKey start) window) := by
  induction deliveries generalizing session window with
  | nil => exact ⟨session, rfl, hshows⟩
  | cons delivery rest ih =>
    obtain ⟨session', result, hdecrypt, hmoved⟩ := (hhonest _ List.mem_cons_self).decrypt
      (.inl hshows) (hcounter _ List.mem_cons_self) hfits.1
    rw [deliver_cons hdecrypt]
    exact ih hmoved (fun d hd => hhonest d (List.mem_cons_of_mem _ hd))
      (fun d hd => hcounter d (List.mem_cons_of_mem _ hd)) (hfits.2 session' result hdecrypt)

theorem noError_of_deliver {deliveries : List Delivery} {session' : Session K}
    (h : session.ratchet.lastError = .SUCCESS)
    (hrun : session.deliver prims deliveries = .ok session') :
    session'.ratchet.lastError = .SUCCESS := by
  induction deliveries generalizing session with
  | nil =>
    cases hrun
    exact h
  | cons delivery rest ih =>
    obtain ⟨⟨session'', result⟩, hdecrypt, hrun⟩ := Checked.bind_eq_ok.mp hrun
    exact ih (noError_of_decrypt h hdecrypt) hrun

/-- The first delivery stores the chain if it was not there. -/
theorem deliver_of_stands {deliveries : List Delivery} (hne : deliveries ≠ [])
    (hstands : session.ratchet.Stands prims.ratchetConfig around ratchetKey start window)
    (hhonest : ∀ delivery ∈ deliveries, delivery.IsHonest prims ratchetKey start)
    (hcounter : ∀ delivery ∈ deliveries, delivery.counter + 1 < 2 ^ 32)
    (hfits : session.FitsAll prims ratchetKey deliveries) :
    ∃ session', session.deliver prims deliveries = .ok session' ∧
      session'.ratchet.Shows prims.ratchetConfig around ratchetKey start
        ((deliveries.map Delivery.counter).foldl
          (moveWindow prims.ratchetConfig ratchetKey start) window) := by
  cases deliveries with
  | nil => exact absurd rfl hne
  | cons delivery rest =>
    obtain ⟨session', result, hdecrypt, hmoved⟩ := (hhonest _ List.mem_cons_self).decrypt
      hstands (hcounter _ List.mem_cons_self) hfits.1
    rw [deliver_cons hdecrypt]
    exact deliver_of_shows hmoved (fun d hd => hhonest d (List.mem_cons_of_mem _ hd))
      (fun d hd => hcounter d (List.mem_cons_of_mem _ hd)) (hfits.2 session' result hdecrypt)

/-- **Messages of one chain may come in any order**: where there is room for
them in both, and the chain does not wrap around, the ratchet is the same in
the end, down to its error if none was left in it. -/
theorem deliver_perm {first second : List Delivery}
    (hchain : session.ratchet.HasChain prims.ratchetConfig ratchetKey start)
    (hhonest : ∀ delivery ∈ first, delivery.IsHonest prims ratchetKey start)
    (hcounter : ∀ delivery ∈ first, delivery.counter + 1 < 2 ^ 32) (hperm : first.Perm second)
    (hfirst : session.FitsAll prims ratchetKey first)
    (hsecond : session.FitsAll prims ratchetKey second) :
    ∃ session₁ session₂, session.deliver prims first = .ok session₁ ∧
      session.deliver prims second = .ok session₂ ∧
      session₁.ratchet = { session₂.ratchet with lastError := session₁.ratchet.lastError } ∧
      (session.ratchet.lastError = .SUCCESS → session₁.ratchet = session₂.ratchet) := by
  by_cases hempty : first = []
  · subst hempty
    cases hperm.nil_eq
    exact ⟨session, session, rfl, rfl, rfl, fun _ => rfl⟩
  · have hempty' : second ≠ [] := fun h => hempty (List.perm_nil.mp (h ▸ hperm))
    obtain ⟨around, window, hstands⟩ := hchain.stands
    obtain ⟨session₁, hrun₁, hshows₁⟩ := deliver_of_stands hempty hstands hhonest hcounter hfirst
    obtain ⟨session₂, hrun₂, hshows₂⟩ := deliver_of_stands hempty' hstands
      (fun d hd => hhonest d (hperm.mem_iff.mpr hd)) (fun d hd => hcounter d (hperm.mem_iff.mpr hd))
      hsecond
    rw [foldl_moveWindow_perm _ _ _ _ (hperm.map Delivery.counter)] at hshows₁
    have hsame := hshows₁.eq hshows₂
    refine ⟨session₁, session₂, hrun₁, hrun₂, hsame, fun hnoError => ?_⟩
    rw [hsame, noError_of_deliver hnoError hrun₁, ← noError_of_deliver hnoError hrun₂]

/-! ### In the code, and at the wrap -/

theorem chainKeyAt_numbering (start index : ℕ) :
    chainKeyAt Primitives.numbering.ratchetConfig start index =
      { index := index, key := start + index } := by
  induction index with
  | zero => rfl
  | succ index ih =>
    simp only [chainKeyAt, ChainKey.mk.injEq, true_and] at ih ⊢
    rw [Function.iterate_succ_apply', ih]
    rfl

theorem messageKeyAt_numbering (start index : ℕ) :
    messageKeyAt Primitives.numbering.ratchetConfig start index = start + index := by
  rw [messageKeyAt, chainKeyAt_numbering]
  rfl

/-- A session with one receiver chain, which has a ratchet key of zeros, and
the skipped keys of these messages. -/
def numbered (index key : ℕ) (skipped : List ℕ) : Session ℕ :=
  let chain := { ratchetKey := FixedBytes.zero _, chainKey := { index := index, key := key } }
  { Session.new 0 with
    receivedMessage := true
    ratchet := { Ratchet.new 0 with
      receiverChains := BoundedList.empty.push chain
      skippedMessageKeys := skipped.foldr (fun counter keys => keys.push
        { ratchetKey := FixedBytes.zero _, messageKey := { index := counter, key := counter } })
        .empty } }

/-- The message `counter` of that chain, a block of padding. -/
def numberedDelivery (counter : ℕ) : Delivery where
  messageType := .MESSAGE
  header := []
  body := messageHeader PROTOCOL_VERSION (FixedBytes.zero CURVE25519_KEY_LENGTH).val counter 16 ++
    (List.replicate 16 16 ++ toBigEndian MAC_LENGTH counter)
  counter := counter
  maxPlaintextLength := 16

theorem isHonest_numberedDelivery (counter : ℕ) (hcounter : counter < 2 ^ 32)
    (hrun : Primitives.numbering.cipher.encrypt counter []
      (messageHeader PROTOCOL_VERSION (FixedBytes.zero CURVE25519_KEY_LENGTH).val counter 16 ++
        List.replicate 24 0)
      (messageHeader PROTOCOL_VERSION (FixedBytes.zero CURVE25519_KEY_LENGTH).val counter 16).length
      16 0 ((messageHeader PROTOCOL_VERSION (FixedBytes.zero CURVE25519_KEY_LENGTH).val counter
        16).length + 24) = .ok (some (numberedDelivery counter).body)) :
    (numberedDelivery counter).IsHonest .numbering (FixedBytes.zero _) 0 where
  frames := rfl
  counter_lt := hcounter
  sealed_ := by
    refine ⟨[], ?_, Nat.le_refl _⟩
    rw [messageKeyAt_numbering, Nat.zero_add]
    exact sealed_of_encrypt Primitives.numbering_lawful rfl rfl (by decide) rfl hrun

theorem hasChain_numbered (index : ℕ) (skipped : List ℕ) :
    (numbered index index skipped).ratchet.HasChain Primitives.numbering.ratchetConfig
      (FixedBytes.zero _) 0 where
  stored := by
    rintro chain ⟨⟩
    rw [chainKeyAt_numbering, Nat.zero_add]
  made := nofun
  skipped := by
    intro key hkey _
    rw [messageKeyAt_numbering, Nat.zero_add]
    unfold numbered at hkey
    dsimp only at hkey
    induction skipped with
    | nil => cases hkey
    | cons counter skipped ih =>
      rcases BoundedList.mem_push hkey with rfl | hold
      · rfl
      · exact ih hold

/-- A list whose first message fits and is decrypted, and whose others fit
after that. -/
theorem FitsAll.cons {delivery : Delivery} {rest : List Delivery} (session' : Session K)
    (result : Option Bytes) (hfits : session.ratchet.Fits ratchetKey delivery.counter)
    (hdecrypt : session.decrypt prims delivery.messageType (delivery.header ++ delivery.body)
      delivery.maxPlaintextLength false = .ok (session', result))
    (hrest : session'.FitsAll prims ratchetKey rest) :
    session.FitsAll prims ratchetKey (delivery :: rest) := by
  refine ⟨hfits, ?_⟩
  intro session'' result' hdecrypt'
  obtain ⟨rfl, -⟩ := Prod.mk.inj (Except.ok.inj (hdecrypt.symm.trans hdecrypt'))
  exact hrest

/-- The first two messages of a chain, either first. -/
theorem deliver_perm_numbered : ∃ session₁ session₂,
    (numbered 0 0 []).deliver .numbering [numberedDelivery 0, numberedDelivery 1] =
      .ok session₁ ∧
    (numbered 0 0 []).deliver .numbering [numberedDelivery 1, numberedDelivery 0] =
      .ok session₂ ∧
    session₁.ratchet = { session₂.ratchet with lastError := session₁.ratchet.lastError } ∧
    ((numbered 0 0 []).ratchet.lastError = .SUCCESS → session₁.ratchet = session₂.ratchet) := by
  have hhonest₀ := isHonest_numberedDelivery 0 (by decide) (by decide +kernel)
  have hhonest₁ := isHonest_numberedDelivery 1 (by decide) (by decide +kernel)
  have hinOrder : (numbered 0 0 []).FitsAll .numbering (FixedBytes.zero _)
      [numberedDelivery 0, numberedDelivery 1] :=
    .cons (numbered 1 1 []) (some []) ⟨by decide, by decide⟩
      (by decide +kernel) <|
    .cons (numbered 2 2 []) (some []) ⟨by decide, by decide⟩
      (by decide +kernel) trivial
  have hswapped : (numbered 0 0 []).FitsAll .numbering (FixedBytes.zero _)
      [numberedDelivery 1, numberedDelivery 0] :=
    .cons (numbered 2 2 [0]) (some []) ⟨by decide, by decide⟩
      (by decide +kernel) <|
    .cons (numbered 2 2 []) (some []) ⟨by decide, by decide⟩
      (by decide +kernel) trivial
  refine deliver_perm (hasChain_numbered 0 []) ?_ ?_ (List.Perm.swap ..) hinOrder hswapped
  · intro delivery hdelivery
    rcases List.mem_pair.mp hdelivery with rfl | rfl
    · exact hhonest₀
    · exact hhonest₁
  · intro delivery hdelivery
    rcases List.mem_pair.mp hdelivery with rfl | rfl
    · exact (show 0 + 1 < 2 ^ 32 by decide)
    · exact (show 1 + 1 < 2 ^ 32 by decide)

/-- **Not at the wrap.** A chain at its last index, and a key from its start
that is still stored: the message of that key takes it out when it comes
before the last message, and is refused when it comes after it. -/
theorem not_deliver_perm :
    let session := numbered (2 ^ 32 - 1) (2 ^ 32 - 1) [0]
    let first := [numberedDelivery 0, numberedDelivery (2 ^ 32 - 1)]
    let second := [numberedDelivery (2 ^ 32 - 1), numberedDelivery 0]
    Primitives.numbering.cipher.Lawful ∧
    session.ratchet.HasChain Primitives.numbering.ratchetConfig (FixedBytes.zero _) 0 ∧
    (∀ delivery ∈ first, delivery.IsHonest .numbering (FixedBytes.zero _) 0) ∧
    first.Perm second ∧
    session.FitsAll .numbering (FixedBytes.zero _) first ∧
    session.FitsAll .numbering (FixedBytes.zero _) second ∧
    ∃ session₁ session₂, session.deliver .numbering first = .ok session₁ ∧
      session.deliver .numbering second = .ok session₂ ∧
      session₁.ratchet.receiverChains = session₂.ratchet.receiverChains ∧
      session₁.ratchet.skippedMessageKeys.toList = [] ∧
      session₂.ratchet.skippedMessageKeys.toList ≠ [] := by
  have hlast := isHonest_numberedDelivery (2 ^ 32 - 1) (by decide) (by decide +kernel)
  have hhonest₀ := isHonest_numberedDelivery 0 (by decide) (by decide +kernel)
  -- the earlier one first
  have hkey : (numbered (2 ^ 32 - 1) (2 ^ 32 - 1) [0]).decrypt .numbering .MESSAGE
      (numberedDelivery 0).body 16 false =
        .ok (numbered (2 ^ 32 - 1) (2 ^ 32 - 1) [], some []) := by decide +kernel
  have hwrap : (numbered (2 ^ 32 - 1) (2 ^ 32 - 1) []).decrypt .numbering .MESSAGE
      (numberedDelivery (2 ^ 32 - 1)).body 16 false = .ok (numbered 0 (2 ^ 32) [], some []) := by
    decide +kernel
  -- the last one first
  have hwrap' : (numbered (2 ^ 32 - 1) (2 ^ 32 - 1) [0]).decrypt .numbering .MESSAGE
      (numberedDelivery (2 ^ 32 - 1)).body 16 false = .ok (numbered 0 (2 ^ 32) [0], some []) := by
    decide +kernel
  have hrefused : (numbered 0 (2 ^ 32) [0]).decrypt .numbering .MESSAGE
      (numberedDelivery 0).body 16 false =
        .ok ({ numbered 0 (2 ^ 32) [0] with lastError := .BAD_MESSAGE_MAC }, none) := by
    decide +kernel
  refine ⟨Primitives.numbering_lawful, hasChain_numbered _ _, ?_, List.Perm.swap .., ?_, ?_,
    numbered 0 (2 ^ 32) [], { numbered 0 (2 ^ 32) [0] with lastError := .BAD_MESSAGE_MAC },
    ?_, ?_, by decide, by decide, by decide⟩
  · intro delivery hdelivery
    rcases List.mem_pair.mp hdelivery with rfl | rfl
    · exact hhonest₀
    · exact hlast
  · exact .cons _ _ ⟨by decide, by decide⟩ hkey (.cons _ _ ⟨by decide, by decide⟩ hwrap trivial)
  · exact .cons _ _ ⟨by decide, by decide⟩ hwrap' (.cons _ _ ⟨by decide, by decide⟩ hrefused trivial)
  · exact (deliver_cons hkey).trans (deliver_cons hwrap)
  · exact (deliver_cons hwrap').trans (deliver_cons hrefused)

end Session

end Olm
