import Olm.Common.Lists
import Olm.Conversation.System

/-!
# A ratchet and the epoch it has got to

`Ratchet.Agrees` is the invariant of one end: the epoch it has got to gives
its root key, its sender chain if the newest key is its own, its receiver
chains if they are the peer's last ones, and its skipped keys. There is one
lemma for each thing a ratchet does: a sender chain is started or moved on,
a receiver chain is started or moved on, a skipped key is used up.
-/

namespace Olm

variable {K : Type} (config : RatchetConfig K) (first : K × K)

/-- The receiver chain is that of the epoch. -/
def ReceiverChain.Follows (chain : ReceiverChain K) (epoch : Epoch) : Prop :=
  ∃ key rest index, epoch = key :: rest ∧ index < 2 ^ 32 ∧
    chain = { ratchetKey := key.publicKey, chainKey := epoch.chainKey config first index }

/-- The skipped key is of the epoch's chain. -/
def SkippedMessageKey.Follows (skipped : SkippedMessageKey K) (epoch : Epoch) : Prop :=
  ∃ key rest index, epoch = key :: rest ∧
    skipped = { ratchetKey := key.publicKey
                messageKey := { index := index, key := epoch.messageKey config first index } }

/-- The sender chain is that of the epoch. -/
def SenderChain.Follows (chain : SenderChain K) (epoch : Epoch) : Prop :=
  ∃ key rest index, epoch = key :: rest ∧ index < 2 ^ 32 ∧
    chain = { ratchetKey := key, chainKey := epoch.chainKey config first index }

namespace Ratchet

/-- **What a ratchet holds** when its end has got to the epoch `view`. -/
structure Agrees (party : Party) (ratchet : Ratchet K) (view : Epoch) : Prop where
  nonempty : view ≠ []
  root : ratchet.rootKey = (view.keys config first).1
  sender : view.owner = party →
    ∃ chain, ratchet.senderChain.toList = [chain] ∧ chain.Follows config first view
  noSender : view.owner ≠ party → ratchet.senderChain.toList = []
  receivers : List.Forall₂ (ReceiverChain.Follows config first) ratchet.receiverChains.toList
    ((view.theirs party).take MAX_RECEIVER_CHAINS)
  distinct : (ratchet.receiverChains.toList.map (·.ratchetKey)).Nodup
  skipped : ∀ key ∈ ratchet.skippedMessageKeys.toList,
    ∃ epoch ∈ view.theirs party, key.Follows config first epoch
  behind : ∀ key ∈ ratchet.skippedMessageKeys.toList, ∀ chain ∈ ratchet.receiverChains.toList,
    chain.ratchetKey = key.ratchetKey → key.messageKey.index < chain.chainKey.index

variable {config first} {party : Party} {ratchet started : Ratchet K} {view : Epoch}

/-- An error changes nothing about it. -/
theorem Agrees.withError (h : ratchet.Agrees config first party view) (code : OlmErrorCode) :
    ({ ratchet with lastError := code } : Ratchet K).Agrees config first party view :=
  ⟨h.nonempty, h.root, h.sender, h.noSender, h.receivers, h.distinct, h.skipped, h.behind⟩

/-- The epoch of a stored chain is the peer's, and inside the view. -/
theorem Agrees.mem_receivers (h : ratchet.Agrees config first party view)
    {chain : ReceiverChain K} (hchain : chain ∈ ratchet.receiverChains.toList) :
    ∃ epoch ∈ view.theirs party, chain.Follows config first epoch := by
  obtain ⟨i, hi⟩ := List.getElem?_of_mem hchain
  obtain ⟨epoch, hepoch, hfollows⟩ := h.receivers.exists_getElem? hi
  exact ⟨epoch, List.mem_of_mem_take (List.mem_of_getElem? hepoch), hfollows⟩

/-! ## Sending -/

/-- **Starting a sender chain**: the one there is, or a new one, with a new
ratchet key on top of the epoch. -/
theorem Agrees.startSenderChain (h : ratchet.Agrees config first party view) {random : Bytes}
    {senderChain : SenderChain K}
    (hstart : ratchet.startSenderChain config random = .ok (started, senderChain)) :
    ∃ view' : Epoch, started.Agrees config first party view' ∧ view'.owner = party ∧
      started.senderChain.toList = [senderChain] ∧ senderChain.Follows config first view' ∧
      ratchet.sendingSecrets config senderChain.ratchetKey ++ view.secrets config =
        view'.secrets config ∧
      ((ratchet.senderChain.toList ≠ [] ∧ view' = view) ∨
        (ratchet.senderChain.toList = [] ∧ view.owner ≠ party ∧
          view' = senderChain.ratchetKey :: view ∧
          config.curve.Generated senderChain.ratchetKey)) := by
  by_cases howner : view.owner = party
  · -- the party owns the epoch: it has a sender chain
    obtain ⟨chain, hchain, hfollows⟩ := h.sender howner
    simp only [Ratchet.startSenderChain, hchain, Except.ok.injEq, Prod.mk.injEq] at hstart
    obtain ⟨rfl, rfl⟩ := hstart
    refine ⟨view, h, howner, hchain, hfollows, ?_, .inl ⟨?_, rfl⟩⟩
    · simp only [sendingSecrets, hchain, List.nil_append]
    · rw [hchain]
      exact List.cons_ne_nil _ _
  · -- the newest key is the peer's, and its chain is the first one stored
    have hsender := h.noSender howner
    obtain ⟨previous, rest, rfl⟩ := List.exists_cons_of_ne_nil h.nonempty
    have hreceivers := h.receivers
    rw [Epoch.theirs_of_owner_ne howner, List.take_succ_cons] at hreceivers
    obtain ⟨receiverChain, others, hfirst, hothers, hchains⟩ := List.forall₂_cons_right_iff.mp
      hreceivers
    obtain ⟨key, rest', index, hcons, -, rfl⟩ := hfirst
    obtain ⟨rfl, rfl⟩ := List.cons.inj hcons
    simp only [Ratchet.startSenderChain, hsender, hchains] at hstart
    obtain ⟨random', -, hstart⟩ := Checked.bind_eq_ok.mp hstart
    rw [h.root, Epoch.createChainKey_eq] at hstart
    simp only [Except.ok.injEq, Prod.mk.injEq] at hstart
    obtain ⟨rfl, rfl⟩ := hstart
    have howner' : Epoch.owner (config.curve.generateKey random' :: previous :: rest) = party := by
      rw [Epoch.owner_cons, Party.eq_peer_of_ne howner, Party.peer_peer]
    refine ⟨config.curve.generateKey random' :: previous :: rest, ?_, howner', ?_, ?_, ?_,
      .inr ⟨hsender, howner, rfl, config.curve.generated_generateKey random'⟩⟩
    · exact {
        nonempty := List.cons_ne_nil _ _
        root := rfl
        sender := fun _ => ⟨_, by simp [hsender], _, _, 0, rfl, by decide, rfl⟩
        noSender := fun hne => absurd howner' hne
        receivers := by rw [Epoch.theirs_of_owner howner']; exact h.receivers
        distinct := h.distinct
        skipped := by rw [Epoch.theirs_of_owner howner']; exact h.skipped
        behind := h.behind }
    · simp [hsender]
    · exact ⟨_, _, 0, rfl, by decide, rfl⟩
    · simp only [sendingSecrets, hsender, hchains, List.singleton_append, Epoch.secrets]

/-- The sender chain is moved along its epoch. -/
theorem Agrees.setSenderChain (h : ratchet.Agrees config first party view)
    (howner : view.owner = party) {old new : SenderChain K}
    (hold : ratchet.senderChain.toList = [old]) (hnew : new.Follows config first view) :
    ({ ratchet with senderChain := ratchet.senderChain.set 0 new } : Ratchet K).Agrees
      config first party view where
  nonempty := h.nonempty
  root := h.root
  sender _ := ⟨new, by simp [hold], hnew⟩
  noSender hne := absurd howner hne
  receivers := h.receivers
  distinct := h.distinct
  skipped := h.skipped
  behind := h.behind

/-! ## Receiving -/

/-- A skipped key is used up. -/
theorem Agrees.eraseSkipped (h : ratchet.Agrees config first party view) (place : ℕ) :
    ({ ratchet with
      skippedMessageKeys := ratchet.skippedMessageKeys.eraseIdx place } : Ratchet K).Agrees
      config first party view where
  nonempty := h.nonempty
  root := h.root
  sender := h.sender
  noSender := h.noSender
  receivers := h.receivers
  distinct := h.distinct
  skipped key hkey := h.skipped key (List.mem_of_mem_eraseIdx hkey)
  behind key hkey := h.behind key (List.mem_of_mem_eraseIdx hkey)

/-- **A receiver chain moves past a message**, and leaves the keys of those
it jumped over. -/
theorem Agrees.advanceReceiverChain (h : ratchet.Agrees config first party view) {place : ℕ}
    {chain : ReceiverChain K} {counter : ℕ}
    (hplace : ratchet.receiverChains.toList[place]? = some chain)
    (hle : chain.chainKey.index ≤ counter) (hcounter : counter + 1 < 2 ^ 32) :
    (ratchet.advanceReceiverChain config place chain counter).Agrees config first party view := by
  obtain ⟨epoch, hepoch, hfollows⟩ := h.receivers.exists_getElem? hplace
  have htheirs : epoch ∈ view.theirs party := List.mem_of_mem_take (List.mem_of_getElem? hepoch)
  obtain ⟨key, rest, index, rfl, hindex, rfl⟩ := hfollows
  rw [Epoch.chainKey_index] at hle
  obtain ⟨skipped', hadvance, hskipped'⟩ := advanceReceiverChain_chainKeyAt config ratchet place
    key.publicKey (Epoch.keys config first (key :: rest)).2 hle hcounter
  obtain ⟨moved, hmoved, hfollows, hname, hahead⟩ : ∃ moved : ReceiverChain K,
      moved = { ratchetKey := key.publicKey
                chainKey := chainKeyAt config (Epoch.keys config first (key :: rest)).2
                  (counter + 1) } ∧
      moved.Follows config first (key :: rest) ∧ moved.ratchetKey = key.publicKey ∧
      moved.chainKey.index = counter + 1 :=
    ⟨_, rfl, ⟨key, rest, counter + 1, rfl, hcounter, rfl⟩, rfl, rfl⟩
  simp only [Epoch.chainKey, hadvance, ← hmoved]
  refine {
    nonempty := h.nonempty
    root := h.root
    sender := h.sender
    noSender := h.noSender
    receivers := h.receivers.set hepoch hfollows
    distinct := ?_
    skipped := ?_
    behind := ?_ }
  · rw [BoundedList.toList_set, List.map_set_of_eq hplace hname]
    exact h.distinct
  · intro skipped hmem
    rw [hskipped'] at hmem
    rcases List.mem_append.mp (List.mem_of_mem_take hmem) with hmem | hmem
    · -- a key that was jumped over just now
      obtain ⟨i, -, -, rfl⟩ := (mem_skippedKeysOf config).mp hmem
      exact ⟨key :: rest, htheirs, key, rest, i, rfl, rfl⟩
    · exact h.skipped skipped hmem
  · intro skipped hmem other hother hkey
    rw [hskipped'] at hmem
    rw [BoundedList.toList_set] at hother
    by_cases hsame : other.ratchetKey = key.publicKey
    · -- then it is the chain that moved
      obtain rfl := List.eq_of_mem_set h.distinct hplace hname hother hsame
      rw [hahead]
      rcases List.mem_append.mp (List.mem_of_mem_take hmem) with hmem | hmem
      · obtain ⟨i, -, hi, rfl⟩ := (mem_skippedKeysOf config).mp hmem
        exact Nat.lt_succ_of_lt hi
      · have hlt := h.behind skipped hmem _ (List.mem_of_getElem? hplace) (hsame.symm.trans hkey)
        exact Nat.lt_succ_of_lt (lt_of_lt_of_le hlt hle)
    · rcases List.mem_or_eq_of_mem_set hother with hother | rfl
      · rcases List.mem_append.mp (List.mem_of_mem_take hmem) with hmem | hmem
        · obtain ⟨i, -, -, rfl⟩ := (mem_skippedKeysOf config).mp hmem
          exact absurd hkey hsame
        · exact h.behind skipped hmem other hother hkey
      · exact absurd hname hsame

/-- **A receiver chain is started**, with the next ratchet key of the peer. -/
theorem Agrees.startReceiverChain (h : ratchet.Agrees config first party view)
    (hcommutes : config.curve.Commutes) (howner : view.owner = party)
    {senderChain : SenderChain K} {rest : List (SenderChain K)}
    (hsender : ratchet.senderChain.toList = senderChain :: rest) {key : Curve25519KeyPair}
    (hgenerated : ∀ key' ∈ key :: view, config.curve.Generated key')
    (hnodup : ((key :: view).map (·.publicKey)).Nodup) :
    (ratchet.startReceiverChain config senderChain key.publicKey).1.Agrees config first party
        (key :: view) ∧
      (ratchet.startReceiverChain config senderChain key.publicKey).1.receiverChains.toList[0]? =
        some (ratchet.startReceiverChain config senderChain key.publicKey).2 ∧
      (ratchet.startReceiverChain config senderChain key.publicKey).2.chainKey.index = 0 := by
  obtain ⟨chain, hchain, previous, older, index, rfl, -, rfl⟩ := h.sender howner
  rw [hchain] at hsender
  obtain ⟨rfl, rfl⟩ := List.cons.inj hsender
  have hmade : createChainKey config ratchet.rootKey previous key.publicKey =
      ((Epoch.keys config first (key :: previous :: older)).1,
        Epoch.chainKey config first (key :: previous :: older) 0) := by
    rw [h.root]
    exact Epoch.createChainKey_comm hcommutes (hgenerated key List.mem_cons_self)
      (hgenerated previous (List.mem_cons_of_mem _ List.mem_cons_self))
  have howner' : Epoch.owner (key :: previous :: older) ≠ party := by
    rw [Epoch.owner_cons, howner]
    exact party.peer_ne
  rw [List.map_cons, List.nodup_cons] at hnodup
  -- the sides swap their keys in the derivation, so both make the same chain
  -- the key is not that of an older epoch
  have hnew : ∀ {epoch : Epoch} {key' : Curve25519KeyPair} {rest : Epoch},
      epoch ∈ Epoch.theirs party (previous :: older) → epoch = key' :: rest →
      key'.publicKey ≠ key.publicKey := by
    rintro epoch key' rest hepoch rfl heq
    obtain ⟨hsuffix, -, -⟩ := Epoch.mem_theirs.mp hepoch
    exact hnodup.1 (heq ▸ List.mem_map_of_mem (hsuffix.subset List.mem_cons_self))
  simp only [Ratchet.startReceiverChain, hmade]
  refine ⟨{
    nonempty := List.cons_ne_nil _ _
    root := rfl
    sender := fun heq => absurd heq howner'
    noSender := fun _ => by simp [hchain]
    receivers := ?_
    distinct := ?_
    skipped := ?_
    behind := ?_ }, by simp, rfl⟩
  · rw [Epoch.theirs_of_owner_ne howner', BoundedList.toList_push]
    exact .push ⟨key, _, 0, rfl, by decide, rfl⟩ h.receivers
  · rw [BoundedList.toList_push]
    refine List.Nodup.sublist ((List.take_sublist _ _).map _) ?_
    rw [List.map_cons, List.nodup_cons]
    refine ⟨?_, h.distinct⟩
    intro hmem
    obtain ⟨other, hother, heq⟩ := List.mem_map.mp hmem
    obtain ⟨epoch, hepoch, key', rest, index', hcons, -, rfl⟩ := h.mem_receivers hother
    exact hnew hepoch hcons heq
  · intro skipped hmem
    obtain ⟨epoch, hepoch, hfollows⟩ := h.skipped skipped hmem
    rw [Epoch.theirs_of_owner_ne howner']
    exact ⟨epoch, List.mem_cons_of_mem _ hepoch, hfollows⟩
  · intro skipped hmem other hother hkey
    rcases BoundedList.mem_push hother with rfl | hother
    · obtain ⟨epoch, hepoch, key', rest, index', hcons, rfl⟩ := h.skipped skipped hmem
      exact absurd hkey.symm (hnew hepoch hcons)
    · exact h.behind skipped hmem other hother hkey

end Ratchet

end Olm
