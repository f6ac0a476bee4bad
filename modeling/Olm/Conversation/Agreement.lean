import Olm.Conversation.Ratchets

/-!
# The two ends agree

The invariant of the whole system. The ratchet keys made so far are one
epoch; the end that made the newest key has got to it, the other end has or
is one key behind; and every message under way is sealed under a message
key of some epoch inside. `System.Agrees` holds at the start and is kept by
every event, so it holds throughout a run.
-/

namespace Olm

variable {K : Type} (config : RatchetConfig K) (first : K × K)

/-- The message is of the epoch's chain. -/
structure Sent.Follows (message : Sent) (epoch : Epoch) : Prop where
  owner : epoch.owner = message.sender
  ratchetKey : ∃ key rest, epoch = key :: rest ∧ message.ratchetKey = key.publicKey
  secrets : message.secrets = epoch.secrets config
  counter : message.counter + 1 < 2 ^ 32
  sealed_ : Sealed config (epoch.messageKey config first message.counter) message.ratchetKey
    message.counter message.plaintext message.bytes

namespace System

/-- **How the two ends of a system stand.** -/
structure Agrees (s : System K) (epoch : Epoch) (view : Party → Epoch) : Prop where
  ratchetKeys : epoch.map (·.publicKey) = s.ratchetKeys
  nodup : (epoch.map (·.publicKey)).Nodup
  generated : ∀ key ∈ epoch, config.curve.Generated key
  view_owner : view epoch.owner = epoch
  view_peer : view epoch.owner.peer = epoch ∨ ∃ key, epoch = key :: view epoch.owner.peer
  ratchet : ∀ party, (s.ratchet party).Agrees config first party (view party)
  secrets : ∀ party, s.secrets party = (view party).secrets config
  sent : ∀ message ∈ s.sent, ∃ older : Epoch, older <:+ epoch ∧ message.Follows config first older

variable {config first} {s s' : System K} {epoch : Epoch} {view : Party → Epoch}

/-! ## What follows from it -/

section Views

variable (h : s.Agrees config first epoch view)

include h

theorem Agrees.view_eq (party : Party) :
    view party = epoch ∨ ∃ key, epoch = key :: view party := by
  by_cases hparty : party = epoch.owner
  · rw [hparty]
    exact .inl h.view_owner
  · rw [Party.eq_peer_of_ne hparty]
    exact h.view_peer

theorem Agrees.view_suffix (party : Party) : view party <:+ epoch := by
  rcases h.view_eq party with heq | ⟨key, heq⟩
  · exact heq ▸ List.suffix_rfl
  · rw [heq]
    exact List.suffix_cons key _

/-- An end that has no newer key of its own has got to the epoch. -/
theorem Agrees.view_eq_of_owner_ne {party : Party} (howner : (view party).owner ≠ party) :
    view party = epoch := by
  rcases h.view_eq party with heq | ⟨key, heq⟩
  · exact heq
  · by_contra hne
    have hparty : party ≠ epoch.owner := by
      rintro rfl
      exact hne h.view_owner
    rw [heq, Epoch.owner_cons] at hparty
    exact hparty (Party.eq_peer_of_ne howner.symm)

end Views

/-! ## Events -/

/-- What an event does to one end, in the records of both: the end gets to
`viewOf`, and the other one stays where it is. -/
theorem Agrees.update (h : s.Agrees config first epoch view) {party : Party} {viewOf : Epoch}
    {ratchet : Ratchet K} {secrets : List Curve25519SharedSecret}
    (hratchet : ratchet.Agrees config first party viewOf)
    (hsecrets : secrets = viewOf.secrets config) :
    (∀ other, (Function.update s.ratchet party ratchet other).Agrees config first other
      (Function.update view party viewOf other)) ∧
    ∀ other, Function.update s.secrets party secrets other =
      (Function.update view party viewOf other).secrets config := by
  refine ⟨fun other => ?_, fun other => ?_⟩ <;> by_cases hother : other = party
  · subst hother
    rw [Function.update_self, Function.update_self]
    exact hratchet
  · rw [Function.update_of_ne hother, Function.update_of_ne hother]
    exact h.ratchet other
  · subst hother
    rw [Function.update_self, Function.update_self]
    exact hsecrets
  · rw [Function.update_of_ne hother, Function.update_of_ne hother]
    exact h.secrets other

/-- One end has moved, but not to another epoch. -/
theorem Agrees.withRatchet (h : s.Agrees config first epoch view) {party : Party}
    {ratchet : Ratchet K} (hratchet : ratchet.Agrees config first party (view party)) :
    ({ s with ratchet := Function.update s.ratchet party ratchet } : System K).Agrees config first
      epoch view := by
  have hupdate := (h.update hratchet (h.secrets party)).1
  rw [Function.update_eq_self] at hupdate
  exact { h with ratchet := hupdate }

/-- A message more is under way. -/
theorem Agrees.send (h : s.Agrees config first epoch view) {message : Sent} {older : Epoch}
    (hsuffix : older <:+ epoch) (hmessage : message.Follows config first older) :
    ({ s with toRecord := { s.toRecord with sent := message :: s.sent } } : System K).Agrees config
      first epoch view := by
  refine { h with sent := ?_ }
  intro other hother
  rcases List.mem_cons.mp hother with rfl | hother
  · exact ⟨older, hsuffix, hmessage⟩
  · exact h.sent other hother

/-- **A new ratchet key**, of the end that has got to the epoch and does not
own it. -/
theorem Agrees.newKey (h : s.Agrees config first epoch view) {party : Party}
    (howner : epoch.owner ≠ party) {key : Curve25519KeyPair} {ratchet : Ratchet K}
    {secrets : List Curve25519SharedSecret}
    (hratchet : ratchet.Agrees config first party (key :: epoch))
    (hsecrets : secrets = Epoch.secrets config (key :: epoch))
    (hgenerated : config.curve.Generated key) (hfresh : key.publicKey ∉ s.ratchetKeys) :
    ({ ratchet := Function.update s.ratchet party ratchet
       toRecord := { s.toRecord with
        secrets := Function.update s.secrets party secrets
        ratchetKeys := key.publicKey :: s.ratchetKeys } } : System K).Agrees config first
      (key :: epoch) (Function.update view party (key :: epoch)) := by
  obtain ⟨hupdate, hupdate'⟩ := h.update hratchet hsecrets
  have hpeer : epoch.owner = party.peer := Party.eq_peer_of_ne howner
  have howner' : Epoch.owner (key :: epoch) = party := by
    rw [Epoch.owner_cons, hpeer, Party.peer_peer]
  exact {
    ratchetKeys := by rw [List.map_cons, h.ratchetKeys]
    nodup := by
      rw [List.map_cons, List.nodup_cons, h.ratchetKeys]
      exact ⟨hfresh, h.ratchetKeys ▸ h.nodup⟩
    generated := by
      intro other hmem
      rcases List.mem_cons.mp hmem with rfl | hmem
      · exact hgenerated
      · exact h.generated other hmem
    view_owner := by rw [howner', Function.update_self]
    view_peer := by
      refine .inr ⟨key, ?_⟩
      rw [howner', Function.update_of_ne party.peer_ne, ← hpeer, h.view_owner]
    ratchet := hupdate
    secrets := hupdate'
    sent := by
      intro message hmem
      obtain ⟨older, hsuffix, hfollows⟩ := h.sent message hmem
      exact ⟨older, hsuffix.trans (List.suffix_cons key epoch), hfollows⟩ }

/-- **An encryption keeps the agreement**: a message of the epoch that the
sender has got to, or has made. -/
theorem Agrees.encrypt (h : s.Agrees config first epoch view)
    (hlawful : config.ratchetCipher.Lawful) {party : Party} {plaintext random buf : Bytes}
    {output maxOutputLength : ℕ}
    (hhonest : s.Honest config (.encrypt party plaintext random buf output maxOutputLength))
    (hrun : s.encrypt config party plaintext random buf output maxOutputLength = .ok s') :
    ∃ (epoch' : Epoch) (view' : Party → Epoch), s'.Agrees config first epoch' view' ∧
      ∀ other, view other <:+ view' other := by
  obtain ⟨hroom, hbuf, hchain⟩ := hhonest
  obtain ⟨⟨ratchet, result⟩, hencrypt, hrun⟩ := Checked.bind_eq_ok.mp hrun
  cases result with
  | none =>
    -- refused: the ratchet keeps all but its error
    obtain ⟨code, -, rfl⟩ := Ratchet.eq_of_encrypt_none hencrypt
    obtain rfl := Except.ok.inj hrun
    exact ⟨epoch, view, h.withRatchet ((h.ratchet party).withError code), fun _ => List.suffix_rfl⟩
  | some written =>
    obtain ⟨buf', length⟩ := written
    obtain ⟨started, senderChain, bytes, hstart, hratchet, -, -, hcut, hsealed⟩ :=
      Ratchet.encrypt_eq_some hlawful hroom hbuf hencrypt
    simp only [Record.encrypted, hstart, Checked.ok_bind] at hrun
    obtain rfl := Except.ok.inj hrun
    obtain ⟨hindex, hfresh⟩ := hchain started senderChain hstart
    obtain ⟨view', hstarted, howner, hchains, hfollows, hsecrets, hcase⟩ :=
      (h.ratchet party).startSenderChain hstart
    obtain ⟨key, rest, index, hview', -, rfl⟩ := hfollows
    dsimp only [Epoch.chainKey_index] at hstart hratchet hsealed hindex hfresh hsecrets hcase ⊢
    -- the chain moves on by one, and the message carries its old index
    have hmoved : ratchet.Agrees config first party view' := by
      rw [hratchet]
      refine hstarted.setSenderChain howner hchains ⟨key, rest, index + 1, hview', hindex, ?_⟩
      rw [Epoch.chainKey, Epoch.chainKey, advanceChainKey_chainKeyAt config _ hindex]
    have hmessage : Sent.Follows config first
        { sender := party, ratchetKey := key.publicKey, counter := index
          secrets := view'.secrets config, plaintext := plaintext, bytes := bytes } view' :=
      ⟨howner, ⟨key, rest, hview', rfl⟩, rfl, hindex, hsealed⟩
    rw [h.secrets party, hsecrets, hcut]
    rcases hcase with ⟨hsome, hsame⟩ | ⟨hnone, hother, hnew, hgenerated⟩
    · -- the chain there was
      rw [hsame] at hmoved hmessage ⊢
      have hempty : (s.ratchet party).senderChain.toList.isEmpty = false := by
        rw [List.isEmpty_eq_false_iff]
        exact hsome
      refine ⟨epoch, view, ?_, fun _ => List.suffix_rfl⟩
      simp only [hempty, Bool.false_eq_true, if_false, ← h.secrets party, Function.update_eq_self]
      exact (h.withRatchet hmoved).send (h.view_suffix party) (by rw [h.secrets party]; exact hmessage)
    · -- a new chain, on top of the epoch
      have hview := h.view_eq_of_owner_ne hother
      rw [hview] at hother hnew
      rw [hnew] at hmoved hmessage ⊢
      refine ⟨key :: epoch, Function.update view party (key :: epoch), ?_, ?_⟩
      · simp only [hnone, List.isEmpty_nil, if_true]
        exact (h.newKey hother hmoved rfl hgenerated (hfresh hnone)).send List.suffix_rfl hmessage
      · intro other
        by_cases hsame : other = party
        · rw [hsame, Function.update_self, hview]
          exact List.suffix_cons key epoch
        · exact Function.update_of_ne hsame _ _ ▸ List.suffix_rfl

end System

end Olm
