import Olm.Ratchet.Spec

/-!
# The epochs of a conversation

Two ratchets take turns at making ratchet keys: Alice's first one is there
at the start, and each key after it is made by the other party, out of the
one before. An epoch is the list of the ratchet keys up to one of them, the
newest first, and so its tails are the epochs before it. Whose key is the
newest follows from their number; the root key and the first chain key of
an epoch follow from the Diffie–Hellman outputs along it.
-/

namespace Olm

/-- The two ends of a conversation. -/
inductive Party where
  | alice
  | bob
  deriving DecidableEq, Repr

/-- The other end. -/
def Party.peer : Party → Party
  | .alice => .bob
  | .bob => .alice

@[simp] theorem Party.peer_peer (party : Party) : party.peer.peer = party := by cases party <;> rfl

@[simp] theorem Party.peer_ne (party : Party) : party.peer ≠ party := by cases party <;> decide

theorem Party.eq_peer_of_ne {a b : Party} (h : a ≠ b) : a = b.peer := by
  cases a <;> cases b <;> first | rfl | exact absurd rfl h

/-- The ratchet keys up to one of them, the newest first. -/
abbrev Epoch := List Curve25519KeyPair

namespace Epoch

/-- Whose the newest key of the epoch is. -/
def owner : Epoch → Party
  | [] => .bob
  | _ :: rest => (owner rest).peer

@[simp] theorem owner_cons (key : Curve25519KeyPair) (epoch : Epoch) :
    owner (key :: epoch) = (owner epoch).peer := rfl

/-! ## Keys -/

section Keys

variable {K : Type} (config : RatchetConfig K) (first : K × K)

/-- The root key of the epoch and the first key of its chain, where `first`
is what the shared secret gave. -/
def keys : Epoch → K × K
  | [] => first
  | [_] => first
  | key :: previous :: rest =>
    let made := createChainKey config (keys (previous :: rest)).1 key previous.publicKey
    (made.1, made.2.key)

/-- The Diffie–Hellman outputs along the epoch, the newest first. -/
def secrets : Epoch → List Curve25519SharedSecret
  | [] => []
  | [_] => []
  | key :: previous :: rest =>
    config.curve.sharedSecret key previous.publicKey :: secrets (previous :: rest)

theorem secrets_length (epoch : Epoch) : (secrets config epoch).length = epoch.length - 1 := by
  induction epoch with
  | nil => rfl
  | cons key rest ih =>
    cases rest with
    | nil => rfl
    | cons previous rest =>
      rw [secrets, List.length_cons, ih, List.length_cons, List.length_cons, List.length_cons]
      rfl

/-- An epoch has the outputs of those inside it. -/
theorem secrets_suffix {older epoch : Epoch} (h : older <:+ epoch) :
    secrets config older <:+ secrets config epoch := by
  induction epoch with
  | nil =>
    obtain rfl := List.suffix_nil.mp h
    exact List.suffix_rfl
  | cons key rest ih =>
    rcases List.suffix_cons_iff.mp h with rfl | hin
    · exact List.suffix_rfl
    · cases rest with
      | nil =>
        obtain rfl := List.suffix_nil.mp hin
        exact List.suffix_rfl
      | cons previous rest => exact (ih hin).trans (List.suffix_cons _ _)

/-- The message key at `index` of the epoch's chain. -/
def messageKey (epoch : Epoch) (index : ℕ) : K := messageKeyAt config (keys config first epoch).2 index

/-- The chain key at `index` of the epoch's chain. -/
def chainKey (epoch : Epoch) (index : ℕ) : ChainKey K :=
  chainKeyAt config (keys config first epoch).2 index

@[simp] theorem chainKey_index (epoch : Epoch) (index : ℕ) :
    (chainKey config first epoch index).index = index := rfl

variable {config first}

/-- Who makes the new key. -/
theorem createChainKey_eq {key previous : Curve25519KeyPair} {rest : Epoch} :
    createChainKey config (keys config first (previous :: rest)).1 key previous.publicKey =
      ((keys config first (key :: previous :: rest)).1,
        chainKey config first (key :: previous :: rest) 0) := rfl

/-- Who receives it derives the same. -/
theorem createChainKey_comm (hcommutes : config.curve.Commutes)
    {key previous : Curve25519KeyPair} {rest : Epoch} (hkey : config.curve.Generated key)
    (hprevious : config.curve.Generated previous) :
    createChainKey config (keys config first (previous :: rest)).1 previous key.publicKey =
      ((keys config first (key :: previous :: rest)).1,
        chainKey config first (key :: previous :: rest) 0) := by
  rw [← createChainKey_eq]
  simp only [createChainKey, hcommutes.sharedSecret_comm hprevious hkey]

end Keys

/-! ## The epochs inside an epoch -/

section Suffix

variable {epoch older older' : Epoch}

/-- A public key is of one epoch. -/
theorem eq_of_suffix_of_publicKey {key key' : Curve25519KeyPair}
    (hnodup : (epoch.map (·.publicKey)).Nodup) (h : key :: older <:+ epoch)
    (h' : key' :: older' <:+ epoch) (hkey : key.publicKey = key'.publicKey) :
    key :: older = key' :: older' := by
  induction epoch with
  | nil => exact absurd (List.suffix_nil.mp h) (List.cons_ne_nil _ _)
  | cons newest rest ih =>
    rw [List.map_cons, List.nodup_cons] at hnodup
    -- the key of an older epoch is not the newest one
    have hnot : ∀ {key : Curve25519KeyPair} {older : Epoch}, key :: older <:+ rest →
        key.publicKey ≠ newest.publicKey := by
      intro key older hsuffix heq
      refine hnodup.1 (heq ▸ List.mem_map_of_mem (hsuffix.subset List.mem_cons_self))
    rcases List.suffix_cons_iff.mp h with heq | hin <;>
      rcases List.suffix_cons_iff.mp h' with heq' | hin'
    · rw [heq, heq']
    · rw [(List.cons.inj heq).1] at hkey
      exact absurd hkey.symm (hnot hin')
    · rw [(List.cons.inj heq').1] at hkey
      exact absurd hkey (hnot hin)
    · exact ih hnodup.2 hin hin'

/-- The epochs inside an epoch that are the peer's, the newest first. -/
def theirs (party : Party) : Epoch → List Epoch
  | [] => []
  | key :: rest =>
    if owner (key :: rest) = party then theirs party rest
    else (key :: rest) :: theirs party rest

theorem mem_theirs {party : Party} :
    older ∈ theirs party epoch ↔ older <:+ epoch ∧ older ≠ [] ∧ owner older = party.peer := by
  induction epoch with
  | nil =>
    simp only [theirs, List.not_mem_nil, List.suffix_nil, false_iff, not_and]
    intro h hne
    exact absurd h hne
  | cons key rest ih =>
    rw [theirs, List.suffix_cons_iff]
    split
    · rename_i howner
      rw [ih]
      constructor
      · rintro ⟨hsuffix, hne, hpeer⟩
        exact ⟨.inr hsuffix, hne, hpeer⟩
      · rintro ⟨rfl | hsuffix, hne, hpeer⟩
        · rw [howner] at hpeer
          exact absurd hpeer.symm party.peer_ne
        · exact ⟨hsuffix, hne, hpeer⟩
    · rename_i howner
      rw [List.mem_cons, ih]
      constructor
      · rintro (rfl | ⟨hsuffix, hne, hpeer⟩)
        · exact ⟨.inl rfl, List.cons_ne_nil _ _, Party.eq_peer_of_ne howner⟩
        · exact ⟨.inr hsuffix, hne, hpeer⟩
      · rintro ⟨rfl | hsuffix, hne, hpeer⟩
        · exact .inl rfl
        · exact .inr ⟨hsuffix, hne, hpeer⟩

theorem theirs_of_owner {party : Party} {key : Curve25519KeyPair}
    (h : owner (key :: epoch) = party) : theirs party (key :: epoch) = theirs party epoch := by
  rw [theirs, if_pos h]

theorem theirs_of_owner_ne {party : Party} {key : Curve25519KeyPair}
    (h : owner (key :: epoch) ≠ party) :
    theirs party (key :: epoch) = (key :: epoch) :: theirs party epoch := by
  rw [theirs, if_neg h]

/-- The first of the peer's epochs has the others inside. -/
theorem suffix_of_theirs_eq_cons {party : Party} {newest : Epoch} {rest : List Epoch}
    (h : theirs party epoch = newest :: rest) (hmem : older ∈ theirs party epoch) :
    older <:+ newest := by
  induction epoch with
  | nil => cases hmem
  | cons key epoch ih =>
    by_cases howner : owner (key :: epoch) = party
    · rw [theirs_of_owner howner] at h hmem
      exact ih h hmem
    · obtain ⟨hsuffix, -, -⟩ := mem_theirs.mp hmem
      rw [theirs_of_owner_ne howner] at h
      obtain ⟨rfl, -⟩ := List.cons.inj h
      exact hsuffix

end Suffix

end Epoch

end Olm
