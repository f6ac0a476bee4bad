import Olm.Common.Derivation
import Olm.Conversation.Delivery

/-!
# What the keys of a conversation give away

Every key of a conversation has a name: the Diffie–Hellman outputs that the
root key was mixed with before, and for the keys of a chain the index. With
the name goes a term, the derivations that make the key (`KeyName.term`), and
the key is its value, whatever HMAC and HKDF are (`KeyName.eval_term`).

Terms can be told apart by how they were derived (`Kdf.Free`), which keys of
32 bytes cannot, so what someone can derive who knows some keys and some
Diffie–Hellman outputs is said of terms (`Kdf.Exposed`). A message key is had
in four ways only: it is known itself, or a key of its chain at or before it,
or a root key from which the outputs up to it are known, or all that the
conversation started from (`exposed_message_iff`).
-/

namespace Olm

variable {K : Type}

/-! ## Derivations -/

namespace Kdf

/-- A half of an HKDF output. -/
def derived (kdf : Kdf K) (second : Bool) (input : Bytes) (salt : Option K) (info : Bytes) : K :=
  if second then (kdf.hkdfSha256 input salt info).2 else (kdf.hkdfSha256 input salt info).1

/-- **No key is derived in two ways**, as it is with terms. -/
structure Free (kdf : Kdf K) : Prop where
  hmac : ∀ {key key' : K} {input input' : Bytes},
    kdf.hmacSha256 key input = kdf.hmacSha256 key' input' → key = key' ∧ input = input'
  derived : ∀ {second second' : Bool} {input input' : Bytes} {salt salt' : Option K}
    {info info' : Bytes},
    kdf.derived second input salt info = kdf.derived second' input' salt' info' →
      second = second' ∧ input = input' ∧ salt = salt' ∧ info = info'
  hmac_ne_derived : ∀ {key : K} {input : Bytes} {second : Bool} {input' : Bytes}
    {salt : Option K} {info : Bytes},
    kdf.hmacSha256 key input ≠ kdf.derived second input' salt info

theorem symbolic_free : Kdf.symbolic.Free where
  hmac h := SymbolicKey.hmac.inj h
  derived := by
    intro second second' input input' salt salt' info info' h
    cases salt <;> cases salt' <;> cases second <;> cases second' <;>
      simp_all [Kdf.derived, Kdf.symbolic]
  hmac_ne_derived := by
    intro key input second input' salt info h
    cases salt <;> cases second <;> cases h

/-- The key that a term stands for. -/
def eval (kdf : Kdf K) (zeroKey : K) : SymbolicKey → K
  | .zero => zeroKey
  | .hmac key input => kdf.hmacSha256 (kdf.eval zeroKey key) input
  | .root second input info => kdf.derived second input none info
  | .ratchet second input salt info => kdf.derived second input (some (kdf.eval zeroKey salt)) info

/-- One derivation, by someone who knows the `inputs`. -/
inductive Derives (kdf : Kdf K) (inputs : Set Bytes) : K → K → Prop
  | hmac (key : K) (input : Bytes) : Derives kdf inputs key (kdf.hmacSha256 key input)
  | hkdf (key : K) {input : Bytes} (second : Bool) (info : Bytes) (h : input ∈ inputs) :
      Derives kdf inputs key (kdf.derived second input (some key) info)

/-- What is made of the inputs alone. -/
def Made (kdf : Kdf K) (inputs : Set Bytes) : Set K :=
  {key | ∃ second input info, input ∈ inputs ∧ key = kdf.derived second input none info}

/-- **The key can be derived** from the known keys and inputs. -/
def Exposed (kdf : Kdf K) (inputs : Set Bytes) (known : Set K) (key : K) : Prop :=
  Derivable (kdf.Derives inputs) (known ∪ kdf.Made inputs) key

section Exposed

variable {kdf : Kdf K} {inputs : Set Bytes} {known : Set K} {key salt : K} {second : Bool}
  {input info : Bytes}

theorem Free.derives_hmac_iff (hfree : kdf.Free) (c : K) :
    kdf.Derives inputs c (kdf.hmacSha256 key input) ↔ c = key := by
  constructor
  · generalize hmade : kdf.hmacSha256 key input = made
    intro h
    cases h with
    | hmac input' => exact (hfree.hmac hmade).1.symm
    | hkdf second info hinput => exact absurd hmade hfree.hmac_ne_derived
  · rintro rfl
    exact .hmac c input

theorem Free.derives_derived_iff (hfree : kdf.Free) (c : K) :
    kdf.Derives inputs c (kdf.derived second input (some salt) info) ↔ input ∈ inputs ∧ c = salt := by
  constructor
  · generalize hmade : kdf.derived second input (some salt) info = made
    intro h
    cases h with
    | hmac input' => exact absurd hmade.symm hfree.hmac_ne_derived
    | hkdf second' info' hinput =>
      obtain ⟨-, rfl, hsalt, -⟩ := hfree.derived hmade
      exact ⟨hinput, (Option.some.inj hsalt).symm⟩
  · rintro ⟨hinput, rfl⟩
    exact .hkdf c second info hinput

theorem Free.not_derives (hfree : kdf.Free) (c : K) :
    ¬ kdf.Derives inputs c (kdf.derived second input none info) := by
  generalize hmade : kdf.derived second input none info = made
  intro h
  cases h with
  | hmac input' => exact hfree.hmac_ne_derived hmade.symm
  | hkdf second' info' hinput =>
    obtain ⟨-, -, hsalt, -⟩ := hfree.derived hmade
    cases hsalt

theorem Free.hmac_not_mem_made (hfree : kdf.Free) : kdf.hmacSha256 key input ∉ kdf.Made inputs := by
  rintro ⟨second, input', info, -, heq⟩
  exact hfree.hmac_ne_derived heq

theorem Free.derived_mem_made_iff (hfree : kdf.Free) {salt : Option K} :
    kdf.derived second input salt info ∈ kdf.Made inputs ↔ salt = none ∧ input ∈ inputs := by
  constructor
  · rintro ⟨second', input', info', hinput, heq⟩
    obtain ⟨-, rfl, hsalt, -⟩ := hfree.derived heq
    exact ⟨hsalt, hinput⟩
  · rintro ⟨rfl, hinput⟩
    exact ⟨second, input, info, hinput, rfl⟩

/-- A key made by an HMAC. -/
theorem Free.exposed_hmac_iff (hfree : kdf.Free) :
    kdf.Exposed inputs known (kdf.hmacSha256 key input) ↔
      kdf.hmacSha256 key input ∈ known ∨ kdf.Exposed inputs known key := by
  have honly : ∀ c, kdf.Derives inputs c (kdf.hmacSha256 key input) ↔ True ∧ c = key := by
    intro c
    rw [hfree.derives_hmac_iff, true_and]
  rw [Exposed, Derivable.iff_of_only honly, Set.mem_union, or_iff_left hfree.hmac_not_mem_made,
    true_and]
  rfl

/-- A key made by an HKDF with a key for its salt. -/
theorem Free.exposed_derived_iff (hfree : kdf.Free) :
    kdf.Exposed inputs known (kdf.derived second input (some salt) info) ↔
      kdf.derived second input (some salt) info ∈ known ∨
        input ∈ inputs ∧ kdf.Exposed inputs known salt := by
  rw [Exposed, Derivable.iff_of_only hfree.derives_derived_iff, Set.mem_union,
    hfree.derived_mem_made_iff]
  simp [Exposed]

/-- A key made by an HKDF without one. -/
theorem Free.exposed_made_iff (hfree : kdf.Free) :
    kdf.Exposed inputs known (kdf.derived second input none info) ↔
      kdf.derived second input none info ∈ known ∨ input ∈ inputs := by
  rw [Exposed, Derivable.iff_of_none hfree.not_derives, Set.mem_union, hfree.derived_mem_made_iff]
  simp

end Exposed

end Kdf

/-! ## The keys by name -/

/-- A key of a conversation: `secrets` are the Diffie–Hellman outputs behind
the root key, the last one first. -/
inductive KeyName where
  | root (secrets : List Curve25519SharedSecret)
  | chain (secrets : List Curve25519SharedSecret) (index : ℕ)
  | message (secrets : List Curve25519SharedSecret) (index : ℕ)

/-- The outputs behind the key. -/
def KeyName.secrets : KeyName → List Curve25519SharedSecret
  | .root secrets => secrets
  | .chain secrets _ => secrets
  | .message secrets _ => secrets

variable (config : RatchetConfig K) (sharedSecret : Bytes)

/-- The root key and the first key of the chain after these outputs. -/
def keysAfter : List Curve25519SharedSecret → K × K
  | [] => System.firstKeys config sharedSecret
  | secret :: older =>
    config.kdf.hkdfSha256 secret.val (some (keysAfter older).1) config.kdfInfo.ratchetInfo

/-- The key of that name. -/
def KeyName.key : KeyName → K
  | .root secrets => (keysAfter config sharedSecret secrets).1
  | .chain secrets index => (chainKeyAt config (keysAfter config sharedSecret secrets).2 index).key
  | .message secrets index => messageKeyAt config (keysAfter config sharedSecret secrets).2 index

/-- The keys of an epoch are those after its outputs. -/
theorem Epoch.keys_eq_keysAfter (epoch : Epoch) :
    epoch.keys config (System.firstKeys config sharedSecret) =
      keysAfter config sharedSecret (epoch.secrets config) := by
  induction epoch with
  | nil => rfl
  | cons key rest ih =>
    cases rest with
    | nil => rfl
    | cons previous rest =>
      rw [Epoch.secrets, keysAfter, ← ih]
      rfl

/-! ## Their terms -/

/-- The ratchets with terms for keys: a cipher takes their values. -/
def RatchetConfig.ofTerms (zeroKey : K) : RatchetConfig SymbolicKey where
  curve := config.curve
  kdf := .symbolic
  kdfInfo := config.kdfInfo
  ratchetCipher := config.ratchetCipher.comap (config.kdf.eval zeroKey)

theorem RatchetConfig.ofTerms_free (zeroKey : K) : (config.ofTerms zeroKey).kdf.Free :=
  Kdf.symbolic_free

/-- The term for the key of that name. -/
def KeyName.term (zeroKey : K) (name : KeyName) : SymbolicKey :=
  name.key (config.ofTerms zeroKey) sharedSecret

section Values

variable {config sharedSecret} {zeroKey : K}

theorem eval_keysAfter (secrets : List Curve25519SharedSecret) :
    config.kdf.eval zeroKey (keysAfter (config.ofTerms zeroKey) sharedSecret secrets).1 =
        (keysAfter config sharedSecret secrets).1 ∧
      config.kdf.eval zeroKey (keysAfter (config.ofTerms zeroKey) sharedSecret secrets).2 =
        (keysAfter config sharedSecret secrets).2 := by
  induction secrets with
  | nil => exact ⟨rfl, rfl⟩
  | cons secret older ih =>
    rw [keysAfter, keysAfter, ← ih.1]
    exact ⟨rfl, rfl⟩

variable (config zeroKey) in
theorem eval_chainKeyAt (start : SymbolicKey) (index : ℕ) :
    config.kdf.eval zeroKey (chainKeyAt (config.ofTerms zeroKey) start index).key =
      (chainKeyAt config (config.kdf.eval zeroKey start) index).key := by
  induction index with
  | zero => rfl
  | succ index ih =>
    simp only [chainKeyAt, Function.iterate_succ_apply'] at ih ⊢
    rw [← ih]
    rfl

/-- **A key is the value of its term.** -/
theorem KeyName.eval_term (name : KeyName) :
    config.kdf.eval zeroKey (name.term config sharedSecret zeroKey) =
      name.key config sharedSecret := by
  cases name with
  | root secrets => exact (eval_keysAfter secrets).1
  | chain secrets index =>
    rw [KeyName.term, KeyName.key, eval_chainKeyAt, (eval_keysAfter secrets).2]
    rfl
  | message secrets index =>
    have hchain := eval_chainKeyAt config zeroKey
      (keysAfter (config.ofTerms zeroKey) sharedSecret secrets).2 index
    rw [(eval_keysAfter secrets).2] at hchain
    exact congrArg (config.kdf.hmacSha256 · MESSAGE_KEY_SEED) hchain

end Values

namespace KeyName

variable {config sharedSecret} {secrets secrets' : List Curve25519SharedSecret} {index index' : ℕ}

/-- The first key of a chain, or the root key that was made with it. -/
def made (second : Bool) (secrets : List Curve25519SharedSecret) : KeyName :=
  if second then .chain secrets 0 else .root secrets

@[simp] theorem made_false : made false secrets = .root secrets := rfl

@[simp] theorem made_true : made true secrets = .chain secrets 0 := rfl

theorem key_made_nil (second : Bool) : key config sharedSecret (made second []) =
    config.kdf.derived second sharedSecret none config.kdfInfo.rootInfo := by cases second <;> rfl

theorem key_made_cons (second : Bool) (secret : Curve25519SharedSecret) :
    key config sharedSecret (made second (secret :: secrets)) =
      config.kdf.derived second secret.val (some (key config sharedSecret (.root secrets)))
        config.kdfInfo.ratchetInfo := by cases second <;> rfl

variable (config sharedSecret) in
theorem exists_derived (second : Bool) (secrets : List Curve25519SharedSecret) :
    ∃ (input : Bytes) (salt : Option K) (info : Bytes),
      key config sharedSecret (made second secrets) = config.kdf.derived second input salt info := by
  cases secrets with
  | nil => exact ⟨_, _, _, key_made_nil second⟩
  | cons secret older => exact ⟨_, _, _, key_made_cons second secret⟩

theorem key_chain_succ : key config sharedSecret (.chain secrets (index + 1)) =
    config.kdf.hmacSha256 (key config sharedSecret (.chain secrets index)) CHAIN_KEY_SEED :=
  Function.iterate_succ_apply' ..

theorem key_message : key config sharedSecret (.message secrets index) =
    config.kdf.hmacSha256 (key config sharedSecret (.chain secrets index)) MESSAGE_KEY_SEED := rfl

section Injective

variable (hfree : config.kdf.Free)

include hfree

theorem made_inj (second : Bool) (h : key config sharedSecret (made second secrets) =
    key config sharedSecret (made second secrets')) : secrets = secrets' := by
  induction secrets generalizing second secrets' with
  | nil =>
    cases secrets' with
    | nil => rfl
    | cons secret' older' =>
      rw [key_made_nil, key_made_cons] at h
      obtain ⟨-, -, hsalt, -⟩ := hfree.derived h
      cases hsalt
  | cons secret older ih =>
    cases secrets' with
    | nil =>
      rw [key_made_nil, key_made_cons] at h
      obtain ⟨-, -, hsalt, -⟩ := hfree.derived h
      cases hsalt
    | cons secret' older' =>
      rw [key_made_cons, key_made_cons] at h
      obtain ⟨-, hsecret, hsalt, -⟩ := hfree.derived h
      rw [Subtype.ext hsecret, ih false (Option.some.inj hsalt)]

/-- What an HMAC makes was not made by an HKDF. -/
theorem hmac_ne_made {key' : K} {input : Bytes} (second : Bool) :
    config.kdf.hmacSha256 key' input ≠ key config sharedSecret (made second secrets) := by
  obtain ⟨input', salt, info, hmade⟩ := exists_derived config sharedSecret second secrets
  rw [hmade]
  exact hfree.hmac_ne_derived

theorem chain_inj (h : key config sharedSecret (.chain secrets index) =
    key config sharedSecret (.chain secrets' index')) : secrets = secrets' ∧ index = index' := by
  induction index generalizing index' with
  | zero =>
    cases index' with
    | zero => exact ⟨made_inj hfree true h, rfl⟩
    | succ index' =>
      rw [key_chain_succ] at h
      exact absurd h.symm (hmac_ne_made hfree true)
  | succ index ih =>
    cases index' with
    | zero =>
      rw [key_chain_succ] at h
      exact absurd h (hmac_ne_made hfree true)
    | succ index' =>
      rw [key_chain_succ, key_chain_succ] at h
      obtain ⟨rfl, rfl⟩ := ih (hfree.hmac h).1
      exact ⟨rfl, rfl⟩

theorem message_ne_chain : key config sharedSecret (.message secrets index) ≠
    key config sharedSecret (.chain secrets' index') := by
  intro h
  rw [key_message] at h
  cases index' with
  | zero => exact hmac_ne_made hfree true h
  | succ index' =>
    rw [key_chain_succ] at h
    exact absurd (hfree.hmac h).2 (by decide)

theorem chain_ne_root : key config sharedSecret (.chain secrets index) ≠
    key config sharedSecret (.root secrets') := by
  intro h
  cases index with
  | zero =>
    obtain ⟨input, salt, info, hzero⟩ := exists_derived config sharedSecret true secrets
    obtain ⟨input', salt', info', hroot⟩ := exists_derived config sharedSecret false secrets'
    cases (hfree.derived (hzero.symm.trans (h.trans hroot))).1
  | succ index =>
    rw [key_chain_succ] at h
    exact hmac_ne_made hfree false h

/-- **No two names are of one key.** -/
theorem key_injective : Function.Injective (key config sharedSecret) := by
  rintro (secrets | ⟨secrets, index⟩ | ⟨secrets, index⟩)
    (secrets' | ⟨secrets', index'⟩ | ⟨secrets', index'⟩) h
  · rw [made_inj hfree false h]
  · exact absurd h.symm (chain_ne_root hfree)
  · exact absurd h.symm (hmac_ne_made hfree false)
  · exact absurd h (chain_ne_root hfree)
  · obtain ⟨rfl, rfl⟩ := chain_inj hfree h
    rfl
  · exact absurd h.symm (message_ne_chain hfree)
  · exact absurd h (hmac_ne_made hfree false)
  · exact absurd h (message_ne_chain hfree)
  · obtain ⟨rfl, rfl⟩ := chain_inj hfree (hfree.hmac h).1
    rfl

end Injective

end KeyName

/-! ## What exposes them -/

/-- The key of that name can be derived. -/
def KeyName.Exposed (inputs : Set Bytes) (known : Set K) (name : KeyName) : Prop :=
  config.kdf.Exposed inputs known (name.key config sharedSecret)

section Exposed

variable {config sharedSecret} {inputs : Set Bytes} {known : Set K}
  {secrets : List Curve25519SharedSecret} {index : ℕ} (hfree : config.kdf.Free)

include hfree

namespace KeyName

/-- **The two keys made with an output** are exposed by themselves, by an
older root key with the outputs in between, or by all that the conversation
started from. -/
theorem exposed_made_iff (second : Bool) :
    Exposed config sharedSecret inputs known (made second secrets) ↔
      key config sharedSecret (made second secrets) ∈ known ∨
      (∃ newer older, secrets = newer ++ older ∧ newer ≠ [] ∧
        (∀ secret ∈ newer, secret.val ∈ inputs) ∧ key config sharedSecret (.root older) ∈ known) ∨
      sharedSecret ∈ inputs ∧ ∀ secret ∈ secrets, secret.val ∈ inputs := by
  induction secrets generalizing second with
  | nil =>
    rw [Exposed, key_made_nil, hfree.exposed_made_iff]
    refine or_congr_right ?_
    constructor
    · intro h
      exact .inr ⟨h, by simp⟩
    · rintro (⟨newer, older, heq, hne, -⟩ | ⟨hshared, -⟩)
      · exact absurd (List.append_eq_nil_iff.mp heq.symm).1 hne
      · exact hshared
  | cons secret secrets ih =>
    have hroot := ih false
    rw [Exposed, made_false] at hroot
    rw [Exposed, key_made_cons, hfree.exposed_derived_iff, hroot]
    refine or_congr_right ?_
    constructor
    · rintro ⟨hsecret, h | ⟨newer, older, rfl, -, hnewer, h⟩ | ⟨hshared, hall⟩⟩
      · exact .inl ⟨[secret], secrets, rfl, List.cons_ne_nil _ _, by simpa using hsecret, h⟩
      · exact .inl ⟨secret :: newer, older, rfl, List.cons_ne_nil _ _,
          List.forall_mem_cons.mpr ⟨hsecret, hnewer⟩, h⟩
      · exact .inr ⟨hshared, List.forall_mem_cons.mpr ⟨hsecret, hall⟩⟩
    · rintro (⟨newer, older, heq, hne, hnewer, h⟩ | ⟨hshared, hall⟩)
      · obtain ⟨secret', newer, rfl⟩ := List.exists_cons_of_ne_nil hne
        obtain ⟨rfl, rfl⟩ := List.cons.inj heq
        obtain ⟨hsecret, hnewer⟩ := List.forall_mem_cons.mp hnewer
        refine ⟨hsecret, ?_⟩
        cases newer with
        | nil => exact .inl h
        | cons next newer => exact .inr (.inl ⟨_, older, rfl, List.cons_ne_nil _ _, hnewer, h⟩)
      · obtain ⟨hsecret, hall⟩ := List.forall_mem_cons.mp hall
        exact ⟨hsecret, .inr (.inr ⟨hshared, hall⟩)⟩

/-- **A message key** is exposed by itself, by a key of its chain that is not
past it, by an older root key, or by all that the conversation started
from. -/
theorem exposed_message_iff : Exposed config sharedSecret inputs known (.message secrets index) ↔
    key config sharedSecret (.message secrets index) ∈ known ∨
    (∃ i ≤ index, key config sharedSecret (.chain secrets i) ∈ known) ∨
    (∃ newer older, secrets = newer ++ older ∧ newer ≠ [] ∧
      (∀ secret ∈ newer, secret.val ∈ inputs) ∧ key config sharedSecret (.root older) ∈ known) ∨
    sharedSecret ∈ inputs ∧ ∀ secret ∈ secrets, secret.val ∈ inputs := by
  have honly : ∀ key c, config.kdf.Derives inputs c (config.kdf.hmacSha256 key CHAIN_KEY_SEED) ↔
      c = key := fun key c => hfree.derives_hmac_iff c
  -- along the chain, down to its first key
  have hchain : Exposed config sharedSecret inputs known (.chain secrets index) ↔
      (∃ i, 0 < i ∧ i ≤ index ∧ key config sharedSecret (.chain secrets i) ∈
        known ∪ config.kdf.Made inputs) ∨
      Exposed config sharedSecret inputs known (made true secrets) := Derivable.iterate honly index
  rw [Exposed, key_message, hfree.exposed_hmac_iff, ← key_message]
  refine or_congr_right ?_
  rw [Exposed, exposed_made_iff hfree] at hchain
  rw [hchain, ← or_assoc]
  refine or_congr_left ?_
  constructor
  · rintro (⟨i, hpos, hle, h⟩ | h)
    · obtain ⟨i, rfl⟩ := Nat.exists_eq_add_one_of_ne_zero (Nat.pos_iff_ne_zero.mp hpos)
      rw [Set.mem_union, key_chain_succ, or_iff_left hfree.hmac_not_mem_made, ← key_chain_succ]
        at h
      exact ⟨i + 1, hle, h⟩
    · exact ⟨0, Nat.zero_le _, h⟩
  · rintro ⟨i, hle, h⟩
    rcases Nat.eq_zero_or_pos i with rfl | hpos
    · exact .inr h
    · exact .inl ⟨i, hpos, hle, .inl h⟩

end KeyName

omit hfree in
/-- **The term of a message key**, likewise: no two terms are the same by
chance. -/
theorem KeyName.exposed_term_iff {zeroKey : K} {known : Set SymbolicKey} :
    Kdf.symbolic.Exposed inputs known
        ((KeyName.message secrets index).term config sharedSecret zeroKey) ↔
      (KeyName.message secrets index).term config sharedSecret zeroKey ∈ known ∨
      (∃ i ≤ index, (KeyName.chain secrets i).term config sharedSecret zeroKey ∈ known) ∨
      (∃ newer older, secrets = newer ++ older ∧ newer ≠ [] ∧
        (∀ secret ∈ newer, secret.val ∈ inputs) ∧
        (KeyName.root older).term config sharedSecret zeroKey ∈ known) ∨
      sharedSecret ∈ inputs ∧ ∀ secret ∈ secrets, secret.val ∈ inputs :=
  KeyName.exposed_message_iff (config.ofTerms_free zeroKey)

end Exposed

/-- No two names are of one term. -/
theorem KeyName.term_injective {config : RatchetConfig K} {sharedSecret : Bytes} {zeroKey : K} :
    Function.Injective (KeyName.term config sharedSecret zeroKey) :=
  KeyName.key_injective (config.ofTerms_free zeroKey)

end Olm
