import Olm.Cipher.Lawful
import Olm.Group.Model
import Olm.Session.Model

/-!
# Symbolic primitives

The smallest primitives that have the laws the results about honest
parties ask for. A symbolic key is the term it was derived by, so no two
derivations give the same key; Diffie–Hellman is exclusive or, AES the
identity, and every signature is accepted. They show that the laws can be
met together, and let the model be run.
-/

namespace Olm

/-! ## Keys as terms -/

/-- A key, as the derivation that made it. -/
inductive SymbolicKey where
  /-- A key that was not derived. -/
  | zero
  /-- An HMAC under a key. -/
  | hmac (key : SymbolicKey) (input : Bytes)
  /-- A half of an HKDF output, without a salt. -/
  | root (second : Bool) (input info : Bytes)
  /-- A half of an HKDF output, with a key for its salt. -/
  | ratchet (second : Bool) (input : Bytes) (salt : SymbolicKey) (info : Bytes)
  deriving DecidableEq, Repr

/-- The derivations of symbolic keys. -/
def Kdf.symbolic : Kdf SymbolicKey where
  hmacSha256 key input := .hmac key input
  hkdfSha256 input salt info := match salt with
    | none => (.root false input info, .root true input info)
    | some key => (.ratchet false input key info, .ratchet true input key info)

theorem Kdf.symbolic_injective (info : Bytes) :
    Function.Injective (fun input => Kdf.symbolic.hkdfSha256 input none info) := by
  intro a b h
  simp only [Kdf.symbolic, Prod.mk.injEq, SymbolicKey.root.injEq] at h
  exact h.1.2.1

/-! ## The other primitives -/

/-- Diffie–Hellman by exclusive or. -/
def Curve25519.xor : Curve25519 where
  donna secret point := ⟨secret.val.zipWith (· ^^^ ·) point.val, by
    rw [List.length_zipWith, secret.property, point.property, Nat.min_self]⟩

theorem Curve25519.xor_commutes : Curve25519.xor.Commutes := by
  intro a b
  apply Subtype.ext
  apply List.ext_getElem
  · simp [sharedSecret, generateKey, Curve25519.xor]
  · intro i hi _
    have ha : i < a.val.length := by
      rw [FixedBytes.length_val] at hi ⊢
      exact hi
    simp only [sharedSecret, generateKey, Curve25519.xor, List.getElem_zipWith]
    rw [← UInt8.xor_assoc, ← UInt8.xor_assoc, UInt8.xor_comm a.val[i]]

/-- The same, with the three low bits of the secret cleared. -/
def Curve25519.clamped : Curve25519 where
  donna secret point := ⟨(secret.val.modifyHead (· &&& 248)).zipWith (· ^^^ ·) point.val, by
    rw [List.length_zipWith, List.length_modifyHead, secret.property, point.property,
      Nat.min_self]⟩

/-- The low bit is the one of the base point. -/
theorem Curve25519.clamped_neverZero : Curve25519.clamped.NeverZero := by
  intro random hzero
  have hhead := congrArg (fun key => key.val.head?) hzero
  match random, hhead with
  | ⟨b :: rest, _⟩, hhead =>
    have hbyte : (b &&& 248) ^^^ 9 = 0 := Option.some.inj hhead
    have hbit : ((b &&& 248) ^^^ 9).toNat.testBit 0 = true := by
      rw [UInt8.toNat_xor, UInt8.toNat_and, Nat.testBit_xor, Nat.testBit_and,
        show Nat.testBit (248 : UInt8).toNat 0 = false from rfl, Bool.and_false]
      rfl
    rw [hbyte] at hbit
    cases hbit

/-- Signatures that are all accepted. -/
def Ed25519.accepting : Ed25519 where
  generateKey random := { publicKey := random, privateKey := FixedBytes.zero _ }
  sign _ _ := FixedBytes.zero _
  verify _ _ _ := true

theorem Ed25519.accepting_accepts : Ed25519.accepting.Accepts := fun _ _ => rfl

/-- Signatures that are all refused. -/
def Ed25519.rejecting : Ed25519 := { Ed25519.accepting with verify := fun _ _ _ => false }

/-- The block cipher that does nothing. -/
def Aes256.identity : Aes256 where
  encrypt _ block := block
  decrypt _ block := block

theorem Aes256.identity_inverts : Aes256.identity.Inverts := fun _ _ => rfl

/-- Hashes that are all zero. -/
def Hashes.zero : Hashes where
  hmacSha256 _ _ := FixedBytes.zero _
  hkdfSha256 _ _ _ n := FixedBytes.zero n

/-- An HMAC that keeps the front of its input, whatever the key. -/
def Hashes.truncating : Hashes where
  hmacSha256 _ input := ⟨(input ++ List.replicate 32 0).take 32, by simp⟩
  hkdfSha256 _ _ _ n := FixedBytes.zero n

/-- `_olm_cipher_aes_sha_256` over these, under one key for all. -/
def Cipher.symbolic : Cipher SymbolicKey :=
  (aesSha256 .zero .identity CIPHER_KDF_INFO).comap (fun _ => [])

theorem Cipher.symbolic_lawful : Cipher.symbolic.Lawful :=
  (aesSha256_lawful .zero Aes256.identity_inverts CIPHER_KDF_INFO).comap _

/-- **All the laws together.** -/
def Primitives.symbolic : Primitives SymbolicKey where
  curve := .xor
  ed25519 := .accepting
  kdf := .symbolic
  cipher := .symbolic

/-- The same, where no signature is accepted. -/
def Primitives.rejecting : Primitives SymbolicKey := { Primitives.symbolic with ed25519 := .rejecting }

/-- The same, where no public key is zero. -/
def Primitives.clamped : Primitives SymbolicKey := { Primitives.symbolic with curve := .clamped }

theorem Primitives.symbolic_rootKeys_injective :
    Function.Injective (fun secret =>
      Primitives.symbolic.kdf.hkdfSha256 secret none OLM_KDF_INFO.rootInfo) :=
  Kdf.symbolic_injective _

/-! ## Codes that tell the message keys of a chain apart -/

/-- Hashes that give their key back. -/
def Hashes.echoing : Hashes where
  hmacSha256 key _ := ⟨(key ++ List.replicate 32 0).take 32, by simp⟩
  hkdfSha256 input _ _ n := ⟨(List.replicate 32 0 ++ (input ++ List.replicate n 0)).take n, by
    rw [List.length_take, List.length_append, List.length_append, List.length_replicate (n := n)]
    omega⟩

/-- The code of a message under them is its key. -/
theorem AesSha256.mac_echoing {key : Bytes} (h : key.length = MAC_LENGTH)
    (kdfInfo authenticated : Bytes) :
    mac .echoing (deriveKeys .echoing kdfInfo key) authenticated = key := by
  match key, h with
  | [_, _, _, _, _, _, _, _], _ => rfl

/-- How many times a key was derived by an HMAC. -/
def SymbolicKey.depth : SymbolicKey → ℕ
  | .hmac key _ => key.depth + 1
  | .zero | .root .. | .ratchet .. => 0

/-- The key that a message is authenticated with. -/
def SymbolicKey.code (key : SymbolicKey) : Bytes := toBigEndian MAC_LENGTH key.depth

theorem SymbolicKey.code_length (key : SymbolicKey) : key.code.length = MAC_LENGTH :=
  toBigEndian_length _ _

/-- The symbolic primitives, where each key of a chain has a code of its own. -/
def Primitives.counting : Primitives SymbolicKey where
  curve := .xor
  ed25519 := .accepting
  kdf := .symbolic
  cipher := (aesSha256 .echoing .identity CIPHER_KDF_INFO).comap SymbolicKey.code

theorem Primitives.counting_lawful : Primitives.counting.cipher.Lawful :=
  (aesSha256_lawful .echoing Aes256.identity_inverts CIPHER_KDF_INFO).comap _

/-- Keys that are numbers: advancing one adds one, and a message key is the
chain key. -/
def Kdf.numbering : Kdf ℕ where
  hmacSha256 key input := if input = CHAIN_KEY_SEED then key + 1 else key
  hkdfSha256 _ _ _ := (0, 0)

/-- The same primitives, with numbers for keys. -/
def Primitives.numbering : Primitives ℕ where
  curve := .xor
  ed25519 := .accepting
  kdf := .numbering
  cipher := (aesSha256 .echoing .identity CIPHER_KDF_INFO).comap (toBigEndian MAC_LENGTH)

theorem Primitives.numbering_lawful : Primitives.numbering.cipher.Lawful :=
  (aesSha256_lawful .echoing Aes256.identity_inverts CIPHER_KDF_INFO).comap _

/-! ## Keys of 32 bytes -/

/-- Hashes that mix what they are given byte by byte: an HMAC adds the front of
its input to that of its key, and the outputs of an HKDF are the input and the
salt by exclusive or, and one or two added. -/
def Hashes.mixing : Hashes where
  hmacSha256 key input :=
    ⟨(key.modifyHead (· + (input.headD 0 + 1)) ++ List.replicate 32 0).take 32, by simp⟩
  hkdfSha256 input salt _ n :=
    let mixed := input.zipWith (· ^^^ ·) (salt.getD [] ++ List.replicate input.length 0)
    ⟨(mixed.map (· + 1) ++ (mixed.map (· + 2) ++ List.replicate n 0)).take n, by simp; omega⟩

/-- The library's keys and cipher over these. -/
def Primitives.mixing : Primitives SharedKey :=
  .ofHashes .xor .accepting .mixing .identity

theorem Primitives.mixing_lawful : Primitives.mixing.cipher.Lawful :=
  (aesSha256_lawful .mixing Aes256.identity_inverts CIPHER_KDF_INFO).comap _

/-! ## A group -/

/-- These primitives for a group. -/
def GroupPrimitives.symbolic : GroupPrimitives where
  ed25519 := .accepting
  hashes := .zero
  aes := .identity

/-- A sender at the last value of its counter. -/
def OutboundGroupSession.atLimit : OutboundGroupSession where
  ratchet := .init (fun _ => FixedBytes.zero _) 0xFFFFFFFF
  signingKey := Ed25519.accepting.generateKey (FixedBytes.zero _)
  lastError := .SUCCESS

/-! ## An account and a pre-key message -/

/-- The account made of bytes that are all 7. -/
def Account.sevens : Account :=
  match Account.new.newAccount .xor .accepting (List.replicate 96 7) with
  | .ok (account, _) => account
  | .error _ => .new

theorem Account.newAccount_sevens :
    Account.new.newAccount .xor .accepting (List.replicate 96 7) = .ok (Account.sevens, some 0) :=
  rfl

/-- A pre-key message with a key for each tag, around a message with a
ratchet key of zeros, nothing else and a code of eight zeros. -/
def preKeyMessageOf (version : UInt8) (keys : List (UInt8 × Curve25519PublicKey)) : Bytes :=
  version :: (keys.map (fun key => key.1 :: 32 :: key.2.val)).flatten ++
    ([MESSAGE_TAG, 43, 3, RATCHET_KEY_TAG, 32] ++ List.replicate 40 0)

/-- The one where all keys are zero. -/
def zeroPreKeyMessage : Bytes :=
  preKeyMessageOf 3 [(PREKEY_ID_TAG, FixedBytes.zero _), (ONE_TIME_KEY_ID_TAG, FixedBytes.zero _),
    (BASE_KEY_TAG, FixedBytes.zero _), (IDENTITY_KEY_TAG, FixedBytes.zero _)]

/-- A message with a ratchet key of zeros, a block of padding and a code
whose bytes are all the same. -/
def Session.paddingMessage (counter code : UInt8) : Bytes :=
  [3, RATCHET_KEY_TAG, 32] ++ List.replicate 32 0 ++ [COUNTER_TAG, counter, CIPHERTEXT_TAG, 16] ++
    List.replicate 16 16 ++ List.replicate 8 code

/-- A key of bytes that are all 9, which no account of the tests has made. -/
def Curve25519PublicKey.nines : Curve25519PublicKey := ⟨List.replicate 32 9, rfl⟩

/-- The one where all keys are that one. -/
def ninesPreKeyMessage : Bytes :=
  preKeyMessageOf 3 [(PREKEY_ID_TAG, .nines), (ONE_TIME_KEY_ID_TAG, .nines),
    (BASE_KEY_TAG, .nines), (IDENTITY_KEY_TAG, .nines)]

end Olm
