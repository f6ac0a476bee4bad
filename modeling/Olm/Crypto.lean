import Olm.Common.Bytes

/-!
# Keys, and the primitives the library calls

The Curve25519, Ed25519 and hashing primitives are parameters of the
model: what the library does with their results is embedded, what they
compute is not. `Curve25519.Commutes` and `Ed25519.Accepts` are what a
result about two honest parties asks of them.
-/

namespace Olm

/-- `enum OlmErrorCode`. -/
inductive OlmErrorCode where
  | SUCCESS
  | NOT_ENOUGH_RANDOM
  | OUTPUT_BUFFER_TOO_SMALL
  | BAD_MESSAGE_VERSION
  | BAD_MESSAGE_FORMAT
  | BAD_MESSAGE_MAC
  | BAD_MESSAGE_KEY_ID
  | INVALID_BASE64
  | BAD_ACCOUNT_KEY
  | UNKNOWN_PICKLE_VERSION
  | CORRUPTED_PICKLE
  | BAD_SESSION_KEY
  | UNKNOWN_MESSAGE_INDEX
  | BAD_LEGACY_ACCOUNT_PICKLE
  | BAD_SIGNATURE
  | INPUT_BUFFER_TOO_SMALL
  | SAS_THEIR_KEY_NOT_SET
  | PICKLE_EXTRA_DATA
  | MESSAGE_OUT_OF_ORDER
  | ALREADY_DECRYPTED_OR_KEYS_SKIPPED
  | MAX_MESSAGE_GAP_EXCEEDED
  | SENDER_CHAIN_NOT_ACKNOWLEDGED
  deriving DecidableEq, Repr

/-- The bytes of a string of the source. -/
def asciiBytes (s : String) : Bytes := s.toList.map (fun c => UInt8.ofNat c.toNat)

/-! ## Curve25519 -/

/-- `CURVE25519_KEY_LENGTH`, which is `CURVE25519_RANDOM_LENGTH` too. -/
abbrev CURVE25519_KEY_LENGTH : ℕ := 32

/-- `CURVE25519_SHARED_SECRET_LENGTH`. -/
abbrev CURVE25519_SHARED_SECRET_LENGTH : ℕ := 32

/-- `_olm_curve25519_public_key`. -/
abbrev Curve25519PublicKey := FixedBytes CURVE25519_KEY_LENGTH

/-- `_olm_curve25519_private_key`. -/
abbrev Curve25519PrivateKey := FixedBytes CURVE25519_KEY_LENGTH

/-- The output of a Diffie–Hellman operation. -/
abbrev Curve25519SharedSecret := FixedBytes CURVE25519_SHARED_SECRET_LENGTH

/-- `_olm_curve25519_key_pair`. -/
structure Curve25519KeyPair where
  publicKey : Curve25519PublicKey
  privateKey : Curve25519PrivateKey
  deriving DecidableEq

/-- `curve25519_donna(output, secret, point)`. -/
structure Curve25519 where
  donna : FixedBytes 32 → FixedBytes 32 → FixedBytes 32

namespace Curve25519

variable (curve : Curve25519)

/-- `CURVE25519_BASEPOINT`. -/
def BASEPOINT : FixedBytes 32 := ⟨9 :: List.replicate 31 0, rfl⟩

/-- `_olm_crypto_curve25519_generate_key`. -/
def generateKey (random : FixedBytes CURVE25519_KEY_LENGTH) : Curve25519KeyPair where
  publicKey := curve.donna random BASEPOINT
  privateKey := random

/-- `_olm_crypto_curve25519_shared_secret`. -/
def sharedSecret (ourKey : Curve25519KeyPair) (theirKey : Curve25519PublicKey) :
    Curve25519SharedSecret :=
  curve.donna ourKey.privateKey theirKey

/-- **Diffie–Hellman commutes** on generated key pairs. -/
def Commutes : Prop :=
  ∀ a b, curve.sharedSecret (curve.generateKey a) (curve.generateKey b).publicKey =
    curve.sharedSecret (curve.generateKey b) (curve.generateKey a).publicKey

/-- **No public key is zero**: a secret is never a multiple of the order of
the base point. -/
def NeverZero : Prop := ∀ random, (curve.generateKey random).publicKey ≠ FixedBytes.zero _

/-- A key pair `generateKey` made. -/
def Generated (pair : Curve25519KeyPair) : Prop := pair = curve.generateKey pair.privateKey

theorem generated_generateKey (random : FixedBytes CURVE25519_KEY_LENGTH) :
    curve.Generated (curve.generateKey random) := rfl

variable {curve}

/-- Two generated pairs agree on their secret, whoever computes it. -/
theorem Commutes.sharedSecret_comm (h : curve.Commutes) {a b : Curve25519KeyPair}
    (ha : curve.Generated a) (hb : curve.Generated b) :
    curve.sharedSecret a b.publicKey = curve.sharedSecret b a.publicKey := by
  rw [ha, hb]
  exact h a.privateKey b.privateKey

end Curve25519

/-! ## Ed25519 -/

/-- `ED25519_SIGNATURE_LENGTH`. -/
abbrev ED25519_SIGNATURE_LENGTH : ℕ := 64

/-- `ED25519_PUBLIC_KEY_LENGTH`. -/
abbrev ED25519_PUBLIC_KEY_LENGTH : ℕ := 32

/-- `ED25519_PRIVATE_KEY_LENGTH`. -/
abbrev ED25519_PRIVATE_KEY_LENGTH : ℕ := 64

/-- `ED25519_RANDOM_LENGTH`. -/
abbrev ED25519_RANDOM_LENGTH : ℕ := 32

/-- `_olm_ed25519_public_key`. -/
abbrev Ed25519PublicKey := FixedBytes ED25519_PUBLIC_KEY_LENGTH

/-- An Ed25519 signature. -/
abbrev Ed25519Signature := FixedBytes ED25519_SIGNATURE_LENGTH

/-- `_olm_ed25519_key_pair`. -/
structure Ed25519KeyPair where
  publicKey : Ed25519PublicKey
  privateKey : FixedBytes ED25519_PRIVATE_KEY_LENGTH
  deriving DecidableEq

/-- The vendored Ed25519 functions, behind `_olm_crypto_ed25519_*`. -/
structure Ed25519 where
  generateKey : FixedBytes ED25519_RANDOM_LENGTH → Ed25519KeyPair
  sign : Ed25519KeyPair → Bytes → Ed25519Signature
  verify : Ed25519PublicKey → Bytes → Ed25519Signature → Bool

/-- **What a generated key signs verifies.** -/
def Ed25519.Accepts (ed : Ed25519) : Prop :=
  ∀ random message,
    ed.verify (ed.generateKey random).publicKey message
      (ed.sign (ed.generateKey random) message) = true

/-! ## Hashing -/

/-- `SHA256_OUTPUT_LENGTH`. -/
abbrev SHA256_OUTPUT_LENGTH : ℕ := 32

/-- `_olm_crypto_hmac_sha256(key, input)` and
`_olm_crypto_hkdf_sha256(input, salt, info, output_length)`; a salt that is
absent is a null pointer. -/
structure Hashes where
  hmacSha256 : Bytes → Bytes → FixedBytes SHA256_OUTPUT_LENGTH
  hkdfSha256 : Bytes → Option Bytes → Bytes → (n : ℕ) → FixedBytes n

end Olm
