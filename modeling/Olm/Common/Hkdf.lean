import Olm.Common.Bytes
import Mathlib.Data.List.Range

/-!
# HMAC and HKDF

Over any hash function, as their RFCs define them: the keyed hash of
RFC 2104, and the two steps of RFC 5869, which extract a key from some
input and expand it block by block. A block is the keyed hash of the block
before it, of the info and of one octet that counts the blocks.
-/

namespace Hkdf

variable {hashLength : ℕ} (hash : Bytes → FixedBytes hashLength) (blockLength : ℕ)

/-- The key of RFC 2104: hashed if it is longer than a block, and filled up
with zeros to one. -/
def hmacKey (key : Bytes) : Bytes :=
  let key := if blockLength < key.length then (hash key).val else key
  key ++ List.replicate (blockLength - key.length) 0

/-- `HMAC(K, text)`. -/
def hmac (key text : Bytes) : FixedBytes hashLength :=
  hash ((hmacKey hash blockLength key).map (· ^^^ 0x5C) ++
    (hash ((hmacKey hash blockLength key).map (· ^^^ 0x36) ++ text)).val)

/-- `HKDF-Extract(salt, IKM)`. A salt that is not given is a string of zeros as
long as the hash. -/
def extract (salt : Option Bytes) (ikm : Bytes) : FixedBytes hashLength :=
  hmac hash blockLength (salt.getD (List.replicate hashLength 0)) ikm

/-- `T(i)`. -/
def expandBlock (prk info : Bytes) : ℕ → Bytes
  | 0 => []
  | i + 1 =>
    (hmac hash blockLength prk (expandBlock prk info i ++ info ++ [UInt8.ofNat (i + 1)])).val

/-- `T(first + 1) | T(first + 2) | ... | T(first + count)`. -/
def expandBlocks (prk info : Bytes) (first count : ℕ) : Bytes :=
  (List.range' (first + 1) count).flatMap (expandBlock hash blockLength prk info)

/-- `HKDF-Expand(PRK, info, L)`, which takes at most 255 blocks. -/
def expand (prk info : Bytes) (length : ℕ) : Bytes :=
  (expandBlocks hash blockLength prk info 0 ((length + hashLength - 1) / hashLength)).take length

variable {hash blockLength}

/-- The key fills a block. -/
theorem hmacKey_length (h : hashLength ≤ blockLength) (key : Bytes) :
    (hmacKey hash blockLength key).length = blockLength := by
  rw [hmacKey]
  split <;> rw [List.length_append, List.length_replicate]
  · rw [FixedBytes.length_val]
    omega
  · omega

@[simp] theorem expandBlock_length (prk info : Bytes) (i : ℕ) :
    (expandBlock hash blockLength prk info (i + 1)).length = hashLength := by
  rw [expandBlock, FixedBytes.length_val]

@[simp] theorem expandBlocks_zero (prk info : Bytes) (first : ℕ) :
    expandBlocks hash blockLength prk info first 0 = [] := rfl

/-- The first of some blocks, and the rest. -/
theorem expandBlocks_succ (prk info : Bytes) (first count : ℕ) :
    expandBlocks hash blockLength prk info first (count + 1) =
      expandBlock hash blockLength prk info (first + 1) ++
        expandBlocks hash blockLength prk info (first + 1) count := by
  rw [expandBlocks, List.range'_succ, List.flatMap_cons]
  rfl

theorem expandBlocks_length (prk info : Bytes) (first count : ℕ) :
    (expandBlocks hash blockLength prk info first count).length = count * hashLength := by
  induction count generalizing first with
  | zero => rw [expandBlocks_zero, List.length_nil, Nat.zero_mul]
  | succ count ih =>
    rw [expandBlocks_succ, List.length_append, expandBlock_length, ih, Nat.succ_mul, Nat.add_comm]

/-- **As many bytes as were asked for.** -/
theorem expand_length (h : 0 < hashLength) (prk info : Bytes) (length : ℕ) :
    (expand hash blockLength prk info length).length = length := by
  have hmod := Nat.mod_lt (length + hashLength - 1) h
  have hdiv := Nat.div_add_mod (length + hashLength - 1) hashLength
  rw [expand, List.length_take, expandBlocks_length, Nat.mul_comm]
  omega

end Hkdf
