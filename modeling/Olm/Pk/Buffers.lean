import Olm.Pk.Mac

/-!
# Public key encryption and its output buffers

`olm_pk_encrypt` compares the cipher text buffer and the ephemeral key
buffer with the length of the base64 that goes there, but the code buffer
with the `MAC_LENGTH` bytes of the code before they are encoded. A code
buffer in between is accepted and written past its end
(`encrypt_outside`); all others are kept to.
-/

namespace Olm

variable (curve : Curve25519) (hashes : Hashes) (aes : Aes256)

namespace OlmPkEncryption

/-- One of the buffers is smaller than its `_length` function says. -/
def TooSmall (prims : PkPrimitives) (plaintext : Bytes) (room : PkMessage) : Prop :=
  room.ciphertext.length < ciphertextLength prims plaintext.length ∨
    room.mac.length < macLength prims ∨ room.ephemeralKey.length < pkKeyLength

/-- The code buffer is too small for its base64, but not for its bytes, and the
other two are large enough. -/
def MacBetween (prims : PkPrimitives) (plaintext : Bytes) (room : PkMessage) : Prop :=
  ciphertextLength prims plaintext.length ≤ room.ciphertext.length ∧
    prims.cipher.macLength ≤ room.mac.length ∧ room.mac.length < macLength prims ∧
    pkKeyLength ≤ room.ephemeralKey.length

/-- The call accesses nothing outside its buffers, and one that is too small is
refused with nothing written. -/
structure KeepsToBuffers (prims : PkPrimitives) (encryption : OlmPkEncryption) (plaintext : Bytes)
    (room : PkMessage) (random : Bytes) : Prop where
  inside : ∃ encryption' message result,
    encryption.encrypt prims plaintext room random = .ok (encryption', message, result) ∧
      message.ciphertext.length = room.ciphertext.length ∧
      message.mac.length = room.mac.length ∧
      message.ephemeralKey.length = room.ephemeralKey.length
  refuses : TooSmall prims plaintext room →
    encryption.encrypt prims plaintext room random =
      .ok ({ encryption with lastError := .OUTPUT_BUFFER_TOO_SMALL }, room, none)

/-- Eight bytes are eleven characters. -/
theorem macLength_eq :
    (PkPrimitives.ofHashes curve hashes aes).cipher.macLength = MAC_LENGTH ∧
      macLength (.ofHashes curve hashes aes) = encodeBase64Length MAC_LENGTH ∧
      MAC_LENGTH < encodeBase64Length MAC_LENGTH :=
  ⟨rfl, rfl, by decide⟩

/-- **A code buffer in between is written past its end.** -/
theorem encrypt_outside (encryption : OlmPkEncryption) {plaintext : Bytes} {room : PkMessage}
    {random : Bytes} (hroom : MacBetween (.ofHashes curve hashes aes) plaintext room)
    (hrandom : encryptRandomLength ≤ random.length) :
    encryption.encrypt (.ofHashes curve hashes aes) plaintext room random = .error .outOfBounds := by
  obtain ⟨hciphertext, hmac, hshort, hephemeral⟩ := hroom
  obtain ⟨hbytes, hchars, -⟩ := macLength_eq curve hashes aes
  obtain ⟨pair, keys, ciphertext, -, -, -, -, hrun⟩ :=
    encryption.encrypt_upToMac curve hashes aes plaintext hciphertext hmac hephemeral hrandom
  have hcode := AesSha256.mac_length hashes keys []
  have hin : (Base64Input.object (AesSha256.mac hashes keys [])).Holds room.mac 0
      (AesSha256.mac hashes keys []) := ⟨[], (List.append_nil _).symm⟩
  have hencode := encodeBase64_eq hin trivial (Nat.zero_le _)
  have hlength : room.mac.length < 0 + (Base64.encode (AesSha256.mac hashes keys [])).length := by
    rw [Base64.encode_length, hcode, Nat.zero_add]
    omega
  rw [writeAt_of_lt hlength, Checked.error_bind, hcode] at hencode
  rw [hrun, hencode, Checked.error_bind]

/-- **`olm_pk_encrypt` keeps to its buffers** unless the code buffer is in
between. -/
theorem keepsToBuffers_iff (encryption : OlmPkEncryption) (plaintext : Bytes) (room : PkMessage)
    (random : Bytes) :
    KeepsToBuffers (.ofHashes curve hashes aes) encryption plaintext room random ↔
      ¬ MacBetween (.ofHashes curve hashes aes) plaintext room := by
  obtain ⟨hbytes, hchars, hless⟩ := macLength_eq curve hashes aes
  constructor
  · intro h hbetween
    rcases Nat.lt_or_ge random.length encryptRandomLength with hshort | hrandom
    · -- what is refused is the randomness, and not the buffer
      obtain ⟨hciphertext, hmac, hsmall, hephemeral⟩ := hbetween
      have hrefused := h.refuses (Or.inr (Or.inl hsmall))
      rw [encrypt, if_neg (by omega), if_pos hshort] at hrefused
      simp only [Except.ok.injEq, Prod.mk.injEq, OlmPkEncryption.mk.injEq, reduceCtorEq,
        false_and] at hrefused
    · obtain ⟨encryption', message, result, hreturns, -⟩ := h.inside
      rw [encrypt_outside curve hashes aes encryption hbetween hrandom] at hreturns
      cases hreturns
  · intro hbetween
    by_cases hsmall : TooSmall (.ofHashes curve hashes aes) plaintext room
    · -- no buffer is between the two lengths, so it is too small for both
      have hrefused : encryption.encrypt (.ofHashes curve hashes aes) plaintext room random =
          .ok ({ encryption with lastError := .OUTPUT_BUFFER_TOO_SMALL }, room, none) := by
        rw [encrypt, if_pos]
        unfold TooSmall at hsmall
        unfold MacBetween at hbetween
        omega
      exact ⟨⟨_, _, _, hrefused, rfl, rfl, rfl⟩, fun _ => hrefused⟩
    · refine ⟨?_, fun h => absurd h hsmall⟩
      unfold TooSmall at hsmall
      rcases Nat.lt_or_ge random.length encryptRandomLength with hshort | hrandom
      · have hrefused : encryption.encrypt (.ofHashes curve hashes aes) plaintext room random =
            .ok ({ encryption with lastError := .NOT_ENOUGH_RANDOM }, room, none) := by
          rw [encrypt, if_neg (by omega), if_pos hshort]
        exact ⟨_, _, _, hrefused, rfl, rfl, rfl⟩
      · obtain ⟨pair, keys, message, -, -, hrun, hciphertext, hmac, hephemeral, -⟩ :=
          encryption.encrypt_into curve hashes aes plaintext (Nat.le_of_not_lt fun h => hsmall (.inl h))
            (Nat.le_of_not_lt fun h => hsmall (.inr (.inl h)))
            (Nat.le_of_not_lt fun h => hsmall (.inr (.inr h))) hrandom
        exact ⟨encryption, message, _, hrun, hciphertext, hmac, hephemeral⟩

/-- **Room for the code, and not for its base64**: eight bytes, and the other
two buffers as long as they should be. -/
theorem not_keepsToBuffers :
    ¬ KeepsToBuffers (.ofHashes .xor .zero .identity) .toZero []
      { ciphertext := List.replicate 22 0
        mac := List.replicate 8 0
        ephemeralKey := List.replicate 43 0 } (List.replicate 32 8) := by
  intro h
  obtain ⟨encryption', message, result, hreturns, -⟩ := h.inside
  rw [encrypt_outside .xor .zero .identity .toZero
    ⟨by decide, by decide, by decide, by decide⟩ (by decide)] at hreturns
  cases hreturns

end OlmPkEncryption

end Olm
