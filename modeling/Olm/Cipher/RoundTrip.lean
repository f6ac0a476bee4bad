import Olm.Cipher.InPlace
import Olm.Symbolic

/-!
# The cipher round trip, in every layout

The output of `aes_sha_256_cipher_encrypt` is a header, which is only
authenticated, the cipher text and the code. The plain text is in a buffer
of its own, or where the cipher text goes; and back, it goes to a buffer of
its own or over the cipher text. The cipher text and the code are the same
in each of the four ways, and so is the plain text that comes out.
-/

namespace Olm

/-- `ciphertext` and `tag` are what `plaintext` is encrypted to behind
`header`, and what is decrypted to it, whatever lies around them. -/
structure RoundTrips (hashes : Hashes) (aes : Aes256) (kdfInfo key header plaintext : Bytes)
    (ciphertext tag : Bytes) : Prop where
  /-- A whole block of padding, where the last one is full. -/
  ciphertext_length : ciphertext.length =
    plaintext.length + AES_BLOCK_LENGTH - plaintext.length % AES_BLOCK_LENGTH
  tag_length : tag.length = MAC_LENGTH
  /-- The plain text is in a buffer of its own. -/
  encrypts (pre room post : Bytes) (hroom : room.length = ciphertext.length + MAC_LENGTH) :
    AesSha256.encrypt hashes aes kdfInfo key plaintext (pre ++ (header ++ (room ++ post)))
        (pre.length + header.length) ciphertext.length pre.length
        (header.length + (ciphertext.length + MAC_LENGTH)) =
      .ok (some (pre ++ (header ++ (ciphertext ++ (tag ++ post)))))
  /-- The plain text is where the cipher text goes. -/
  encryptsWithin (pre room post : Bytes)
    (hroom : (plaintext ++ room).length = ciphertext.length + MAC_LENGTH) :
    AesSha256.encryptWithin aes hashes kdfInfo key
        (pre ++ (header ++ (plaintext ++ (room ++ post)))) (pre.length + header.length)
        plaintext.length (pre.length + header.length) ciphertext.length pre.length
        (header.length + (ciphertext.length + MAC_LENGTH)) =
      .ok (pre ++ (header ++ (ciphertext ++ (tag ++ post))),
        some (header.length + (ciphertext.length + MAC_LENGTH)))
  /-- The plain text goes to a buffer of its own. -/
  decrypts (pre post : Bytes) (maxPlaintextLength : ℕ)
    (hmax : ciphertext.length ≤ maxPlaintextLength) :
    AesSha256.decrypt hashes aes kdfInfo key (pre ++ (header ++ (ciphertext ++ (tag ++ post))))
        pre.length (header.length + (ciphertext.length + MAC_LENGTH)) (pre.length + header.length)
        ciphertext.length maxPlaintextLength =
      .ok (some plaintext)
  /-- The plain text goes where the cipher text is. -/
  decryptsWithin (pre post : Bytes) :
    ∃ rest, AesSha256.decryptWithin aes hashes kdfInfo key
        (pre ++ (header ++ (ciphertext ++ (tag ++ post)))) pre.length
        (header.length + (ciphertext.length + MAC_LENGTH)) (pre.length + header.length)
        ciphertext.length (pre.length + header.length) ciphertext.length =
      .ok (pre ++ (header ++ (plaintext ++ rest)), some plaintext.length)

/-- **What was encrypted is decrypted**, in every layout, and nothing around it
changes. -/
theorem aesSha256_roundTrips (hashes : Hashes) {aes : Aes256} (haes : aes.Inverts)
    (kdfInfo key header plaintext : Bytes) :
    ∃ ciphertext tag, RoundTrips hashes aes kdfInfo key header plaintext ciphertext tag := by
  obtain ⟨keys, hkeys⟩ : ∃ keys, AesSha256.deriveKeys hashes kdfInfo key = keys := ⟨_, rfl⟩
  obtain ⟨ct, hct⟩ : ∃ ct, aesEncryptCbc aes keys.aesKey keys.aesIv plaintext = ct := ⟨_, rfl⟩
  obtain ⟨tag, htag⟩ : ∃ tag, AesSha256.mac hashes keys (header ++ ct) = tag := ⟨_, rfl⟩
  have hlength : ct.length = aesEncryptCbcLength plaintext.length := by
    rw [← hct, aesEncryptCbc_length_eq]
  have htagLength : tag.length = MAC_LENGTH := by rw [← htag, AesSha256.mac_length]
  have hseal : AesSha256.sealBody hashes aes kdfInfo key header plaintext = ct ++ tag := by
    rw [AesSha256.sealBody, hkeys, hct, htag]
  have hbody : (ct ++ tag).length = ct.length + MAC_LENGTH := by rw [List.length_append, htagLength]
  refine ⟨ct, tag, hlength, htagLength, ?_, ?_, ?_, ?_⟩
  · intro pre room post hroom
    obtain ⟨body, -, hencrypt, rfl⟩ := aesSha256_leaves hashes aes kdfInfo key plaintext pre header
      room post (by rw [hroom, hlength]; rfl)
    simp only [hseal, hroom, List.append_assoc, aesSha256, ← hlength] at hencrypt
    exact hencrypt
  · intro pre room post hroom
    have hfill : room.length = (padding plaintext.length).length + MAC_LENGTH := by
      rw [List.length_append, hlength, aesEncryptCbcLength_eq] at hroom
      omega
    have hencrypt := AesSha256.encryptWithin_header hashes aes kdfInfo key pre header plaintext post
      hfill
    rwa [hseal, ← hlength, List.append_assoc] at hencrypt
  · intro pre post maxPlaintextLength hmax
    have hopen := AesSha256.opens_sealBody hashes haes kdfInfo key header plaintext
      (pre ++ (header ++ (ct ++ tag ++ post))) pre post maxPlaintextLength (by rw [hseal])
      (by rw [hlength] at hmax; exact hmax)
    simp only [hseal, hbody, List.append_assoc, aesSha256, ← hlength] at hopen
    exact hopen
  · intro pre post
    obtain ⟨rest, hopen⟩ := AesSha256.decryptWithin_header hashes aes kdfInfo key haes pre header
      plaintext post
    rw [hseal, ← hlength, List.append_assoc] at hopen
    exact ⟨rest, hopen⟩

/-- So with AES the identity. -/
theorem aesSha256_roundTrips_identity :
    ∃ ciphertext tag,
      RoundTrips .zero .identity [1] [2, 3] [4, 5] (List.replicate 16 7) ciphertext tag :=
  aesSha256_roundTrips .zero Aes256.identity_inverts [1] [2, 3] [4, 5] (List.replicate 16 7)

end Olm
