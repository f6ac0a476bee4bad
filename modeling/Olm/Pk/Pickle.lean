import Olm.Pickle
import Olm.PickleEncoding
import Olm.Pk.Model

/-!
# Pickles of a decryption object

`olm_pickle_pk_decryption` and `olm_unpickle_pk_decryption`: a version and
the key pair. An object that is unpickled keeps what its `last_error` held,
and hands out its public key if it is given a buffer.
-/

namespace Olm

namespace OlmPkDecryption

/-- `PK_DECRYPTION_PICKLE_VERSION`. -/
def PK_DECRYPTION_PICKLE_VERSION : UInt32 := 1

/-- `pickle_length`. -/
def pickleLength (value : OlmPkDecryption) : ℕ :=
  pickleLengthUInt32 PK_DECRYPTION_PICKLE_VERSION + pickleLengthCurve25519KeyPair value.keyPair

/-- `pickle`. -/
def pickle (value : OlmPkDecryption) : Bytes :=
  pickleUInt32 PK_DECRYPTION_PICKLE_VERSION ++ pickleCurve25519KeyPair value.keyPair

/-- `unpickle`. -/
def unpickle : Unpickler OlmPkDecryption := fun value input =>
  match unpickleUInt32 0 input with
  | (_, none) => (value, none)
  | (pickleVersion, some input) =>
    if pickleVersion = 1 then
      Unpickler.field (·.keyPair) (fun s a => { s with keyPair := a }) unpickleCurve25519KeyPair
        value input
    else ({ value with lastError := .UNKNOWN_PICKLE_VERSION }, none)

variable (hashes : Hashes) (aes : Aes256)

/-- `olm_pickle_pk_decryption_length`. -/
def picklePkDecryptionLength (decryption : OlmPkDecryption) : ℕ :=
  encOutputLength decryption.pickleLength

/-- `olm_pickle_pk_decryption`: the buffer, and the length it returns. -/
def picklePkDecryption (decryption : OlmPkDecryption) (key pickled : Bytes) :
    Checked (OlmPkDecryption × Option (Bytes × ℕ)) :=
  if pickled.length < encOutputLength decryption.pickleLength then
    decryption.fail .OUTPUT_BUFFER_TOO_SMALL
  else do
    let pickled ← writeAt pickled (encOutputPos decryption.pickleLength) decryption.pickle
    let (pickled, length) ← encOutput hashes aes key pickled decryption.pickleLength
    .ok (decryption, some (pickled, length))

/-- `olm_unpickle_pk_decryption`, with or without a buffer for the public key:
the buffer, and the length it returns. -/
def unpicklePkDecryption (decryption : OlmPkDecryption) (key pickled : Bytes)
    (pubkey : Option Bytes) : Checked (OlmPkDecryption × Option (Option Bytes × ℕ)) :=
  if pubkey.any (fun pubkey => pubkey.length < pkKeyLength) then
    decryption.fail .OUTPUT_BUFFER_TOO_SMALL
  else do
    match ← encInput hashes aes key pickled with
    | (_, .error code) => decryption.fail code
    | (input, .ok rawLength) =>
      match unpickle decryption (input.take rawLength) with
      | (decryption, none) =>
        if decryption.lastError = .SUCCESS then decryption.fail .CORRUPTED_PICKLE
        else .ok (decryption, none)
      | (decryption, some (_ :: _)) => decryption.fail .PICKLE_EXTRA_DATA
      | (decryption, some []) =>
        match pubkey with
        | none => .ok (decryption, some (none, pickled.length))
        | some pubkey => do
          let (pubkey, _) ← encodeBase64 (.object decryption.keyPair.publicKey.val)
            CURVE25519_KEY_LENGTH pubkey 0
          .ok (decryption, some (some pubkey, pickled.length))

/-! ## Round trip -/

open Base64

theorem length_pickle (value : OlmPkDecryption) : value.pickle.length = value.pickleLength := by
  rw [pickle, pickleLength, List.length_append, length_pickleUInt32, length_pickleCurve25519KeyPair]

/-- **A key pair that was pickled is unpickled**, over any object. -/
theorem reads_unpickle (target value : OlmPkDecryption) :
    unpickle.Reads target value.pickle { target with keyPair := value.keyPair } := by
  intro rest
  rw [unpickle, pickle, List.append_assoc, reads_unpickleUInt32]
  have hkeyPair : (Unpickler.field (·.keyPair) (fun s a => { s with keyPair := a })
      unpickleCurve25519KeyPair).Reads target (pickleCurve25519KeyPair value.keyPair)
      { target with keyPair := value.keyPair } :=
    .field _ (reads_unpickleCurve25519KeyPair target.keyPair value.keyPair)
  exact hkeyPair rest

theorem length_encText_pickle (decryption : OlmPkDecryption) (key : Bytes) :
    (encText hashes aes key decryption.pickle).length = decryption.picklePkDecryptionLength := by
  rw [encText_length, length_pickle, picklePkDecryptionLength]

/-- The text that a decryption object is pickled to. -/
theorem picklePkDecryption_eq (decryption : OlmPkDecryption) (key : Bytes) {room : Bytes}
    (hroom : decryption.picklePkDecryptionLength ≤ room.length) :
    decryption.picklePkDecryption hashes aes key room =
      .ok (decryption, some (encText hashes aes key decryption.pickle ++
        room.drop decryption.picklePkDecryptionLength, decryption.picklePkDecryptionLength)) := by
  have henc := encOutput_eq hashes aes key decryption.pickle
    (by rw [length_pickle]; exact hroom : encOutputLength decryption.pickle.length ≤ room.length)
  obtain ⟨written, hwrite, henc⟩ := Checked.bind_eq_ok.mp henc
  rw [length_pickle] at hwrite henc
  unfold picklePkDecryptionLength at hroom ⊢
  rw [picklePkDecryption, if_neg (by omega), hwrite, Checked.ok_bind, henc, Checked.ok_bind]

/-- **The round trip**: what was pickled is unpickled with the same key over
any object, with or without a buffer for the public key. -/
theorem unpicklePkDecryption_encText {aes : Aes256} (haes : aes.Inverts)
    (target decryption : OlmPkDecryption) (key : Bytes) {pubkey : Option Bytes}
    (hpubkey : ∀ room ∈ pubkey, pkKeyLength ≤ room.length) :
    target.unpicklePkDecryption hashes aes key (encText hashes aes key decryption.pickle) pubkey =
      .ok ({ target with keyPair := decryption.keyPair },
        some (pubkey.map (fun room => encode decryption.keyPair.publicKey.val ++
          room.drop pkKeyLength), decryption.picklePkDecryptionLength)) := by
  have hsize : aesEncryptCbcLength decryption.pickle.length + MAC_LENGTH < 2 ^ SIZE_WIDTH := by
    rw [length_pickle]
    show aesEncryptCbcLength 68 + MAC_LENGTH < 2 ^ SIZE_WIDTH
    decide
  obtain ⟨rest, hinput⟩ := encInput_encText hashes haes key decryption.pickle hsize
  have hread := reads_unpickle target decryption []
  rw [List.append_nil] at hread
  have hany : pubkey.any (fun room => room.length < pkKeyLength) = false := by
    cases pubkey with
    | none => rfl
    | some room =>
      have hle := hpubkey room rfl
      simpa using hle
  have hlength := length_encText_pickle hashes aes decryption key
  rw [unpicklePkDecryption, hany, if_neg Bool.false_ne_true, hinput, Checked.ok_bind]
  dsimp only
  rw [List.take_left, hread, hlength]
  cases pubkey with
  | none => rfl
  | some room =>
    dsimp only
    rw [encodeBase64_object_into (FixedBytes.length_val _) (hpubkey room rfl), Checked.ok_bind]
    rfl

end OlmPkDecryption

end Olm
