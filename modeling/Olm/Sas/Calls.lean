import Olm.Base64.Overlaid
import Olm.Sas.Model

/-!
# What a call does to an object

One lemma for each function of `src/sas.c`, and one for any call
(`call_effect`). The code of a message is a function of the secret and of
what is asked for, also where it is encoded over itself: the buffer it is
built in does not matter (`putInPlace_eq`).
-/

namespace Olm

open Base64

namespace OlmSAS

variable {curve : Curve25519} {hashes : Hashes}

/-! ## What the calls do -/

variable {sas sas' : OlmSAS}

theorem createSas_of_le (curve : Curve25519) (sas : OlmSAS) {random : Bytes}
    (h : createSasRandomLength ≤ random.length) :
    ∃ a : FixedBytes CURVE25519_KEY_LENGTH, a.val = random.take CURVE25519_KEY_LENGTH ∧
      sas.createSas curve random =
        .ok ({ sas with curve25519Key := curve.generateKey a, theirKeySet := false }, some ()) := by
  have hle : 0 + CURVE25519_KEY_LENGTH ≤ random.length := by
    unfold createSasRandomLength at h
    omega
  obtain ⟨a, hload, ha⟩ := loadArray_of_le hle
  refine ⟨a, ha, ?_⟩
  rw [createSas, if_neg (by omega), hload, Checked.ok_bind]

theorem getPubkey_of_le (sas : OlmSAS) {pubkey : Bytes} (h : pubkeyLength ≤ pubkey.length) :
    sas.getPubkey pubkey =
      .ok (sas, some (encode sas.curve25519Key.publicKey.val ++ pubkey.drop pubkeyLength)) := by
  rw [getPubkey, if_neg (by omega), encodeBase64_object_into (FixedBytes.length_val _) h,
    Checked.ok_bind]
  rfl

/-- The published key, in a buffer of any size. -/
theorem take_pubkey (sas : OlmSAS) (rest : Bytes) :
    (encode sas.curve25519Key.publicKey.val ++ rest).take pubkeyLength =
      encode sas.curve25519Key.publicKey.val :=
  List.take_left' (by rw [encode_length, FixedBytes.length_val]; rfl)

/-- **Setting their key**: it fails and leaves the object as it is but for the
error, or it takes the first bytes that the text decodes to for a key. -/
theorem setTheirKey_outcome (curve : Curve25519) (sas : OlmSAS) (theirKey : Bytes) :
    (∃ code, sas.setTheirKey curve theirKey = sas.fail code) ∨
    ∃ theirs : Curve25519PublicKey, theirs.val = (decode theirKey).take CURVE25519_KEY_LENGTH ∧
      sas.setTheirKey curve theirKey = .ok ({ sas with
        secret := curve.sharedSecret sas.curve25519Key theirs, theirKeySet := true }, some ()) := by
  unfold setTheirKey
  split
  · exact .inl ⟨_, rfl⟩
  · rename_i hlen
    cases hdecode : decodeBase64Length theirKey.length with
    | none =>
      refine .inl ⟨.INVALID_BASE64, ?_⟩
      simp only [decodeBase64, hdecode, Checked.ok_bind]
    | some k =>
      right
      obtain ⟨rest, hin⟩ := decodeBase64_within_of_length hdecode
      have hk := length_decode hdecode
      have hle : CURVE25519_KEY_LENGTH ≤ (decode theirKey).length := by
        unfold decodeBase64Length at hdecode
        unfold pubkeyLength encodeBase64Length at hlen
        split at hdecode
        · cases hdecode
        · rw [Option.some.injEq] at hdecode
          omega
      have hle' : 0 + CURVE25519_KEY_LENGTH ≤ (decode theirKey ++ rest).length := by
        rw [List.length_append]
        omega
      obtain ⟨theirs, hload, hval⟩ := loadArray_of_le hle'
      rw [List.drop_zero, List.take_append_of_le_length hle] at hval
      refine ⟨theirs, hval, ?_⟩
      rw [hin, Checked.ok_bind]
      dsimp only
      rw [hload, Checked.ok_bind]

/-- A key that was published can be set. -/
theorem setTheirKey_encode (sas : OlmSAS) (theirs : Curve25519PublicKey) :
    sas.setTheirKey curve (encode theirs.val) = .ok ({ sas with
      secret := curve.sharedSecret sas.curve25519Key theirs, theirKeySet := true }, some ()) := by
  have hlen : (encode theirs.val).length = pubkeyLength := by
    rw [encode_length, FixedBytes.length_val]
    rfl
  obtain ⟨rest, hin⟩ := decodeBase64_within theirs.val
  rw [setTheirKey, if_neg (by omega), hin, Checked.ok_bind]
  dsimp only
  have hload : loadArray CURVE25519_KEY_LENGTH (theirs.val ++ rest) 0 = .ok theirs :=
    loadArray_append [] theirs rest
  rw [hload, Checked.ok_bind]

theorem generateBytes_of_set {info : Bytes} {n : ℕ} (hset : sas.theirKeySet = true) :
    sas.generateBytes hashes info n =
      .ok (sas, some (hashes.hkdfSha256 sas.secret.val none info n).val) := by
  rw [generateBytes, hset]
  rfl

theorem generateBytes_of_unset {info : Bytes} {n : ℕ} (hset : sas.theirKeySet = false) :
    sas.generateBytes hashes info n = sas.fail .SAS_THEIR_KEY_NOT_SET := by
  rw [generateBytes, hset]
  rfl

/-! ## Codes -/

/-- What the encoder makes of a code that it overtakes. -/
def overlaid (code : FixedBytes SHA256_OUTPUT_LENGTH) : Bytes :=
  match putInPlace code (List.replicate macLength 0) with
  | .ok mac => mac.take macLength
  | .error _ => []

/-- It is written over the front of the buffer. -/
theorem putInPlace_of_le (code : FixedBytes SHA256_OUTPUT_LENGTH) {room : Bytes}
    (h : macLength ≤ room.length) :
    putInPlace code room = .ok (overlaidText code.val ++ room.drop macLength) := by
  have hfit : SHA256_OUTPUT_LENGTH ≤ macLength := by decide
  have hlength : encodeBase64Length SHA256_OUTPUT_LENGTH = macLength := rfl
  have hcode := code.property
  have hwrite := writeAt_front [] (show code.val.length ≤ room.length by omega)
  have htext := encodeBase64_overlaid code.val (room.drop code.val.length) (by
    rw [hcode, List.length_append, List.length_drop, hcode]
    omega)
  have hdrop : (code.val ++ room.drop code.val.length).drop macLength = room.drop macLength := by
    rw [List.drop_append, List.drop_of_length_le (by omega), List.nil_append, List.drop_drop]
    congr 1
    omega
  simp only [List.nil_append, List.length_nil] at hwrite
  rw [hcode] at hwrite htext hdrop
  rw [putInPlace, hwrite, Checked.ok_bind, htext, Checked.ok_bind, ← hdrop]
  rfl

theorem length_overlaidText (code : FixedBytes SHA256_OUTPUT_LENGTH) :
    (overlaidText code.val).length = macLength := by
  rw [Base64.overlaidText_length, code.property]
  rfl

theorem overlaid_eq (code : FixedBytes SHA256_OUTPUT_LENGTH) :
    overlaid code = overlaidText code.val := by
  have hle : macLength ≤ (List.replicate macLength (0 : UInt8)).length := by
    rw [List.length_replicate]
  rw [overlaid, putInPlace_of_le code hle]
  exact List.take_left' (length_overlaidText code)

/-- **The buffer does not matter** to a code that is encoded in place. -/
theorem putInPlace_eq (code : FixedBytes SHA256_OUTPUT_LENGTH) {room : Bytes}
    (h : macLength ≤ room.length) :
    ∃ mac, putInPlace code room = .ok mac ∧ mac.take macLength = overlaid code :=
  ⟨_, putInPlace_of_le code h, by rw [overlaid_eq, List.take_left' (length_overlaidText code)]⟩

theorem putFromTemp_eq (code : FixedBytes SHA256_OUTPUT_LENGTH) {room : Bytes}
    (h : macLength ≤ room.length) :
    ∃ mac, putFromTemp code room = .ok mac ∧ mac.take macLength = encode code.val := by
  have hlen : (encode code.val).length = macLength := by
    rw [encode_length, FixedBytes.length_val]
    rfl
  refine ⟨encode code.val ++ room.drop macLength, ?_, List.take_left' hlen⟩
  rw [putFromTemp, encodeBase64_object_into (FixedBytes.length_val _) h, Checked.ok_bind]
  rfl

/-- The text of a code: a function of the secret and of what is asked for. -/
def MacFunction.code (hashes : Hashes) (secret : Curve25519SharedSecret) (input info : Bytes) :
    MacFunction → Bytes
  | .fixedBase64 =>
    encode (hashes.hmacSha256 (hashes.hkdfSha256 secret.val none info 32).val input).val
  | .plain => overlaid (hashes.hmacSha256 (hashes.hkdfSha256 secret.val none info 32).val input)
  | .longKdf => overlaid (hashes.hmacSha256 (hashes.hkdfSha256 secret.val none info 256).val input)

theorem calculateMacWith_of_put {keyLength : ℕ} {input info room text : Bytes}
    {put : FixedBytes SHA256_OUTPUT_LENGTH → Bytes → Checked Bytes}
    (hset : sas.theirKeySet = true) (hroom : macLength ≤ room.length)
    (hput : ∃ mac, put (hashes.hmacSha256
      (hashes.hkdfSha256 sas.secret.val none info keyLength).val input) room = .ok mac ∧
        mac.take macLength = text) :
    ∃ out, calculateMacWith hashes keyLength put sas input info room = .ok (sas, some out) ∧
      out.take macLength = text := by
  obtain ⟨mac, hmac, htext⟩ := hput
  refine ⟨mac, ?_, htext⟩
  rw [calculateMacWith, if_neg (by omega), hset, Bool.not_true, if_neg Bool.false_ne_true]
  dsimp only
  rw [hmac, Checked.ok_bind]

/-- **The three functions for a code** use the secret, and nothing else of
the object. -/
theorem calculate_of_set (mac : MacFunction) {input info room : Bytes}
    (hset : sas.theirKeySet = true) (hroom : macLength ≤ room.length) :
    ∃ out, mac.calculate hashes sas input info room = .ok (sas, some out) ∧
      out.take macLength = mac.code hashes sas.secret input info := by
  cases mac with
  | fixedBase64 => exact calculateMacWith_of_put hset hroom (putFromTemp_eq _ hroom)
  | plain => exact calculateMacWith_of_put hset hroom (putInPlace_eq _ hroom)
  | longKdf => exact calculateMacWith_of_put hset hroom (putInPlace_eq _ hroom)

/-- Without a secret there is no code. -/
theorem calculate_of_unset (mac : MacFunction) {input info room : Bytes}
    (hset : sas.theirKeySet = false) (hroom : macLength ≤ room.length) :
    mac.calculate hashes sas input info room = sas.fail .SAS_THEIR_KEY_NOT_SET := by
  have hfail {keyLength : ℕ} {put : FixedBytes SHA256_OUTPUT_LENGTH → Bytes → Checked Bytes} :
      calculateMacWith hashes keyLength put sas input info room =
        sas.fail .SAS_THEIR_KEY_NOT_SET := by
    rw [calculateMacWith, if_neg (by omega), hset]
    rfl
  cases mac <;> exact hfail

/-- What the caller of a function for a code gets. -/
theorem calculate_outcome (hashes : Hashes) (sas : OlmSAS) (mac : MacFunction)
    (input info room : Bytes) :
    (∃ code, mac.calculate hashes sas input info room = sas.fail code) ∨
    ∃ out, mac.calculate hashes sas input info room = .ok (sas, some out) := by
  by_cases hroom : macLength ≤ room.length
  · cases hset : sas.theirKeySet with
    | false => exact .inl ⟨_, calculate_of_unset mac hset hroom⟩
    | true =>
      obtain ⟨out, hout, -⟩ := calculate_of_set mac hset hroom
      exact .inr ⟨out, hout⟩
  · have hfail {keyLength : ℕ} {put : FixedBytes SHA256_OUTPUT_LENGTH → Bytes → Checked Bytes} :
        calculateMacWith hashes keyLength put sas input info room =
          sas.fail .OUTPUT_BUFFER_TOO_SMALL := if_pos (Nat.lt_of_not_le hroom)
    exact .inl ⟨.OUTPUT_BUFFER_TOO_SMALL, by cases mac <;> exact hfail⟩

/-! ## One step -/

/-- What one call can do to an object. -/
inductive Effect (curve : Curve25519) (sas : OlmSAS) :
    Call → OlmSAS → Except OlmErrorCode Bytes → Prop
  | olmSas : Effect curve sas .olmSas unset (.ok [])
  | clearSas : Effect curve sas .clearSas unset (.ok [])
  | createSas {random : Bytes} (a : FixedBytes CURVE25519_KEY_LENGTH)
      (ha : a.val = random.take CURVE25519_KEY_LENGTH) :
      Effect curve sas (.createSas random)
        { sas with curve25519Key := curve.generateKey a, theirKeySet := false } (.ok [])
  | setTheirKey {theirKey : Bytes} (theirs : Curve25519PublicKey)
      (htheirs : theirs.val = (decode theirKey).take CURVE25519_KEY_LENGTH) :
      Effect curve sas (.setTheirKey theirKey) { sas with
        secret := curve.sharedSecret sas.curve25519Key theirs, theirKeySet := true } (.ok [])
  | getPubkey {pubkey rest : Bytes} :
      Effect curve sas (.getPubkey pubkey) sas
        (.ok (encode sas.curve25519Key.publicKey.val ++ rest))
  | generateBytes {info : Bytes} {n : ℕ} {out : Bytes} :
      Effect curve sas (.generateBytes info n) sas (.ok out)
  | calculateMac {mac : MacFunction} {input info room : Bytes} {out : Bytes} :
      Effect curve sas (.calculateMac mac input info room) sas (.ok out)
  | fail {request : Call} (code : OlmErrorCode)
      (h : request ≠ .olmSas ∧ request ≠ .clearSas) :
      Effect curve sas request { sas with lastError := code } (.error code)

theorem report_fail {α : Type} (f : α → Bytes) (sas : OlmSAS) (code : OlmErrorCode) :
    report lastError f (sas.fail code) = .ok ({ sas with lastError := code }, .error code) := rfl

theorem report_some {α : Type} (f : α → Bytes) (sas : OlmSAS) (a : α) :
    report lastError f (.ok (sas, some a)) = .ok (sas, .ok (f a)) := rfl

/-- **What a call does**: it succeeds in one of seven ways, or leaves an
error. -/
theorem call_effect {request : Call} {reply : Except OlmErrorCode Bytes}
    (h : sas.call curve hashes request = .ok (sas', reply)) :
    Effect curve sas request sas' reply := by
  unfold call at h
  cases request with
  | olmSas =>
    cases h
    exact .olmSas
  | clearSas =>
    cases h
    exact .clearSas
  | createSas random =>
    by_cases hlen : createSasRandomLength ≤ random.length
    · obtain ⟨a, ha, hcreate⟩ := sas.createSas_of_le curve hlen
      simp only [hcreate, report_some] at h
      cases h
      exact .createSas a ha
    · simp only [OlmSAS.createSas, if_pos (Nat.lt_of_not_le hlen), report_fail] at h
      cases h
      exact .fail _ ⟨nofun, nofun⟩
  | getPubkey pubkey =>
    by_cases hlen : pubkeyLength ≤ pubkey.length
    · simp only [getPubkey_of_le sas hlen, report_some] at h
      cases h
      exact .getPubkey
    · simp only [OlmSAS.getPubkey, if_pos (Nat.lt_of_not_le hlen), report_fail] at h
      cases h
      exact .fail _ ⟨nofun, nofun⟩
  | setTheirKey theirKey =>
    obtain ⟨code, hfail⟩ | ⟨theirs, htheirs, hset⟩ := sas.setTheirKey_outcome curve theirKey
    · simp only [hfail, report_fail] at h
      cases h
      exact .fail _ ⟨nofun, nofun⟩
    · simp only [hset, report_some] at h
      cases h
      exact .setTheirKey theirs htheirs
  | generateBytes info n =>
    cases hset : sas.theirKeySet with
    | false =>
      simp only [generateBytes_of_unset hset, report_fail] at h
      cases h
      exact .fail _ ⟨nofun, nofun⟩
    | true =>
      simp only [generateBytes_of_set hset, report_some] at h
      cases h
      exact .generateBytes
  | calculateMac mac input info room =>
    obtain ⟨code, hfail⟩ | ⟨out, hout⟩ := sas.calculate_outcome hashes mac input info room
    · simp only [hfail, report_fail] at h
      cases h
      exact .fail _ ⟨nofun, nofun⟩
    · simp only [hout, report_some] at h
      cases h
      exact .calculateMac

end OlmSAS

end Olm
