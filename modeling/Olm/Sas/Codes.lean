import Olm.CryptoAlgorithms.Hashes
import Olm.Sas.Calls
import Olm.Symbolic

/-!
# What the text of a code says

`olm_sas_calculate_mac_fixed_base64` encodes the authentication code from
an array of its own, and its text is the base64 of all of it. The two older
functions encode it over itself, and what the text is fixed by are the six
bytes of the code that are read before they are written over:
`tellsApart_iff`.
-/

namespace Olm

open Base64

namespace OlmSAS

/-- The authentication code that the text is made from. -/
def MacFunction.hmac (hashes : Hashes) (secret : Curve25519SharedSecret) (input info : Bytes) :
    MacFunction → FixedBytes SHA256_OUTPUT_LENGTH
  | .fixedBase64 => hashes.hmacSha256 (hashes.hkdfSha256 secret.val none info 32).val input
  | .plain => hashes.hmacSha256 (hashes.hkdfSha256 secret.val none info 32).val input
  | .longKdf => hashes.hmacSha256 (hashes.hkdfSha256 secret.val none info 256).val input

/-- Byte `i` of a code is read before it is written over. -/
def Survives (i : ℕ) : Prop := 4 * (i / 3) ≤ i

instance : DecidablePred Survives := fun i => inferInstanceAs (Decidable (4 * (i / 3) ≤ i))

/-- So six of the bytes are. -/
example : (List.range SHA256_OUTPUT_LENGTH).filter Survives = [0, 1, 2, 4, 5, 8] := by decide

/-- The text is the base64 of the code, or that of the code written over
itself. -/
theorem MacFunction.code_eq (hashes : Hashes) (secret : Curve25519SharedSecret) (input info : Bytes)
    (mac : MacFunction) :
    mac.code hashes secret input info =
      if mac = .fixedBase64 then encode (mac.hmac hashes secret input info).val
      else overlaidText (mac.hmac hashes secret input info).val := by
  cases mac with
  | fixedBase64 => rfl
  | plain => exact overlaid_eq _
  | longKdf => exact overlaid_eq _

/-- **When the texts tell the codes apart.** The text is the base64 of the code
for the one function that does not write over it, and for the other two only
where the characters happen to be the bytes that they replace. Two codes that
differ have different texts for that function, and for the other two exactly
if they differ in a byte that survives. -/
theorem tellsApart_iff (hashes : Hashes) {sas : OlmSAS} (hset : sas.theirKeySet = true)
    (mac : MacFunction) (input info input' info' : Bytes) {room room' : Bytes}
    (hroom : macLength ≤ room.length) (hroom' : macLength ≤ room'.length) :
    ∃ out out', mac.calculate hashes sas input info room = .ok (sas, some out) ∧
      mac.calculate hashes sas input' info' room' = .ok (sas, some out') ∧
      (out.take macLength = encode (mac.hmac hashes sas.secret input info).val ↔
        mac = .fixedBase64 ∨ ∀ i < SHA256_OUTPUT_LENGTH, ¬ Survives i →
          (encode (mac.hmac hashes sas.secret input info).val)[i]? =
            (mac.hmac hashes sas.secret input info).val[i]?) ∧
      ((mac.hmac hashes sas.secret input info ≠ mac.hmac hashes sas.secret input' info' →
          out.take macLength ≠ out'.take macLength) ↔
        mac = .fixedBase64 ∨
        mac.hmac hashes sas.secret input info = mac.hmac hashes sas.secret input' info' ∨
        ∃ i < SHA256_OUTPUT_LENGTH, Survives i ∧
          (mac.hmac hashes sas.secret input info).val[i]? ≠
            (mac.hmac hashes sas.secret input' info').val[i]?) := by
  obtain ⟨out, hout, htext⟩ : ∃ out, mac.calculate hashes sas input info room = .ok (sas, some out) ∧
      _ = _ := calculate_of_set mac hset hroom
  obtain ⟨out', hout', htext'⟩ : ∃ out, mac.calculate hashes sas input' info' room' =
      .ok (sas, some out) ∧ _ = _ := calculate_of_set mac hset hroom'
  refine ⟨out, out', hout, hout', ?_, ?_⟩
  all_goals
    rw [htext, MacFunction.code_eq]
  · generalize mac.hmac hashes sas.secret input info = code
    split
    · rename_i hfixed
      exact ⟨fun _ => Or.inl hfixed, fun _ => rfl⟩
    · rename_i hfixed
      rw [overlaidText_eq_encode_iff, FixedBytes.length_val, or_iff_right hfixed]
      refine forall_congr' fun i => forall_congr' fun _ => ?_
      rw [Survives, Nat.not_le]
  · rw [htext', MacFunction.code_eq]
    generalize mac.hmac hashes sas.secret input info = code
    generalize mac.hmac hashes sas.secret input' info' = code'
    split
    · rename_i hfixed
      exact ⟨fun _ => Or.inl hfixed, fun _ hne hsame => hne (Subtype.ext (encode_injective hsame))⟩
    · rename_i hfixed
      rw [or_iff_right hfixed, ne_eq, ne_eq,
        overlaidText_eq_iff _ _ (code.property.trans code'.property.symm), FixedBytes.length_val]
      constructor
      · intro h
        by_cases hsame : code = code'
        · exact Or.inl hsame
        · obtain ⟨i, hi⟩ := not_forall.mp (h hsame)
          rw [Classical.not_imp, Classical.not_imp] at hi
          exact Or.inr ⟨i, hi⟩
      · rintro (rfl | ⟨i, hlt, hsurvives, hne⟩) hdiffer hall
        · exact hdiffer rfl
        · exact hne (hall i hlt hsurvives)

/-- An object whose secret is zero. -/
def withKeySet : OlmSAS := { unset with theirKeySet := true }

theorem tellsApart_iff_truncating :
    ∃ out out',
      MacFunction.plain.calculate .truncating withKeySet [1] [] (List.replicate 43 0) =
        .ok (withKeySet, some out) ∧
      MacFunction.plain.calculate .truncating withKeySet [2] [] (List.replicate 50 0) =
        .ok (withKeySet, some out') ∧
      out.take macLength ≠ out'.take macLength := by
  obtain ⟨out, out', hout, hout', -, happart⟩ := tellsApart_iff .truncating
    (rfl : withKeySet.theirKeySet = true)
    .plain [1] [] [2] [] (show macLength ≤ (List.replicate 43 (0 : UInt8)).length by decide)
    (show macLength ≤ (List.replicate 50 (0 : UInt8)).length by decide)
  exact ⟨out, out', hout, hout', happart.mpr (Or.inr (Or.inr ⟨0, by decide, by decide, by decide⟩))
    (by decide)⟩

/-- A code of the library's own hash, where the fourth character of the base64 is not
the fourth byte. -/
theorem hmac_vendored_evaluates :
    (encode (MacFunction.plain.hmac .vendored withKeySet.secret [1] []).val)[3]? ≠
      (MacFunction.plain.hmac .vendored withKeySet.secret [1] []).val[3]? := by
  decide +kernel

/-- **Codes that differ in their last byte only**, and have one text; and a text that
is not the base64 of its code, under the library's own hash. -/
theorem not_tellsApart :
    (¬ ∀ (hashes : Hashes) (sas : OlmSAS) (mac : MacFunction)
      (input info input' info' room out out' : Bytes), sas.theirKeySet = true →
      mac.calculate hashes sas input info room = .ok (sas, some out) →
      mac.calculate hashes sas input' info' room = .ok (sas, some out') →
      mac.hmac hashes sas.secret input info ≠ mac.hmac hashes sas.secret input' info' →
      out.take macLength ≠ out'.take macLength) ∧
    ∃ out, MacFunction.plain.calculate .vendored withKeySet [1] [] (List.replicate 43 0) =
        .ok (withKeySet, some out) ∧
      out.take macLength ≠ encode (MacFunction.plain.hmac .vendored withKeySet.secret [1] []).val := by
  have hroom : macLength ≤ (List.replicate 43 (0 : UInt8)).length := by decide
  refine ⟨fun h => ?_, ?_⟩
  · obtain ⟨out, hout, htext⟩ : ∃ out, MacFunction.plain.calculate .truncating withKeySet
        (List.replicate 31 0) [] (List.replicate 43 0) = .ok (withKeySet, some out) ∧ _ = _ :=
      calculate_of_set .plain rfl hroom
    obtain ⟨out', hout', htext'⟩ : ∃ out, MacFunction.plain.calculate .truncating withKeySet
        (List.replicate 31 0 ++ [1]) [] (List.replicate 43 0) = .ok (withKeySet, some out) ∧ _ = _ :=
      calculate_of_set .plain rfl hroom
    refine h _ _ _ _ _ _ _ _ _ _ rfl hout hout' (by decide) ?_
    rw [htext, htext', MacFunction.code_eq, MacFunction.code_eq, if_neg (by decide), if_neg (by decide),
      overlaidText_eq_iff _ _ (by rw [FixedBytes.length_val, FixedBytes.length_val])]
    decide
  · obtain ⟨out, hout, htext⟩ : ∃ out, MacFunction.plain.calculate .vendored withKeySet [1] []
        (List.replicate 43 0) = .ok (withKeySet, some out) ∧ _ = _ :=
      calculate_of_set .plain rfl hroom
    refine ⟨out, hout, ?_⟩
    rw [htext, MacFunction.code_eq, if_neg (by decide), ne_eq, overlaidText_eq_encode_iff]
    intro hsame
    exact hmac_vendored_evaluates (hsame 3 (by rw [FixedBytes.length_val]; decide) (by decide))

end OlmSAS

end Olm
