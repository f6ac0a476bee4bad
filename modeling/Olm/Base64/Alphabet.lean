import Olm.Base64.Layouts

/-!
# Texts that are not base64

`DECODE_BASE64` has the marker `E` for a byte that is no digit, and
`decode_base64` never looks for it: it is folded into the bytes like any
other value. The table is read at the low seven bits of a byte, and the eighth is
not looked at either. So a text is refused for its length alone
(`exists_decodesAlike_iff`), and every text has another that decodes to the
same bytes (`exists_decodesAlike_of_ne_nil`). Among texts that are base64 a
character is lost only where it carries bits that are left over.
-/

namespace Olm

open Base64

/-- A text of base64 without padding. -/
def IsBase64 (text : Bytes) : Prop := text.length % 4 ≠ 1 ∧ ∀ c ∈ text, c ∈ ENCODE_BASE64

instance (text : Bytes) : Decidable (IsBase64 text) := inferInstanceAs (Decidable (_ ∧ _))

/-- A place of a text of `n` characters none of whose bits is discarded: any
but the last where the groups of four do not come out even. -/
def IsWhole (n i : ℕ) : Prop := i + 1 < n ∨ i + 1 = n ∧ n % 4 = 0

/-- A pair of texts that differ in a character of which no bit is discarded. -/
def DifferInWhole (text text' : Bytes) : Prop :=
  text.length = text'.length ∧ ∃ i, IsWhole text.length i ∧ text[i]? ≠ text'[i]?

theorem decodeBase64Length_eq_none {n : ℕ} : decodeBase64Length n = none ↔ n % 4 = 1 := by
  unfold decodeBase64Length
  split
  · rename_i h
    exact iff_of_true rfl h
  · rename_i h
    exact iff_of_false (Option.some_ne_none _) h

/-! ## What is accepted -/

/-- What a text decodes to, in every layout. -/
theorem decodesAlike_iff {text raw : Bytes} :
    DecodesAlike text raw ↔ text.length % 4 ≠ 1 ∧ raw = decode text := by
  cases hlength : decodeBase64Length text.length with
  | none =>
    refine iff_of_false (fun h => ?_) fun h => h.1 (decodeBase64Length_eq_none.mp hlength)
    have hdecode := h.decodesWithin [] []
    simp only [decodeBase64, hlength, Except.ok.injEq, Prod.mk.injEq, reduceCtorEq,
      and_false] at hdecode
  | some k =>
    have hne : text.length % 4 ≠ 1 := fun h => by
      rw [decodeBase64Length_eq_none.mpr h] at hlength
      cases hlength
    have halike := decodesAlike_decode hlength
    constructor
    · intro h
      have hsame := (h.decodesWithin [] []).symm.trans (halike.decodesWithin [] [])
      simp only [List.nil_append, Except.ok.injEq, Prod.mk.injEq, Option.some.injEq] at hsame
      exact ⟨hne, List.append_inj_left hsame.1 hsame.2⟩
    · rintro ⟨-, rfl⟩
      exact halike

/-- **A text is refused for its length alone.** -/
theorem exists_decodesAlike_iff {text : Bytes} :
    (∃ raw, DecodesAlike text raw) ↔ text.length % 4 ≠ 1 := by
  constructor
  · rintro ⟨raw, h⟩
    exact (decodesAlike_iff.mp h).1
  · intro h
    exact ⟨decode text, decodesAlike_iff.mpr ⟨h, rfl⟩⟩

/-! ## Texts that are base64 -/

namespace Base64

/-- A character of the alphabet is the digit of its value. -/
theorem value_of_mem {c : UInt8} (h : c ∈ ENCODE_BASE64) : value c < 64 ∧ digit (value c) = c := by
  obtain ⟨v, hlt, rfl⟩ := List.getElem_of_mem h
  have hdigit : digit v = ENCODE_BASE64[v] := List.getD_eq_getElem _ _ hlt
  have hv : v < 64 := hlt
  rw [← hdigit, value_digit hv]
  exact ⟨hv, rfl⟩

/-- A group of four digits is read back. -/
theorem encode_decode_four {d e f g : UInt8} (hd : value d < 64) (he : value e < 64)
    (hf : value f < 64) (hg : value g < 64) (rest : Bytes) :
    encode (decode (d :: e :: f :: g :: rest)) =
      [digit (value d), digit (value e), digit (value f), digit (value g)] ++
        encode (decode rest) := by
  simp only [decode, shiftLeft_six_or he, shiftLeft_six_or hf, shiftLeft_six_or hg, encode,
    List.cons_append, List.nil_append, shiftLeft_or_toNat, Nat.shiftRight_eq_div_pow, and_63]
  simp only [UInt8.toNat_ofNat']
  refine congrArg₂ List.cons (congrArg digit (by omega)) ?_
  refine congrArg₂ List.cons (congrArg digit (by omega)) ?_
  refine congrArg₂ List.cons (congrArg digit (by omega)) ?_
  exact congrArg₂ List.cons (congrArg digit (by omega)) rfl

/-- Three digits, of which the last loses two bits. -/
theorem encode_decode_three {d e f : UInt8} (hd : value d < 64) (he : value e < 64)
    (hf : value f < 64) :
    ∃ c, encode (decode [d, e, f]) = [digit (value d), digit (value e), c] := by
  simp only [decode, shiftLeft_six_or he, shiftLeft_six_or hf, encode, shiftLeft_or_toNat,
    Nat.shiftRight_eq_div_pow, and_63]
  simp only [UInt8.toNat_ofNat', Nat.shiftLeft_eq]
  refine ⟨_, congrArg₂ List.cons (congrArg digit ?_)
    (congrArg₂ List.cons (congrArg digit ?_) rfl)⟩
  · omega
  · omega

/-- Two digits, of which the last loses four. -/
theorem encode_decode_two {d e : UInt8} (hd : value d < 64) (he : value e < 64) :
    ∃ c, encode (decode [d, e]) = [digit (value d), c] := by
  simp only [decode, shiftLeft_six_or he, encode, Nat.shiftRight_eq_div_pow, and_63]
  simp only [UInt8.toNat_ofNat', Nat.shiftLeft_eq]
  refine ⟨_, congrArg₂ List.cons (congrArg digit ?_) rfl⟩
  omega

/-- **Encoding what a text decodes to gives back its characters**, but for one
that loses bits. -/
theorem encode_decode_getElem? {text : Bytes} (h : IsBase64 text) {i : ℕ}
    (hi : IsWhole text.length i) : (encode (decode text))[i]? = text[i]? := by
  obtain ⟨hlength, hmem⟩ := h
  induction text using decode.induct generalizing i with
  | case1 d e f g rest ih =>
    simp only [List.forall_mem_cons] at hmem
    obtain ⟨hd, he, hf, hg, hrest⟩ := hmem
    obtain ⟨hd, hd'⟩ := value_of_mem hd
    obtain ⟨he, he'⟩ := value_of_mem he
    obtain ⟨hf, hf'⟩ := value_of_mem hf
    obtain ⟨hg, hg'⟩ := value_of_mem hg
    rw [encode_decode_four hd he hf hg, hd', he', hf', hg']
    match i with
    | 0 | 1 | 2 | 3 => rfl
    | i + 4 =>
      simp only [List.length_cons, IsWhole] at hlength hi
      exact ih (by unfold IsWhole; omega) (by omega) hrest
  | case2 d e f =>
    simp only [List.forall_mem_cons] at hmem
    obtain ⟨hd, he, hf, -⟩ := hmem
    obtain ⟨hd, hd'⟩ := value_of_mem hd
    obtain ⟨he, he'⟩ := value_of_mem he
    obtain ⟨c, hc⟩ := encode_decode_three hd he (value_of_mem hf).1
    rw [hc, hd', he']
    simp only [List.length_cons, List.length_nil, IsWhole] at hi
    match i with
    | 0 | 1 => rfl
    | i + 2 => omega
  | case3 d e =>
    simp only [List.forall_mem_cons] at hmem
    obtain ⟨hd, he, -⟩ := hmem
    obtain ⟨hd, hd'⟩ := value_of_mem hd
    obtain ⟨c, hc⟩ := encode_decode_two hd (value_of_mem he).1
    rw [hc, hd']
    simp only [List.length_cons, List.length_nil, IsWhole] at hi
    match i with
    | 0 => rfl
    | i + 1 => omega
  | case4 text hfour hthree htwo =>
    match text with
    | [] => rfl
    | [d] => exact absurd rfl hlength
    | [d, e] => exact absurd rfl (htwo d e)
    | [d, e, f] => exact absurd rfl (hthree d e f)
    | d :: e :: f :: g :: rest => exact absurd rfl (hfour d e f g rest)

end Base64

/-- **Texts that are base64 decode to different bytes** if they differ in a
character of which no bit is discarded. -/
theorem IsBase64.decode_ne {text text' : Bytes} (h : IsBase64 text) (h' : IsBase64 text')
    (hdiffer : DifferInWhole text text') : decode text ≠ decode text' := by
  obtain ⟨hlength, i, hi, hne⟩ := hdiffer
  intro hsame
  have htext := encode_decode_getElem? h hi
  rw [hlength] at hi
  rw [hsame, encode_decode_getElem? h' hi] at htext
  exact hne htext.symm

/-! ## Texts that are not -/

/-- The eighth bit of a byte is not looked at. -/
theorem Base64.value_xor (c : UInt8) : value (c ^^^ 0x80) = value c := by
  have hlow : (c ^^^ 0x80) &&& 0x7F = c &&& 0x7F := by
    rw [← UInt8.toNat_inj, UInt8.toNat_and, UInt8.toNat_xor, Nat.and_xor_distrib_right,
      UInt8.toNat_and]
    exact Nat.xor_zero _
  rw [value, value, hlow]

theorem Base64.decode_xor (c : UInt8) (rest : Bytes) :
    decode ((c ^^^ 0x80) :: rest) = decode (c :: rest) := by
  match rest with
  | [] | [_] | [_, _] | _ :: _ :: _ :: _ => simp only [decode, value_xor]

/-- **Every text that is accepted decodes like another one**, which differs
from it in the first character. -/
theorem exists_decodesAlike_of_ne_nil {text raw : Bytes} (hne : text ≠ [])
    (h : DecodesAlike text raw) :
    ∃ text', DifferInWhole text text' ∧ DecodesAlike text' raw := by
  obtain ⟨c, rest, rfl⟩ := List.exists_cons_of_ne_nil hne
  obtain ⟨hlength, rfl⟩ := decodesAlike_iff.mp h
  refine ⟨(c ^^^ 0x80) :: rest, ⟨rfl, 0, ?_, ?_⟩,
    decodesAlike_iff.mpr ⟨hlength, (decode_xor c rest).symm⟩⟩
  · simp only [List.length_cons, IsWhole] at hlength ⊢
    omega
  · simp only [List.getElem?_cons_zero, ne_eq, Option.some.injEq]
    intro hsame
    have hzero : (0x80 : UInt8) = 0 := by
      rw [← UInt8.xor_right_inj c, ← hsame, UInt8.xor_zero]
    cases hzero

end Olm
