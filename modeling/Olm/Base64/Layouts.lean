import Olm.Base64.RoundTrip

/-!
# Base64 in every layout

The library encodes what lies at the end of the output buffer and decodes
over the input. The loops then read a buffer that they write: encoding is
four bytes further for every three that it has read, and starts far enough
ahead; decoding falls back. Either way the result is that of separate
buffers (`base64_layouts`).
-/

namespace Olm

open Base64

/-- `text` decodes to the bytes, into a buffer of its own and over itself, with
nothing else changed in front or behind. -/
structure DecodesAlike (text raw : Bytes) : Prop where
  decodes (pre old post : Bytes) (hold : old.length = raw.length) :
    decodeBase64 (.object text) text.length (pre ++ (old ++ post)) pre.length =
      .ok (pre ++ (raw ++ post), some raw.length)
  decodesWithin (pre post : Bytes) :
    decodeBase64 (.within pre.length) text.length (pre ++ (text ++ post)) pre.length =
      .ok (pre ++ (raw ++ (text ++ post).drop raw.length), some raw.length)

/-- And `text` is what the bytes are encoded to. -/
structure Layouts (raw text : Bytes) : Prop extends DecodesAlike text raw where
  length : text.length = encodeBase64Length raw.length
  alphabet : ∀ c ∈ text, c ∈ ENCODE_BASE64
  encodes (pre old post : Bytes) (hold : old.length = text.length) :
    encodeBase64 (.object raw) raw.length (pre ++ (old ++ post)) pre.length =
      .ok (pre ++ (text ++ post), text.length)
  /-- The input is behind a gap, and its end no nearer than that of the output. -/
  encodesWithin (pre gap post : Bytes) (hgap : text.length ≤ gap.length + raw.length) :
    encodeBase64 (.within (pre.length + gap.length)) raw.length (pre ++ (gap ++ (raw ++ post)))
        pre.length =
      .ok (pre ++ (text ++ (gap ++ (raw ++ post)).drop text.length), text.length)

theorem Base64.digit_mem {v : ℕ} (h : v < 64) : digit v ∈ ENCODE_BASE64 := by
  have hlt : v < ENCODE_BASE64.length := by rwa [length_ENCODE_BASE64]
  rw [digit, List.getD_eq_getElem _ _ hlt]
  exact List.getElem_mem hlt

/-- Only characters of the alphabet are written. -/
theorem Base64.mem_encode (raw : Bytes) : ∀ c ∈ encode raw, c ∈ ENCODE_BASE64 := by
  induction raw using encode.induct with
  | case1 => exact fun c hc => absurd hc List.not_mem_nil
  | case2 a =>
    have ha := a.toNat_lt
    simp only [encode, and_63, Nat.shiftRight_eq_div_pow, Nat.shiftLeft_eq, List.forall_mem_cons]
    exact ⟨digit_mem (by omega), digit_mem (by omega), fun c hc => absurd hc List.not_mem_nil⟩
  | case3 a b =>
    have ha := a.toNat_lt
    have hb := b.toNat_lt
    simp only [encode, and_63, shiftLeft_or_toNat, Nat.shiftRight_eq_div_pow, List.forall_mem_cons]
    simp only [Nat.shiftLeft_eq]
    exact ⟨digit_mem (by omega), digit_mem (by omega), digit_mem (by omega),
      fun c hc => absurd hc List.not_mem_nil⟩
  | case4 a b c rest ih =>
    have ha := a.toNat_lt
    have hb := b.toNat_lt
    have hc := c.toNat_lt
    simp only [encode, and_63, shiftLeft_or_toNat, Nat.shiftRight_eq_div_pow, List.cons_append,
      List.nil_append, List.forall_mem_cons]
    exact ⟨digit_mem (by omega), digit_mem (by omega), digit_mem (by omega), digit_mem (by omega), ih⟩

/-- A text that is not refused for its length decodes alike. -/
theorem decodesAlike_decode {text : Bytes} {k : ℕ} (h : decodeBase64Length text.length = some k) :
    DecodesAlike text (decode text) := by
  have hlength := length_decode h
  constructor
  · intro pre old post hold
    rw [decodeBase64_at pre post (by rw [h, hold, hlength]), hold]
  · intro pre post
    rw [decodeBase64_over pre post h, hlength]

/-- What is encoded is read back, in every layout. -/
theorem layouts_encode (raw : Bytes) : Layouts raw (encode raw) := by
  have hlength := encode_length raw
  have hdecode : decodeBase64Length (encode raw).length = some raw.length := by
    rw [hlength, decodeBase64Length_encodeBase64Length]
  have halike := decodesAlike_decode hdecode
  rw [decode_encode] at halike
  refine ⟨halike, hlength, mem_encode raw, ?_, ?_⟩
  · intro pre old post hold
    rw [encodeBase64_at pre post (hold.trans hlength), hlength]
  · intro pre gap post hgap
    rw [hlength] at hgap ⊢
    exact encodeBase64_behind pre post hgap

/-- **Encoding and decoding are the same in every layout**: every string of
bytes has a text that it is encoded to and decoded from, and every other text
that is not refused for its length decodes to the same bytes over itself. -/
theorem base64_layouts :
    (∀ raw, ∃ text, Layouts raw text) ∧
    ∀ text, decodeBase64Length text.length = none ∨ ∃ raw, DecodesAlike text raw := by
  refine ⟨fun raw => ⟨encode raw, layouts_encode raw⟩, fun text => ?_⟩
  cases hlength : decodeBase64Length text.length with
  | none => exact Or.inl rfl
  | some k => exact Or.inr ⟨decode text, decodesAlike_decode hlength⟩

end Olm
