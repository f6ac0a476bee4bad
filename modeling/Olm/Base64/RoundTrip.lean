import Olm.Base64.Model

/-!
# Base64 is read back

`Base64.encode` and `Base64.decode` are the two codes on strings.
`encodeBase64` and `decodeBase64` compute them, also where the input lies
in the output buffer: what is still to be read of it is never written over
(`Base64Input.Holds`).
-/

namespace Olm

namespace Base64

/-! ## The code -/

/-- The digit of a value below 64. -/
def digit (value : ℕ) : UInt8 := ENCODE_BASE64.getD value 0

/-- The value of a digit. -/
def value (digit : UInt8) : ℕ := (DECODE_BASE64.getD (digit &&& 0x7F).toNat 0).toNat

/-- Base64 without padding. -/
def encode : Bytes → Bytes
  | [] => []
  | [a] =>
    let value := a.toNat <<< 4
    [digit (value >>> 6), digit (value &&& 0x3F)]
  | [a, b] =>
    let value := (a.toNat <<< 8 ||| b.toNat) <<< 2
    [digit (value >>> 12), digit (value >>> 6 &&& 0x3F), digit (value &&& 0x3F)]
  | a :: b :: c :: rest =>
    let value := (a.toNat <<< 8 ||| b.toNat) <<< 8 ||| c.toNat
    [digit (value >>> 18), digit (value >>> 12 &&& 0x3F), digit (value >>> 6 &&& 0x3F),
      digit (value &&& 0x3F)] ++ encode rest

/-- And back. A single digit that is left over gives nothing. -/
def decode : Bytes → Bytes
  | d :: e :: f :: g :: rest =>
    let value := ((value d <<< 6 ||| value e) <<< 6 ||| value f) <<< 6 ||| value g
    [UInt8.ofNat (value >>> 16), UInt8.ofNat (value >>> 8), UInt8.ofNat value] ++ decode rest
  | [d, e, f] =>
    let value := ((value d <<< 6 ||| value e) <<< 6 ||| value f) >>> 2
    [UInt8.ofNat (value >>> 8), UInt8.ofNat value]
  | [d, e] => [UInt8.ofNat ((value d <<< 6 ||| value e) >>> 4)]
  | _ => []

theorem value_digit {v : ℕ} (h : v < 64) : value (digit v) = v := by
  have hall : ∀ v : Fin 64, value (digit v) = v := by decide
  exact hall ⟨v, h⟩

theorem and_63 (v : ℕ) : v &&& 0x3F = v % 64 := Nat.and_two_pow_sub_one_eq_mod v 6

theorem shiftLeft_six_or {v w : ℕ} (h : w < 64) : v <<< 6 ||| w = v * 64 + w := by
  rw [← Nat.shiftLeft_add_eq_or_of_lt (i := 6) h, Nat.shiftLeft_eq]

/-- Six bits at a time, four times. -/
theorem digits_three (v : ℕ) (h : v < 2 ^ 24) :
    ((value (digit (v >>> 18)) <<< 6 ||| value (digit (v >>> 12 &&& 0x3F))) <<< 6 |||
      value (digit (v >>> 6 &&& 0x3F))) <<< 6 ||| value (digit (v &&& 0x3F)) = v := by
  simp only [and_63, Nat.shiftRight_eq_div_pow]
  rw [value_digit (by omega), value_digit (by omega), value_digit (by omega),
    value_digit (by omega), shiftLeft_six_or (by omega), shiftLeft_six_or (by omega),
    shiftLeft_six_or (by omega)]
  omega

/-- Three times. -/
theorem digits_two (v : ℕ) (h : v < 2 ^ 18) :
    (value (digit (v >>> 12)) <<< 6 ||| value (digit (v >>> 6 &&& 0x3F))) <<< 6 |||
      value (digit (v &&& 0x3F)) = v := by
  simp only [and_63, Nat.shiftRight_eq_div_pow]
  rw [value_digit (by omega), value_digit (by omega), value_digit (by omega),
    shiftLeft_six_or (by omega), shiftLeft_six_or (by omega)]
  omega

/-- Twice. -/
theorem digits_one (v : ℕ) (h : v < 2 ^ 12) :
    value (digit (v >>> 6)) <<< 6 ||| value (digit (v &&& 0x3F)) = v := by
  simp only [and_63, Nat.shiftRight_eq_div_pow]
  rw [value_digit (by omega), value_digit (by omega), shiftLeft_six_or (by omega)]
  omega

/-- **What was encoded is decoded.** -/
theorem decode_encode (raw : Bytes) : decode (encode raw) = raw := by
  induction raw using encode.induct with
  | case1 => rfl
  | case2 a =>
    have ha := a.toNat_lt
    simp only [encode, decode]
    rw [digits_one _ (by rw [Nat.shiftLeft_eq]; omega), Nat.shiftLeft_shiftRight, UInt8.ofNat_toNat]
  | case3 a b =>
    have ha := a.toNat_lt
    have hb := b.toNat_lt
    simp only [encode, decode, shiftLeft_or_toNat]
    rw [digits_two _ (by rw [Nat.shiftLeft_eq]; omega), Nat.shiftLeft_shiftRight]
    simp only [Nat.shiftRight_eq_div_pow, List.cons.injEq, ← UInt8.toNat_inj, UInt8.toNat_ofNat',
      and_true]
    omega
  | case4 a b c rest ih =>
    have ha := a.toNat_lt
    have hb := b.toNat_lt
    have hc := c.toNat_lt
    simp only [encode, decode, List.cons_append, List.nil_append, shiftLeft_or_toNat]
    rw [digits_three _ (by omega), ih]
    simp only [Nat.shiftRight_eq_div_pow, List.cons.injEq, ← UInt8.toNat_inj, UInt8.toNat_ofNat',
      and_true]
    omega

@[simp] theorem encode_length (raw : Bytes) :
    (encode raw).length = encodeBase64Length raw.length := by
  induction raw using encode.induct with
  | case1 => rfl
  | case2 a => simp [encode, encodeBase64Length]
  | case3 a b => simp [encode, encodeBase64Length]
  | case4 a b c rest ih =>
    simp only [encode, List.length_append, ih, List.length_cons, List.length_nil,
      encodeBase64Length]
    omega

/-- The first group of three bytes. -/
theorem exists_cons_three {raw : Bytes} {n : ℕ} (h : raw.length = 3 * (n + 1)) :
    ∃ a b c rest, raw = a :: b :: c :: rest ∧ rest.length = 3 * n := by
  match raw, h with
  | a :: b :: c :: rest, h =>
    simp only [List.length_cons] at h
    exact ⟨a, b, c, rest, rfl, by omega⟩

/-- The first group of four characters. -/
theorem exists_cons_four {chars : Bytes} {n : ℕ} (h : chars.length = 4 * (n + 1)) :
    ∃ d e f g rest, chars = d :: e :: f :: g :: rest ∧ rest.length = 4 * n := by
  match chars, h with
  | d :: e :: f :: g :: rest, h =>
    simp only [List.length_cons] at h
    exact ⟨d, e, f, g, rest, rfl, by omega⟩

/-- A group at a time. -/
theorem encode_append {raw : Bytes} {n : ℕ} (h : raw.length = 3 * n) (rest : Bytes) :
    encode (raw ++ rest) = encode raw ++ encode rest := by
  induction n generalizing raw with
  | zero =>
    rw [List.length_eq_zero_iff.mp h]
    rfl
  | succ n ih =>
    obtain ⟨a, b, c, raw, rfl, hraw⟩ := exists_cons_three h
    simp only [List.cons_append, encode, ih hraw, List.append_assoc]

@[simp] theorem decode_nil : decode [] = [] := rfl

theorem decode_length {chars : Bytes} {n : ℕ} (h : chars.length = 4 * n) :
    (decode chars).length = 3 * n := by
  induction n generalizing chars with
  | zero =>
    rw [List.length_eq_zero_iff.mp h]
    rfl
  | succ n ih =>
    obtain ⟨d, e, f, g, chars, rfl, hchars⟩ := exists_cons_four h
    simp only [decode, List.length_append, ih hchars, List.length_cons, List.length_nil]
    omega

theorem decode_append {chars : Bytes} {n : ℕ} (h : chars.length = 4 * n) (rest : Bytes) :
    decode (chars ++ rest) = decode chars ++ decode rest := by
  induction n generalizing chars with
  | zero =>
    rw [List.length_eq_zero_iff.mp h]
    rfl
  | succ n ih =>
    obtain ⟨d, e, f, g, chars, rfl, hchars⟩ := exists_cons_four h
    simp only [List.cons_append, decode, ih hchars, List.append_assoc]

end Base64

/-- The length of what is encoded is that of what it decodes to. -/
theorem decodeBase64Length_encodeBase64Length (n : ℕ) :
    decodeBase64Length (encodeBase64Length n) = some n := by
  unfold decodeBase64Length encodeBase64Length
  rw [if_neg (by omega)]
  congr 1
  omega

/-! ## The code in the buffer -/

namespace Base64Input

variable {input : Base64Input} {buf buf' raw : Bytes} {pos output k : ℕ}

/-- What is left of the input at `pos` is `raw`, and what may follow it. -/
def Holds (input : Base64Input) (buf : Bytes) (pos : ℕ) (raw : Bytes) : Prop :=
  match input with
  | object bytes => ∃ more, bytes.drop pos = raw ++ more
  | within start => ∃ more, buf.drop (start + pos) = raw ++ more

/-- An input in the output buffer is at `k` or after it. -/
def Ahead (input : Base64Input) (pos k : ℕ) : Prop :=
  match input with
  | object _ => True
  | within start => k ≤ start + pos

theorem Holds.read {b : UInt8} (h : input.Holds buf pos (b :: raw)) :
    input.read buf pos = .ok b := by
  cases input with
  | object bytes =>
    obtain ⟨more, hmore⟩ := h
    exact readByte_of_drop_eq_cons hmore
  | within start =>
    obtain ⟨more, hmore⟩ := h
    exact readByte_of_drop_eq_cons hmore

theorem Holds.tail {b : UInt8} (h : input.Holds buf pos (b :: raw)) :
    input.Holds buf (pos + 1) raw := by
  cases input with
  | object bytes =>
    obtain ⟨more, hmore⟩ := h
    exact ⟨more, drop_add_of_drop_eq_append [b] hmore⟩
  | within start =>
    obtain ⟨more, hmore⟩ := h
    exact ⟨more, drop_add_of_drop_eq_append [b] hmore⟩

theorem Holds.drop {bs : Bytes} (h : input.Holds buf pos (bs ++ raw)) :
    input.Holds buf (pos + bs.length) raw := by
  induction bs generalizing pos with
  | nil => exact h
  | cons b bs ih =>
    have hpos : pos + (b :: bs).length = pos + 1 + bs.length := by
      rw [List.length_cons]
      omega
    rw [hpos]
    exact ih h.tail

/-- A write before it leaves it as it was. -/
theorem Holds.write {bs : Bytes} (h : input.Holds buf pos raw)
    (hahead : input.Ahead pos (output + bs.length)) (hw : writeAt buf output bs = .ok buf') :
    input.Holds buf' pos raw := by
  cases input with
  | object bytes => exact h
  | within start =>
    obtain ⟨more, hmore⟩ := h
    refine ⟨more, ?_⟩
    rw [drop_of_writeAt hw hahead, hmore]

theorem Ahead.le {k' : ℕ} (h : input.Ahead pos k) {pos' : ℕ} (hk : k' + pos ≤ k + pos') :
    input.Ahead pos' k' := by
  cases input with
  | object bytes => trivial
  | within start =>
    have hle : k ≤ start + pos := h
    show k' ≤ start + pos'
    omega

end Base64Input

open Base64 Base64Input

section InPlace

variable {input : Base64Input} {buf rest : Bytes} {pos output n : ℕ}

@[simp] theorem length_ENCODE_BASE64 : ENCODE_BASE64.length = 64 := rfl

@[simp] theorem length_DECODE_BASE64 : DECODE_BASE64.length = 128 := by
  simp [DECODE_BASE64]

theorem readByte_digit {v : ℕ} (h : v < 64) : readByte ENCODE_BASE64 v = .ok (digit v) := by
  have hlt : v < ENCODE_BASE64.length := by rwa [length_ENCODE_BASE64]
  rw [readByte_of_lt hlt, digit, List.getD_eq_getElem _ _ hlt]

theorem readDigit_of_holds {d : UInt8} {chars : Bytes} (h : input.Holds buf pos (d :: chars)) :
    input.readDigit buf pos = .ok (value d) := by
  have hlt : (d &&& 0x7F).toNat < DECODE_BASE64.length := by
    rw [UInt8.toNat_and, length_DECODE_BASE64]
    exact Nat.lt_of_le_of_lt Nat.and_le_right (by decide)
  unfold readDigit
  rw [h.read, Checked.ok_bind, readByte_of_lt hlt, Checked.ok_bind, value,
    List.getD_eq_getElem _ _ hlt]

/-- A string in groups of `k` bytes, and what is left of it. -/
theorem exists_groups (bs : Bytes) (k : ℕ) (h : 0 < k) :
    ∃ whole tail n, bs = whole ++ tail ∧ whole.length = k * n ∧ tail.length < k := by
  have hmod := Nat.mod_lt bs.length h
  have hdiv := Nat.div_add_mod bs.length k
  refine ⟨bs.take (k * (bs.length / k)), bs.drop (k * (bs.length / k)), bs.length / k,
    (List.take_append_drop _ _).symm, ?_, ?_⟩
  · rw [List.length_take]
    omega
  · rw [List.length_drop]
    omega

/-- One round of the loop: a group is read, and then its code is written. -/
theorem encodeBase64Groups_step {a b c : UInt8} (hin : input.Holds buf pos (a :: b :: c :: rest))
    (n output : ℕ) :
    encodeBase64Groups input (n + 1) buf pos output =
      writeAt buf output (encode [a, b, c]) >>= fun buf =>
        encodeBase64Groups input n buf (pos + 3) (output + 4) := by
  have ha := a.toNat_lt
  have hb := b.toNat_lt
  have hc := c.toNat_lt
  rw [encodeBase64Groups, hin.read, Checked.ok_bind, hin.tail.read, Checked.ok_bind,
    hin.tail.tail.read, Checked.ok_bind]
  simp only [encode, List.append_nil, and_63, shiftLeft_or_toNat, Nat.shiftRight_eq_div_pow]
  rw [readByte_digit (by omega), readByte_digit (by omega), readByte_digit (by omega),
    readByte_digit (by omega)]
  simp only [Checked.ok_bind]

/-- The loop writes the code of its groups. -/
theorem encodeBase64Groups_eq {raw : Bytes} (hlen : raw.length = 3 * n)
    (hin : input.Holds buf pos (raw ++ rest)) (hahead : input.Ahead pos (output + n))
    (hout : output ≤ buf.length) :
    encodeBase64Groups input n buf pos output = writeAt buf output (encode raw) := by
  induction n generalizing raw buf pos output with
  | zero =>
    rw [List.length_eq_zero_iff.mp hlen]
    exact (writeAt_nil hout).symm
  | succ n ih =>
    obtain ⟨a, b, c, raw, rfl, hraw⟩ := exists_cons_three hlen
    have hcut : encode (a :: b :: c :: raw) = encode [a, b, c] ++ encode raw := by
      simp only [encode, List.append_nil]
    simp only [List.cons_append] at hin
    rw [encodeBase64Groups_step hin, hcut, writeAt_split]
    cases hw : writeAt buf output (encode [a, b, c]) with
    | error e => rfl
    | ok buf' =>
      have hlenCode : (encode [a, b, c]).length = 4 := by simp [encodeBase64Length]
      -- the group is read before its digits are written
      have hin' := hin.tail.tail.tail.write (hahead.le (by omega)) hw
      obtain ⟨hlen', hle⟩ := length_of_writeAt hw
      rw [Checked.ok_bind, Checked.ok_bind, hlenCode]
      exact ih hraw hin' (hahead.le (by omega)) (by omega)

/-- What is left after the groups is shorter than one, and its code is written
behind theirs. -/
theorem encodeBase64_of_groups {tail buf' : Bytes} {inputLength : ℕ}
    (hlen : inputLength = 3 * n + tail.length) (htail : tail.length < 3)
    (hgroups : encodeBase64Groups input n buf 0 output = .ok buf')
    (hin : input.Holds buf' (n * 3) tail) (hout : output + n * 4 ≤ buf'.length) :
    encodeBase64 input inputLength buf output =
      writeAt buf' (output + n * 4) (encode tail) >>= fun buf =>
        .ok (buf, encodeBase64Length inputLength) := by
  have hn : (3 * n + tail.length) / 3 = n := by omega
  have hrem : 3 * n + tail.length - n * 3 = tail.length := by omega
  rw [hlen]
  unfold encodeBase64
  dsimp only
  rw [hn, hgroups, Checked.ok_bind, hrem]
  match tail, htail with
  | [], _ =>
    rw [encode, writeAt_nil hout, encodeBase64Length]
    simp only [Checked.ok_bind, List.length_nil]
    congr 2
    omega
  | [a], _ =>
    have ha := a.toNat_lt
    simp only [List.length_singleton, encode, and_63, Nat.shiftRight_eq_div_pow,
      Nat.shiftLeft_eq]
    rw [hin.read, Checked.ok_bind, readByte_digit (by omega), readByte_digit (by omega),
      Checked.ok_bind, Checked.ok_bind]
    congr 1
    funext buf
    rw [encodeBase64Length]
    congr 2
    omega
  | [a, b], _ =>
    have ha := a.toNat_lt
    have hb := b.toNat_lt
    simp only [List.length_cons, List.length_nil, encode, and_63, Nat.shiftRight_eq_div_pow,
      shiftLeft_or_toNat]
    simp only [Nat.shiftLeft_eq]
    rw [hin.read, Checked.ok_bind, hin.tail.read, Checked.ok_bind, readByte_digit (by omega),
      readByte_digit (by omega), readByte_digit (by omega), Checked.ok_bind, Checked.ok_bind,
      Checked.ok_bind]
    congr 1
    funext buf
    rw [encodeBase64Length]
    congr 2
    omega

/-- **`encode_base64` writes the code of its input**, and says how long it
is, also where it lies at the end of the output. -/
theorem encodeBase64_eq {raw : Bytes} (hin : input.Holds buf 0 raw)
    (hahead : input.Ahead 0 (output + raw.length / 3)) (hout : output ≤ buf.length) :
    encodeBase64 input raw.length buf output =
      writeAt buf output (encode raw) >>= fun buf => .ok (buf, encodeBase64Length raw.length) := by
  obtain ⟨whole, tail, n, rfl, hwhole, htail⟩ := exists_groups raw 3 (by omega)
  have hlen : (whole ++ tail).length = 3 * n + tail.length := by
    rw [List.length_append, hwhole]
  have hn : (3 * n + tail.length) / 3 = n := by omega
  have hcode : (encode whole).length = n * 4 := by
    rw [encode_length, hwhole, encodeBase64Length]
    omega
  rw [hlen, hn] at hahead
  have hgroups := encodeBase64Groups_eq hwhole hin hahead hout
  rw [encode_append hwhole, writeAt_split, hcode]
  cases hw : writeAt buf output (encode whole) with
  | error e =>
    rw [hw] at hgroups
    unfold encodeBase64
    dsimp only
    rw [hlen, hn, hgroups]
    rfl
  | ok buf' =>
    obtain ⟨hlen', hle⟩ := length_of_writeAt hw
    -- the input is still there behind the groups, also where the output covers them
    have hin' : input.Holds buf' (n * 3) tail := by
      have hpos : 0 + whole.length = n * 3 := by omega
      rw [← hpos]
      exact hin.drop.write (hahead.le (by omega)) hw
    rw [Checked.ok_bind]
    exact encodeBase64_of_groups hlen htail (hgroups.trans hw) hin' (by omega)

/-- A text decodes to no more bytes than it has. -/
theorem decodeBase64Length_le {n k : ℕ} (h : decodeBase64Length n = some k) : k ≤ n := by
  unfold decodeBase64Length at h
  split at h
  · cases h
  · simp only [Option.some.injEq] at h
    omega

/-- As many bytes as `decode_base64_length` says. -/
theorem length_decode {chars : Bytes} {k : ℕ} (h : decodeBase64Length chars.length = some k) :
    (decode chars).length = k := by
  obtain ⟨whole, tail, n, rfl, hwhole, htail⟩ := exists_groups chars 4 (by omega)
  rw [decode_append hwhole, List.length_append, decode_length hwhole]
  rw [List.length_append, hwhole] at h
  unfold decodeBase64Length at h
  split at h
  · cases h
  rename_i hone
  simp only [Option.some.injEq] at h
  match tail, htail with
  | [], _ =>
    simp only [decode_nil, List.length_nil] at h ⊢
    omega
  | [d], _ =>
    simp only [List.length_singleton] at hone
    omega
  | [d, e], _ =>
    simp only [decode, List.length_cons, List.length_nil] at h ⊢
    omega
  | [d, e, f], _ =>
    simp only [decode, List.length_cons, List.length_nil] at h ⊢
    omega

/-- The loop writes what its groups decode to. -/
theorem decodeBase64Groups_eq {chars : Bytes} (hlen : chars.length = 4 * n)
    (hin : input.Holds buf pos (chars ++ rest)) (hahead : input.Ahead pos output)
    (hout : output ≤ buf.length) :
    decodeBase64Groups input n buf pos output = writeAt buf output (decode chars) := by
  induction n generalizing chars buf pos output with
  | zero =>
    rw [List.length_eq_zero_iff.mp hlen]
    exact (writeAt_nil hout).symm
  | succ n ih =>
    obtain ⟨d, e, f, g, chars, rfl, hchars⟩ := exists_cons_four hlen
    simp only [List.cons_append] at hin
    unfold decodeBase64Groups decode
    rw [readDigit_of_holds hin, Checked.ok_bind, readDigit_of_holds hin.tail, Checked.ok_bind,
      readDigit_of_holds hin.tail.tail, Checked.ok_bind, readDigit_of_holds hin.tail.tail.tail,
      Checked.ok_bind, writeAt_split]
    dsimp only
    cases hw : writeAt buf output _ with
    | error e => rfl
    | ok buf' =>
      have hin' := hin.tail.tail.tail.tail.write (hahead.le (by simp; omega)) hw
      obtain ⟨hlen', hle⟩ := length_of_writeAt hw
      exact ih hchars hin' (hahead.le (by omega)) (by simp at hle; omega)

/-- **`decode_base64` writes what its input decodes to**, also over its
input. -/
theorem decodeBase64_eq {chars : Bytes} (hin : input.Holds buf 0 chars)
    (hahead : input.Ahead 0 output) (hout : output ≤ buf.length) :
    decodeBase64 input chars.length buf output =
      match decodeBase64Length chars.length with
      | none => .ok (buf, none)
      | some rawLength => writeAt buf output (decode chars) >>= fun buf => .ok (buf, rawLength) := by
  unfold decodeBase64
  cases hraw : decodeBase64Length chars.length with
  | none => rfl
  | some rawLength =>
    obtain ⟨whole, tail, n, rfl, hwhole, htail⟩ := exists_groups chars 4 (by omega)
    have hlen : (whole ++ tail).length = 4 * n + tail.length := by
      rw [List.length_append, hwhole]
    have hn : (4 * n + tail.length) / 4 = n := by omega
    have hcode : (decode whole).length = n * 3 := by
      rw [decode_length hwhole, Nat.mul_comm]
    rw [hlen, decode_append hwhole, writeAt_split, hcode]
    dsimp only
    rw [hn, decodeBase64Groups_eq hwhole hin hahead hout]
    cases hw : writeAt buf output (decode whole) with
    | error e => rfl
    | ok buf' =>
      obtain ⟨hlen', hle⟩ := length_of_writeAt hw
      -- the output stays behind the input, so the rest of it is still there
      have hin' : input.Holds buf' (n * 4) tail := by
        have hpos : 0 + whole.length = n * 4 := by omega
        rw [← hpos]
        exact hin.drop.write (hahead.le (by omega)) hw
      have hrem : 4 * n + tail.length - n * 4 = tail.length := by omega
      rw [Checked.ok_bind, Checked.ok_bind, hrem]
      match tail, htail with
      | [], _ =>
        rw [decode_nil, writeAt_nil (by omega)]
        rfl
      | [d], _ =>
        -- one digit alone encodes nothing, and its length is refused
        rw [hlen, decodeBase64Length, if_pos (by simp)] at hraw
        cases hraw
      | [d, e], _ =>
        simp only [List.length_cons, List.length_nil, decode]
        rw [readDigit_of_holds hin', Checked.ok_bind, readDigit_of_holds hin'.tail,
          Checked.ok_bind]
      | [d, e, f], _ =>
        simp only [List.length_cons, List.length_nil, decode]
        rw [readDigit_of_holds hin', Checked.ok_bind, readDigit_of_holds hin'.tail,
          Checked.ok_bind, readDigit_of_holds hin'.tail.tail, Checked.ok_bind]

/-! ## The ways they are called -/

theorem writeAt_zero_append {old new : Bytes} (h : new.length = old.length) (post : Bytes) :
    writeAt (old ++ post) 0 new = .ok (new ++ post) := by
  have hw := writeAt_append [] post h
  simpa using hw

/-- From an object of its own into a buffer. -/
theorem encodeBase64_at (pre post : Bytes) {raw old : Bytes}
    (hold : old.length = encodeBase64Length raw.length) :
    encodeBase64 (.object raw) raw.length (pre ++ (old ++ post)) pre.length =
      .ok (pre ++ (encode raw ++ post), encodeBase64Length raw.length) := by
  have hin : (Base64Input.object raw).Holds (pre ++ (old ++ post)) 0 raw := ⟨[], by simp⟩
  have hcode : (encode raw).length = old.length := by rw [encode_length, hold]
  rw [encodeBase64_eq hin trivial (by simp), writeAt_append pre post hcode, Checked.ok_bind]

/-- From behind a gap in the buffer, that ends no nearer than the output. -/
theorem encodeBase64_behind (pre : Bytes) {gap raw : Bytes} (post : Bytes)
    (hgap : encodeBase64Length raw.length ≤ gap.length + raw.length) :
    encodeBase64 (.within (pre.length + gap.length)) raw.length (pre ++ (gap ++ (raw ++ post)))
        pre.length =
      .ok (pre ++ (encode raw ++ (gap ++ (raw ++ post)).drop (encodeBase64Length raw.length)),
        encodeBase64Length raw.length) := by
  have hin : (Base64Input.within (pre.length + gap.length)).Holds (pre ++ (gap ++ (raw ++ post))) 0
      raw := by
    refine ⟨post, ?_⟩
    rw [Nat.add_zero, ← List.drop_drop, List.drop_left, List.drop_left]
  -- the gap is a third of the input at least
  have hahead : (Base64Input.within (pre.length + gap.length)).Ahead 0
      (pre.length + raw.length / 3) := by
    show pre.length + raw.length / 3 ≤ pre.length + gap.length + 0
    unfold encodeBase64Length at hgap
    omega
  have hroom : (encode raw).length ≤ (gap ++ (raw ++ post)).length := by
    simp only [encode_length, List.length_append]
    omega
  rw [encodeBase64_eq hin hahead (by simp), writeAt_front pre hroom, Checked.ok_bind, encode_length]

/-- Into a buffer of its own. -/
theorem decodeBase64_at (pre post : Bytes) {chars old : Bytes}
    (h : decodeBase64Length chars.length = some old.length) :
    decodeBase64 (.object chars) chars.length (pre ++ (old ++ post)) pre.length =
      .ok (pre ++ (decode chars ++ post), some old.length) := by
  have hin : (Base64Input.object chars).Holds (pre ++ (old ++ post)) 0 chars := ⟨[], by simp⟩
  rw [decodeBase64_eq hin trivial (by simp), h]
  dsimp only
  rw [writeAt_append pre post (length_decode h), Checked.ok_bind]

/-- Over the text itself. -/
theorem decodeBase64_over (pre post : Bytes) {chars : Bytes} {k : ℕ}
    (h : decodeBase64Length chars.length = some k) :
    decodeBase64 (.within pre.length) chars.length (pre ++ (chars ++ post)) pre.length =
      .ok (pre ++ (decode chars ++ (chars ++ post).drop k), some k) := by
  have hin : (Base64Input.within pre.length).Holds (pre ++ (chars ++ post)) 0 chars :=
    ⟨post, by rw [Nat.add_zero, List.drop_left]⟩
  have hahead : (Base64Input.within pre.length).Ahead 0 pre.length := Nat.le_refl _
  have hroom : (decode chars).length ≤ (chars ++ post).length := by
    rw [length_decode h, List.length_append]
    exact (decodeBase64Length_le h).trans (Nat.le_add_right _ _)
  rw [decodeBase64_eq hin hahead (by simp), h]
  dsimp only
  rw [writeAt_front pre hroom, Checked.ok_bind, length_decode h]

/-! ### At the front of a buffer -/

/-- What lies behind the room that the code does not need is encoded at the
front of the buffer. -/
theorem encodeBase64_within_of_le {gap raw : Bytes} (post : Bytes)
    (hgap : encodeBase64Length raw.length ≤ gap.length + raw.length) :
    encodeBase64 (.within gap.length) raw.length (gap ++ (raw ++ post)) 0 =
      .ok (encode raw ++ (gap ++ (raw ++ post)).drop (encodeBase64Length raw.length),
        encodeBase64Length raw.length) := by
  have h := encodeBase64_behind [] post hgap
  rwa [List.length_nil, Nat.zero_add] at h

/-- What was built at the end of the room for its code is encoded over it. -/
theorem encodeBase64_within {gap raw : Bytes} (post : Bytes)
    (hgap : gap.length + raw.length = encodeBase64Length raw.length) :
    encodeBase64 (.within gap.length) raw.length (gap ++ (raw ++ post)) 0 =
      .ok (encode raw ++ post, encodeBase64Length raw.length) := by
  have hfront : (gap ++ raw).length = encodeBase64Length raw.length := by
    rw [List.length_append, hgap]
  rw [encodeBase64_within_of_le post hgap.ge]
  rw [← List.append_assoc, List.drop_left' hfront]

/-- An object is encoded at the front of a buffer with enough room. -/
theorem encodeBase64_object_into {raw room : Bytes} {n : ℕ} (hraw : raw.length = n)
    (hroom : encodeBase64Length n ≤ room.length) :
    encodeBase64 (.object raw) n room 0 =
      .ok (encode raw ++ room.drop (encodeBase64Length n), encodeBase64Length n) := by
  subst hraw
  have hinto := encodeBase64_at [] (room.drop (encodeBase64Length raw.length))
    (List.length_take_of_le hroom)
  rwa [List.take_append_drop] at hinto

/-- What decodes to as many bytes as an array has is decoded into it. -/
theorem decodeBase64_object_of_length {chars old : Bytes}
    (h : decodeBase64Length chars.length = some old.length) :
    decodeBase64 (.object chars) chars.length old 0 = .ok (decode chars, some old.length) := by
  have hdecode := decodeBase64_at [] [] h
  rwa [List.append_nil, List.append_nil] at hdecode

/-- What was encoded is decoded into an array of its own. -/
theorem decodeBase64_object (raw : Bytes) {old : Bytes} (hold : old.length = raw.length) :
    decodeBase64 (.object (encode raw)) (encode raw).length old 0 = .ok (raw, some raw.length) := by
  have hlen : decodeBase64Length (encode raw).length = some old.length := by
    rw [encode_length, decodeBase64Length_encodeBase64Length, hold]
  rw [decodeBase64_object_of_length hlen, decode_encode, hold]

/-- What decodes to something is decoded over itself. -/
theorem decodeBase64_within_of_length {chars : Bytes} {k : ℕ}
    (h : decodeBase64Length chars.length = some k) :
    ∃ rest, decodeBase64 (.within 0) chars.length chars 0 = .ok (decode chars ++ rest, some k) := by
  have hdecode := decodeBase64_over [] [] h
  rw [List.append_nil] at hdecode
  exact ⟨chars.drop k, hdecode⟩

/-- What was encoded is decoded over itself. -/
theorem decodeBase64_within (raw : Bytes) :
    ∃ rest, decodeBase64 (.within 0) (encode raw).length (encode raw) 0 =
      .ok (raw ++ rest, some raw.length) := by
  have hlen : decodeBase64Length (encode raw).length = some raw.length := by
    rw [encode_length, decodeBase64Length_encodeBase64Length]
  obtain ⟨rest, hdecode⟩ := decodeBase64_within_of_length hlen
  rw [decode_encode] at hdecode
  exact ⟨rest, hdecode⟩

end InPlace

end Olm
