import Olm.Common.Bytes
import Mathlib.Data.List.TakeDrop

/-!
# Base-128 integers

The variable-length integers of tagged wire formats: seven bits a byte,
the low ones first, and the high bit set on every byte but the last. An
encoding is a run of `continues` bytes and one byte that does not, which
is all a reader needs to find its end.
-/

namespace Varint

/-- More bytes follow. -/
def continues (b : UInt8) : Prop := b &&& 0x80 ≠ 0

instance : DecidablePred continues := fun b => inferInstanceAs (Decidable (b &&& 0x80 ≠ 0))

/-- The bytes of `value`. -/
def encode (value : ℕ) : Bytes :=
  if 128 ≤ value then UInt8.ofNat (0x7F &&& value ||| 0x80) :: encode (value >>> 7)
  else [UInt8.ofNat value]
termination_by value
decreasing_by rw [Nat.shiftRight_eq_div_pow]; omega

/-- The value of some bytes, whatever their high bits. -/
def decode (bs : Bytes) : ℕ := bs.foldr (fun b v => v <<< 7 ||| (0x7F &&& b).toNat) 0

theorem encode_of_lt {value : ℕ} (h : value < 128) : encode value = [UInt8.ofNat value] := by
  rw [encode, if_neg (by omega)]

theorem encode_of_le {value : ℕ} (h : 128 ≤ value) :
    encode value = UInt8.ofNat (0x7F &&& value ||| 0x80) :: encode (value >>> 7) := by
  rw [encode, if_pos h]

theorem toNat_payload (b : UInt8) : (0x7F &&& b).toNat = b.toNat % 128 := by
  rw [UInt8.toNat_and, Nat.and_comm]
  exact Nat.and_two_pow_sub_one_eq_mod b.toNat 7

/-- One more byte in front: its payload goes below the rest. -/
theorem decode_cons (b : UInt8) (bs : Bytes) :
    decode (b :: bs) = decode bs * 128 + b.toNat % 128 := by
  have hlt : (0x7F &&& b).toNat < 2 ^ 7 := by rw [toNat_payload]; omega
  have hstep : decode (b :: bs) = decode bs <<< 7 ||| (0x7F &&& b).toNat := rfl
  rw [hstep, ← Nat.shiftLeft_add_eq_or_of_lt hlt, Nat.shiftLeft_eq, toNat_payload]

theorem payload_or_continue (value : ℕ) :
    (UInt8.ofNat (0x7F &&& value ||| 0x80)).toNat = value % 128 + 128 := by
  have hand : 0x7F &&& value = value % 128 := by
    rw [Nat.and_comm]; exact Nat.and_two_pow_sub_one_eq_mod value 7
  have hor : value % 128 ||| 0x80 = value % 128 + 128 := by
    rw [Nat.or_comm, Nat.add_comm]
    exact (Nat.two_pow_add_eq_or_of_lt (i := 7) (by omega) 1).symm
  rw [UInt8.toNat_ofNat', hand, hor]
  omega

/-- **The bytes of a value decode to it.** -/
theorem decode_encode (value : ℕ) : decode (encode value) = value := by
  induction value using encode.induct with
  | case1 value h ih =>
    rw [encode_of_le h, decode_cons, ih, payload_or_continue, Nat.shiftRight_eq_div_pow]
    omega
  | case2 value h =>
    rw [encode_of_lt (by omega), decode_cons, UInt8.toNat_ofNat']
    have : decode [] = 0 := rfl
    omega

theorem continues_iff (b : UInt8) : continues b ↔ 128 ≤ b.toNat := by
  have hall : ∀ n < 256, (UInt8.ofNat n &&& 0x80 ≠ 0 ↔ 128 ≤ n) := by decide +kernel
  simpa [continues] using hall b.toNat b.toNat_lt

/-- Every byte of an encoding but the last says that more follow. -/
theorem encode_eq (value : ℕ) :
    ∃ init last, encode value = init ++ [last] ∧ (∀ b ∈ init, continues b) ∧ ¬ continues last := by
  induction value using encode.induct with
  | case1 value h ih =>
    obtain ⟨init, last, heq, hinit, hlast⟩ := ih
    refine ⟨_ :: init, last, by rw [encode_of_le h, heq, List.cons_append], ?_, hlast⟩
    simp only [List.mem_cons, forall_eq_or_imp]
    exact ⟨by rw [continues_iff, payload_or_continue]; omega, hinit⟩
  | case2 value h =>
    refine ⟨[], UInt8.ofNat value, encode_of_lt (by omega), by simp, ?_⟩
    rw [continues_iff, UInt8.toNat_ofNat']
    omega

/-- A byte below 128 is the encoding of itself only. -/
theorem encode_eq_singleton_iff {b : UInt8} (hsmall : b.toNat < 128) (value : ℕ) :
    encode value = [b] ↔ value = b.toNat := by
  constructor
  · intro h
    have hdecode := decode_encode value
    rw [h, decode_cons, Nat.mod_eq_of_lt hsmall] at hdecode
    have hnil : decode [] = 0 := rfl
    omega
  · rintro rfl
    rw [encode_of_lt hsmall, UInt8.ofNat_toNat]

/-- Some bytes that a reader takes for the value, the shortest or not. -/
structure Encodes (bs : Bytes) (value : ℕ) : Prop where
  ends : ∃ init last, bs = init ++ [last] ∧ (∀ b ∈ init, continues b) ∧ ¬ continues last
  decode_eq : decode bs = value

theorem encodes_encode (value : ℕ) : Encodes (encode value) value :=
  ⟨encode_eq value, decode_encode value⟩

/-- One byte that does not continue, and all before it do. -/
def Ends : Bytes → Prop
  | [] => False
  | b :: bs => if continues b then Ends bs else bs = []

instance decidableEnds : DecidablePred Ends
  | [] => inferInstanceAs (Decidable False)
  | b :: bs =>
    have := decidableEnds bs
    inferInstanceAs (Decidable (if continues b then Ends bs else bs = []))

theorem ends_iff {bs : Bytes} :
    Ends bs ↔ ∃ init last, bs = init ++ [last] ∧ (∀ b ∈ init, continues b) ∧ ¬ continues last := by
  induction bs with
  | nil => exact iff_of_false id fun ⟨init, last, h, _⟩ => by simp at h
  | cons b bs ih =>
    rw [Ends]
    split
    · rename_i hb
      rw [ih]
      constructor
      · rintro ⟨init, last, rfl, hinit, hlast⟩
        exact ⟨b :: init, last, rfl, List.forall_mem_cons.mpr ⟨hb, hinit⟩, hlast⟩
      · rintro ⟨init, last, h, hinit, hlast⟩
        cases init with
        | nil =>
          obtain ⟨rfl, -⟩ := List.cons.inj h
          exact absurd hb hlast
        | cons c init =>
          obtain ⟨rfl, rfl⟩ := List.cons.inj h
          exact ⟨init, last, rfl, fun c hc => hinit c (List.mem_cons_of_mem _ hc), hlast⟩
    · rename_i hb
      constructor
      · rintro rfl
        exact ⟨[], b, rfl, nofun, hb⟩
      · rintro ⟨init, last, h, hinit, hlast⟩
        cases init with
        | nil => exact (List.cons.inj h).2
        | cons c init =>
          obtain ⟨rfl, -⟩ := List.cons.inj h
          exact absurd (hinit b List.mem_cons_self) hb

theorem encodes_iff {bs : Bytes} {value : ℕ} : Encodes bs value ↔ Ends bs ∧ decode bs = value := by
  rw [ends_iff]
  exact ⟨fun h => ⟨h.ends, h.decode_eq⟩, fun h => ⟨h.1, h.2⟩⟩

/-- The bytes up to one that ends an integer, and those behind it. Where none
does these are all. -/
def span : Bytes → Bytes × Bytes
  | [] => ([], [])
  | b :: bs => if continues b then (b :: (span bs).1, (span bs).2) else ([b], bs)

theorem span_append (bs : Bytes) : (span bs).1 ++ (span bs).2 = bs := by
  induction bs with
  | nil => rfl
  | cons b bs ih =>
    rw [span]
    split
    · rw [List.cons_append, ih]
    · rfl

theorem span_of_ends {bs : Bytes} (h : Ends bs) (rest : Bytes) :
    span (bs ++ rest) = (bs, rest) := by
  induction bs with
  | nil => exact h.elim
  | cons b bs ih =>
    rw [Ends] at h
    rw [List.cons_append, span]
    split at h
    · rename_i hb
      rw [if_pos hb, ih h]
    · rename_i hb
      rw [if_neg hb, h, List.nil_append]

/-- The first byte is among those up to the end. -/
theorem span_cons (b : UInt8) (bs : Bytes) : ∃ more, (span (b :: bs)).1 = b :: more := by
  rw [span]
  split
  · exact ⟨_, rfl⟩
  · exact ⟨[], rfl⟩

end Varint
