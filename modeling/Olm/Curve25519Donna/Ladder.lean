import Olm.Common.Montgomery
import Olm.Curve25519Donna.Inverse
import Olm.Curve25519Donna.Store

/-!
# Scalar multiplication

`cmult` is a Montgomery ladder on limbs: it swaps in constant time where the
bit says so, and `fmonty` doubles one of the points and adds both. So
`curve25519_donna` returns the `x` of a multiple of the point, with no
overflow on the way, and does not depend on what was in the memory that it
writes to.
-/

namespace Olm

namespace Donna

open Signed Montgomery

/-! ## A step -/

/-- The limbs are those of the two points of a ladder. -/
structure Multiples.AreOf (m : Multiples) (s : Fraction (ZMod prime) × Fraction (ZMod prime)) :
    Prop where
  nqx : Represents m.nqx (2 ^ 26 - 1) s.1.x
  nqz : Represents m.nqz (2 ^ 26 - 1) s.1.z
  nqpqx : Represents m.nqpqx (2 ^ 26 - 1) s.2.x
  nqpqz : Represents m.nqpqz (2 ^ 26 - 1) s.2.z

variable {m : Multiples} {s : Fraction (ZMod prime) × Fraction (ZMod prime)} {q : Limbs 10}
  {u : ZMod prime}

/-- **`fmonty`** doubles and adds. -/
theorem Multiples.AreOf.fmonty (h : m.AreOf s) (hq : Represents q (2 ^ 26 - 1) u) :
    (fmonty m q).AreOf (s.1.double 121665, s.1.add u s.2) := by
  have hsum : ∀ {v w : Limbs 10} {a b : ZMod prime}, Represents v (2 ^ 26 - 1) a →
      Represents w (2 ^ 26 - 1) b → Represents (fsum v w) (2 ^ 27) (a + b) :=
    fun hv hw => (hv.fsum hw (by norm_num)).mono (by norm_num)
  have hdifference : ∀ {v w : Limbs 10} {a b : ZMod prime}, Represents v (2 ^ 26 - 1) a →
      Represents w (2 ^ 26 - 1) b → Represents (fdifference v w) (2 ^ 27) (b - a) :=
    fun hv hw => (hv.fdifference hw (by norm_num)).mono (by norm_num)
  have hwide : ∀ {v : Limbs 10} {a : ZMod prime}, Represents v (2 ^ 26 - 1) a →
      Represents v (2 ^ 27) a := fun hv => hv.mono (by norm_num)
  have hx := hsum h.nqx h.nqz
  have hz := hdifference h.nqz h.nqx
  have hxprime := hsum h.nqpqx h.nqpqz
  have hzprime := hdifference h.nqpqz h.nqpqx
  have hxxprime := hxprime.fproduct hz
  have hzzprime := hx.fproduct hzprime
  have hxxxprime := (hsum hxxprime hzzprime).fsquare
  have hzzzprime := (hdifference hzzprime hxxprime).fsquare
  have hxx := hx.fsquare
  have hzz := hz.fsquare
  have hdiff := hdifference hzz hxx
  have hzzz := hsum hdiff.fscalarProduct hxx
  exact ⟨(hwide hxx).fproduct (hwide hzz), hdiff.fproduct hzzz, hxxxprime,
    (hwide hzzzprime).fproduct (hwide hq)⟩

/-! ## Swaps -/

/-- A bit as the loop of `cmult` has it. -/
def bitLimb (bit : Bool) : Limb := some (if bit then 1 else 0)

/-- `swap_conditional` on integers: the mask has all bits or none. -/
theorem xor_masked {a b mask : S32} {y z : ℤ} (ha : a.Holds y) (hb : b.Holds z) {bit : Bool}
    (hmask : mask = some (if bit then BitVec.allOnes 32 else 0#32)) :
    a ^^^ (mask &&& (a ^^^ b)) = (if bit then b else a) ∧
      b ^^^ (mask &&& (a ^^^ b)) = if bit then a else b := by
  obtain ⟨c, rfl, -⟩ := ha
  obtain ⟨d, rfl, -⟩ := hb
  subst hmask
  cases bit with
  | false =>
    have hxor : ∀ c' : BitVec 32, c' ^^^ (0#32 &&& (c ^^^ d)) = c' := fun c' => by
      rw [BitVec.zero_and, BitVec.xor_zero]
    exact ⟨congrArg some (hxor c), congrArg some (hxor d)⟩
  | true =>
    have hxor : c ^^^ (BitVec.allOnes 32 &&& (c ^^^ d)) = d := by
      rw [BitVec.allOnes_and, ← BitVec.xor_assoc, BitVec.xor_self, BitVec.zero_xor]
    have hxor' : d ^^^ (BitVec.allOnes 32 &&& (c ^^^ d)) = c := by
      rw [BitVec.allOnes_and, BitVec.xor_comm c, ← BitVec.xor_assoc, BitVec.xor_self,
        BitVec.zero_xor]
    exact ⟨congrArg some hxor, congrArg some hxor'⟩

theorem Represents.s32 {v : Limbs 10} (h : Represents v (2 ^ 26 - 1) u) :
    Represents (v.map s32) (2 ^ 26 - 1) u := by
  obtain ⟨x, hx, hu⟩ := h
  refine ⟨x, fun i => ?_, hu⟩
  rw [Fin.getElem_fin, Vector.getElem_map]
  exact s32_within (hx i) (by norm_num)

/-- **`swap_conditional`** swaps if the bit is 1. -/
theorem swapConditional_eq {a b : Limbs 10} {u u' : ZMod prime}
    (h : Represents a (2 ^ 26 - 1) u) (h' : Represents b (2 ^ 26 - 1) u') (bit : Bool) :
    swapConditional a b (bitLimb bit) =
      if bit then (b.map s32, a.map s32) else (a.map s32, b.map s32) := by
  have hmask : (-bitLimb bit).cast 32 =
      (some (if bit then BitVec.allOnes 32 else 0#32) : Option (BitVec 32)) := by
    cases bit with
    | false => rfl
    | true => rfl
  obtain ⟨x, hx, -⟩ := h
  obtain ⟨y, hy, -⟩ := h'
  have hlimb := fun (i : ℕ) (hi : i < 10) =>
    xor_masked ((hx ⟨i, hi⟩).cast (by norm_num)).holds ((hy ⟨i, hi⟩).cast (by norm_num)).holds hmask
  simp only [Fin.getElem_fin] at hlimb
  refine Prod.ext (Vector.ext fun i hi => ?_) (Vector.ext fun i hi => ?_)
  · simp only [swapConditional, Fin.getElem_fin, Vector.getElem_ofFn, (hlimb i hi).1]
    cases bit with
    | false => exact (Vector.getElem_map s32 hi).symm
    | true => exact (Vector.getElem_map s32 hi).symm
  · simp only [swapConditional, Fin.getElem_fin, Vector.getElem_ofFn, (hlimb i hi).2]
    cases bit with
    | false => exact (Vector.getElem_map s32 hi).symm
    | true => exact (Vector.getElem_map s32 hi).symm

theorem Multiples.AreOf.swap (h : m.AreOf s) (bit : Bool) :
    (swapMultiples (bitLimb bit) m).AreOf (swapIf bit s) := by
  rw [swapMultiples, swapConditional_eq h.nqx h.nqpqx bit, swapConditional_eq h.nqz h.nqpqz bit]
  cases bit with
  | false => exact ⟨h.nqx.s32, h.nqz.s32, h.nqpqx.s32, h.nqpqz.s32⟩
  | true => exact ⟨h.nqpqx.s32, h.nqpqz.s32, h.nqx.s32, h.nqz.s32⟩

/-! ## The bits of the secret -/

/-- The highest bits of a byte, the highest first. -/
def highBits : (bits : ℕ) → UInt8 → List Bool
  | 0, _ => []
  | bits + 1, byte => decide (128 ≤ byte) :: highBits bits (byte <<< 1)

theorem highBit_eq (byte : UInt8) :
    (some ((byte >>> 7).toBitVec.setWidth 64) : Limb) = bitLimb (decide (128 ≤ byte)) := by
  have hall : ∀ b : Fin 256, ((UInt8.ofFin b >>> 7).toBitVec.setWidth 64) =
      if decide (128 ≤ UInt8.ofFin b) then 1 else 0 := by decide +kernel
  exact congrArg some (hall byte.toFin)

/-- **The inner loop of `cmult`** takes a step for each bit. -/
theorem Multiples.AreOf.cmultByte (hq : Represents q (2 ^ 26 - 1) u) (bits : ℕ) (byte : UInt8)
    (h : m.AreOf s) :
    (cmultByte q bits byte m).AreOf ((highBits bits byte).foldl (step 121665 u) s) := by
  induction bits generalizing byte m s with
  | zero => exact h
  | succ bits ih =>
    rw [Donna.cmultByte, highBits, List.foldl_cons]
    simp only [highBit_eq]
    exact ih _ (((h.swap _).fmonty hq).swap _)

/-- The bits of a secret, the highest first. -/
def secretBits (n : FixedBytes 32) : List Bool := n.val.reverse.flatMap (highBits 8)

/-- **`cmult`** is a ladder. -/
theorem cmult_represents (n : FixedBytes 32) (hq : Represents q (2 ^ 26 - 1) u) :
    Represents (cmult n q).1 (2 ^ 26 - 1) (ladder 121665 u (secretBits n)).1.x ∧
      Represents (cmult n q).2 (2 ^ 26 - 1) (ladder 121665 u (secretBits n)).1.z := by
  have hbytes : ∀ (bytes : Bytes) {m : Multiples} {s}, m.AreOf s →
      (bytes.foldl (fun m byte => Donna.cmultByte q 8 byte m) m).AreOf
        ((bytes.flatMap (highBits 8)).foldl (step 121665 u) s) := by
    intro bytes
    induction bytes with
    | nil => exact fun h => h
    | cons byte bytes ih =>
      intro m s h
      rw [List.flatMap_cons, List.foldl_append]
      exact ih (h.cmultByte hq 8 byte)
  have hstart : Multiples.AreOf
      { nqx := (Vector.replicate 10 0 : Limbs 10).set 0 1, nqz := .replicate 10 0, nqpqx := q,
        nqpqz := (Vector.replicate 10 0 : Limbs 10).set 0 1 } (start u) :=
    ⟨represents_one, represents_zero, hq, represents_one⟩
  have hall := hbytes n.val.reverse hstart
  exact ⟨hall.nqx, hall.nqz⟩

/-! ## The whole function -/

/-- The field element that 32 bytes are for. -/
def fieldElement (bytes : FixedBytes 32) : ZMod prime :=
  ((ofLittleEndian bytes.val % 2 ^ 255 : ℕ) : ZMod prime)

/-- **`curve25519_donna`** has no overflow, and is the ladder on field
elements, whatever was in the memory before. -/
theorem curve25519Donna_eq (memory secret basepoint : FixedBytes 32) :
    curve25519Donna memory secret basepoint =
      some (toBytes (multiple 121665 (secretBits (clamp secret)) (fieldElement basepoint))) := by
  obtain ⟨hx, hz⟩ := cmult_represents (clamp secret) (fexpand_represents basepoint)
  exact fcontract_eq ((hx.mono (by norm_num)).fmul ((crecip_represents hz).mono (by norm_num)))
    memory

theorem fieldElement_toBytes (u : ZMod prime) : fieldElement (toBytes u) = u := by
  have hlt := ZMod.val_lt u
  have hprime : prime = 2 ^ 255 - 19 := rfl
  rw [fieldElement, toBytes, ofLittleEndian_littleEndian, Nat.mod_eq_of_lt (by omega),
    Nat.mod_eq_of_lt (by omega), ZMod.natCast_zmod_val]

theorem number_append_bits (bits bits' : List Bool) :
    number (bits ++ bits') = number bits * 2 ^ bits'.length + number bits' := by
  induction bits' using List.reverseRecOn with
  | nil => rw [List.append_nil, List.length_nil, pow_zero, mul_one, number, number, List.foldl_nil,
      add_zero]
  | append_singleton bits' bit ih =>
    rw [← List.append_assoc, number_append, number_append, ih, List.length_append,
      List.length_singleton, pow_succ]
    ring

theorem number_highBits (byte : UInt8) : number (highBits 8 byte) = byte.toNat := by
  have hall : ∀ b : Fin 256, number (highBits 8 (UInt8.ofFin b)) = b.val := by decide +kernel
  exact hall byte.toFin

theorem length_highBits (bits : ℕ) (byte : UInt8) : (highBits bits byte).length = bits := by
  induction bits generalizing byte with
  | zero => rfl
  | succ bits ih => rw [highBits, List.length_cons, ih]

/-- The bits are those of the number. -/
theorem number_secretBits (n : FixedBytes 32) : number (secretBits n) = ofLittleEndian n.val := by
  have hbytes : ∀ bytes : Bytes,
      number (bytes.reverse.flatMap (highBits 8)) = ofLittleEndian bytes := by
    intro bytes
    induction bytes with
    | nil => rfl
    | cons byte bytes ih =>
      rw [List.reverse_cons, List.flatMap_append, number_append_bits, ih, List.flatMap_cons,
        List.flatMap_nil, List.append_nil, length_highBits, number_highBits, ofLittleEndian]
      ring
  exact hbytes n.val

end Donna

end Olm
