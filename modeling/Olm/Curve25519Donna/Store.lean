import Olm.Curve25519Donna.Contract

/-!
# Limbs to bytes

The end of `fcontract` puts the bits of each limb in the four bytes they
belong to: of all the limbs that stand for a field element, the bytes are
those of its number below `2 ^ 255 - 19`.
-/

namespace Olm

namespace Donna

open Signed

/-! ## Bytes -/

/-- The byte of the number at an index. -/
def byteAt (n k : ℕ) : UInt8 := UInt8.ofNat (n / 256 ^ k)

theorem byteOf_eq {a : S32} {c : BitVec 32} (ha : a = some c) {k : ℕ} (hk : k ≤ 3) :
    byteOf a (8 * k) = some (byteAt c.toNat k) := by
  subst ha
  refine congrArg some (UInt8.toBitVec_inj.mp (BitVec.eq_of_getLsbD_eq fun i hi => ?_))
  have hmask : (255#32).getLsbD i = true := by
    rw [show 255#32 = BitVec.ofNat 32 (2 ^ 8 - 1) by rfl, BitVec.getLsbD_ofNat,
      Nat.testBit_two_pow_sub_one]
    simp only [Bool.and_eq_true, decide_eq_true_eq]
    omega
  have hpow : (256 : ℕ) ^ k = 2 ^ (8 * k) := (pow_mul 2 8 k).symm
  rw [byteAt, hpow, UInt8.toBitVec_ofNat', BitVec.getLsbD_ofNat, Nat.testBit_div_two_pow,
    UInt8.toBitVec_ofBitVec, BitVec.getLsbD_setWidth, BitVec.getLsbD_and]
  change (_ && ((c.sshiftRight (8 * k)).getLsbD i && (255#32).getLsbD i)) = _
  rw [hmask, Bool.and_true, BitVec.getLsbD_sshiftRight, if_pos (by omega), BitVec.getLsbD,
    Nat.add_comm i, decide_eq_false (show ¬32 ≤ i by omega), Bool.not_false, Bool.true_and]

variable {output : Vector (Option UInt8) 32}

/-- The bytes up to that index are those of the number. -/
def Stored (n s : ℕ) (output : Vector (Option UInt8) 32) : Prop :=
  ∀ k : Fin 32, k.val ≤ s → output.get k = some (byteAt n k)

theorem byteAt_of_mod {n m k : ℕ} (h : n / 256 ^ k % 256 = m / 256 ^ k % 256) :
    byteAt n k = byteAt m k := by
  apply UInt8.toNat_inj.mp
  rw [byteAt, byteAt, UInt8.toNat_ofNat', UInt8.toNat_ofNat']
  exact h

/-- The bytes below a limb are not changed by it. -/
theorem byteAt_add_of_lt {n x s k : ℕ} (h : k < s) :
    byteAt (n + x * 256 ^ s) k = byteAt n k := by
  apply byteAt_of_mod
  obtain ⟨d, rfl⟩ := Nat.exists_eq_add_of_lt h
  rw [show x * 256 ^ (k + d + 1) = 256 ^ k * (256 * (x * 256 ^ d)) by ring,
    Nat.add_mul_div_left _ _ (by positivity), Nat.add_mul_mod_self_left]

theorem byteAt_add (n x s k : ℕ) :
    byteAt (n + x * 256 ^ s) (s + k) = byteAt (n / 256 ^ s + x) k := by
  rw [byteAt, byteAt, pow_add, ← Nat.div_div_eq_div_mul, Nat.add_mul_div_right _ _ (by positivity)]

/-- Bits below those of the limb are in its first byte. -/
theorem byteAt_first {n x shift : ℕ} (h : n < 2 ^ shift) :
    byteAt (n + x * 2 ^ shift) 0 = byteAt n 0 ||| byteAt (x * 2 ^ shift) 0 := by
  simp only [byteAt, pow_zero, Nat.div_one]
  rw [← UInt8.ofNat_or, Nat.or_comm, mul_comm, ← Nat.two_pow_add_eq_or_of_lt h, add_comm]

theorem byteAt_rest {n x shift k : ℕ} (h : n < 2 ^ shift) (hshift : shift ≤ 8) :
    byteAt (n + x * 2 ^ shift) (k + 1) = byteAt (x * 2 ^ shift) (k + 1) := by
  have hpow : 256 ^ (k + 1) = 2 ^ shift * (2 ^ (8 - shift) * 256 ^ k) := by
    rw [← mul_assoc, ← pow_add, Nat.add_sub_cancel' hshift, pow_succ']
    rfl
  have hdiv : (n + x * 2 ^ shift) / 2 ^ shift = x * 2 ^ shift / 2 ^ shift := by
    rw [Nat.add_mul_div_right _ _ (Nat.two_pow_pos _), Nat.div_eq_of_lt h, zero_add,
      Nat.mul_div_cancel _ (Nat.two_pow_pos _)]
  simp only [byteAt, hpow, ← Nat.div_div_eq_div_mul _ (2 ^ shift), hdiv]

/-- What the macro `F` of `fcontract` stores at an index. -/
theorem getElem_storeLimb (a : S32) (s : Fin 29) {k : ℕ} (hk : k < 32) (hs : s.val < 32) :
    (storeLimb a s output)[k] =
      if k = s.val then orByte output[s.val] (byteOf a 0)
      else if s.val < k ∧ k ≤ s.val + 3 then byteOf a (8 * (k - s.val))
      else output[k] := by
  simp only [storeLimb, Vector.getElem_set, Nat.add_zero]
  by_cases hfirst : k = s.val
  · rw [if_neg (by omega), if_neg (by omega), if_neg (by omega), if_pos hfirst.symm,
      if_pos hfirst]
  · rw [if_neg hfirst]
    by_cases hin : s.val < k ∧ k ≤ s.val + 3
    · rw [if_pos hin]
      have hcases : k - s.val = 1 ∨ k - s.val = 2 ∨ k - s.val = 3 := by omega
      rcases hcases with hd | hd | hd
      · rw [hd, if_neg (by omega), if_neg (by omega), if_pos (by omega)]
      · rw [hd, if_neg (by omega), if_pos (by omega)]
      · rw [hd, if_pos (by omega)]
    · rw [if_neg hin, if_neg (by omega), if_neg (by omega), if_neg (by omega), if_neg (by omega)]

/-- The bytes after those of a limb are the next ones of its number. -/
theorem Stored.storeLimb {n x shift : ℕ} {s : Fin 29} {a : S32} {c : BitVec 32}
    (h : Stored n s output) (hn : n < 2 ^ (8 * s.val + shift)) (ha : a = some c)
    (hx : c.toNat = x * 2 ^ shift) (hshift : shift ≤ 8) :
    Stored (n + x * 2 ^ (8 * s.val + shift)) (s + 3) (storeLimb a s output) := by
  have hpow : (2 : ℕ) ^ (8 * s.val + shift) = 2 ^ shift * 256 ^ s.val := by
    rw [add_comm, pow_add]
    exact congrArg _ (pow_mul 2 8 s.val)
  have hlow : n / 256 ^ s.val < 2 ^ shift := Nat.div_lt_of_lt_mul (by rwa [mul_comm, ← hpow])
  have hfirst : output[s.val] = some (byteAt n s.val) := h ⟨s.val, by omega⟩ le_rfl
  rw [hpow, ← mul_assoc]
  intro k hk
  change (Donna.storeLimb a s output)[k.val] = _
  rw [getElem_storeLimb a s k.isLt (by omega)]
  rcases Nat.lt_trichotomy k.val s.val with hbelow | heq | habove
  · rw [if_neg (by omega), if_neg (by omega), byteAt_add_of_lt hbelow]
    exact h k (by omega)
  · have hbyte := byteAt_add n (x * 2 ^ shift) s.val 0
    rw [byteAt_first hlow, ← hx, Nat.add_zero] at hbyte
    rw [if_pos heq, heq, hfirst, byteOf_eq ha (k := 0) (by omega), ← hx, hbyte]
    simp only [byteAt, pow_zero, Nat.div_one]
    rfl
  · obtain ⟨d, hd⟩ := Nat.exists_eq_add_of_lt habove
    have hbyte := byteAt_add n (x * 2 ^ shift) s.val (d + 1)
    rw [byteAt_rest hlow hshift, ← hx] at hbyte
    rw [if_neg (by omega), if_pos ⟨habove, hk⟩, show k.val - s.val = d + 1 by omega,
      byteOf_eq ha (by omega), ← hx, hd, ← hbyte, Nat.add_assoc]

/-! ## Storing -/

/-- The limb where it goes in its bytes. -/
theorem shiftLeft_bits {a : S32} {x shift : ℕ} (h : a.Holds (x : ℤ)) (hx : x < 2 ^ 26)
    (hshift : shift ≤ 6) : ∃ c : BitVec 32, a <<< shift = some c ∧ c.toNat = x * 2 ^ shift := by
  obtain ⟨c, rfl, hc⟩ := h
  have hpow : 2 ^ shift ≤ 2 ^ 6 := Nat.pow_le_pow_right (by omega) hshift
  have hmul := Nat.mul_le_mul (show x ≤ 2 ^ 26 - 1 by omega) hpow
  have hcases := BitVec.toInt_eq_toNat_cond c
  have hnat : c.toNat = x := by
    have hlt := c.isLt
    split at hcases <;> omega
  refine ⟨c <<< shift, rfl, ?_⟩
  rw [BitVec.toNat_shiftLeft, Nat.shiftLeft_eq, hnat, Nat.mod_eq_of_lt (by omega)]

theorem start_lt (i : Fin 10) : exponent i / 8 < 29 := by
  have hlt := i.isLt
  rw [exponent]
  omega

/-- The byte with the first bit of a limb. -/
def startOf (i : Fin 10) : Fin 29 := ⟨exponent i / 8, start_lt i⟩

theorem shifted_eq (input : Vector S32 10) :
    shifted input = (List.finRange 10).map fun i : Fin 10 =>
      (input.get i <<< (exponent i % 8), startOf i) := by
  have hzero : ∀ a : S32, a <<< (0 : ℕ) = a := by
    intro a
    cases a with
    | none => rfl
    | some c => exact congrArg some (BitVec.shiftLeft_zero c)
  have hlist : List.finRange 10 = [0, 1, 2, 3, 4, 5, 6, 7, 8, 9] := by decide
  rw [hlist, shifted, ← hzero input[0], ← hzero input[5]]
  rfl

/-- The byte at an index is 0. -/
def Cleared (j : ℕ) (output : Vector (Option UInt8) 32) : Prop :=
  ∀ k : Fin 32, k.val = j → output.get k = some 0

/-- The bits below limb `k` are stored, and byte 16 is cleared until the limb
that starts there is stored. -/
def StoredTo (m k : ℕ) (output : Vector (Option UInt8) 32) : Prop :=
  Stored (m % 2 ^ exponent k) (exponent k / 8) output ∧ (k ≤ 5 → Cleared 16 output)

theorem StoredTo.step {v : Vector S32 10} {m : ℕ} (hv : Holding v (limbsOf m)) {i : Fin 10}
    (h : StoredTo m i output) :
    StoredTo m (i + 1) (storeLimb (v.get i <<< (exponent i % 8)) (startOf i) output) := by
  obtain ⟨hstored, hclear⟩ := h
  have hlt : m % 2 ^ exponent i < 2 ^ exponent i := Nat.mod_lt _ (Nat.two_pow_pos _)
  have hexp : 8 * (startOf i).val + exponent i % 8 = exponent i := Nat.div_add_mod _ _
  have hlimb : bitsOf m (exponent i) (limbBits i) < 2 ^ 26 := by
    have hmod : bitsOf m (exponent i) (limbBits i) < 2 ^ limbBits i :=
      Nat.mod_lt _ (Nat.two_pow_pos _)
    rcases limbBits_cases i with hbits | hbits <;> rw [hbits] at hmod ⊢ <;> omega
  have hshift : ∀ i : Fin 10, exponent i % 8 ≤ 6 := by decide
  obtain ⟨c, ha, hc⟩ := shiftLeft_bits (a := v.get i) (hv i) hlimb (hshift i)
  have hnext := hstored.storeLimb (s := startOf i) (by rwa [hexp]) ha hc (by
    have := hshift i
    omega)
  have hsum : m % 2 ^ exponent i + bitsOf m (exponent i) (limbBits i) * 2 ^ exponent i =
      m % 2 ^ exponent (i + 1) := by
    rw [exponent_succ, pow_add, Nat.mod_mul, bitsOf, mul_comm]
  rw [hexp, hsum] at hnext
  have hstart : ∀ i : Fin 10, exponent (i + 1) / 8 ≤ (startOf i).val + 3 ∨ i = 4 := by decide
  have hkeep : i.val ≤ 4 →
      Cleared 16 (storeLimb (v.get i <<< (exponent i % 8)) (startOf i) output) := by
    intro hi k hk
    have hbefore : ∀ i : Fin 10, i.val ≤ 4 → (startOf i).val + 3 < 16 := by decide
    have hlow := hbefore i hi
    change (storeLimb (v.get i <<< (exponent i % 8)) (startOf i) output)[k.val] = _
    rw [getElem_storeLimb _ _ k.isLt (by omega), if_neg (by omega), if_neg (by omega)]
    exact hclear (by omega) k hk
  refine ⟨fun k hk => ?_, fun hi => hkeep (by omega)⟩
  rcases hstart i with hle | rfl
  · exact hnext k (by omega)
  · rcases Nat.lt_or_ge k.val 16 with hlow | hhigh
    · exact hnext k (Nat.le_of_lt_succ hlow)
    · have hk' : k.val ≤ 16 := hk
      have hbyte : byteAt (m % 2 ^ exponent 5) 16 = 0 := by
        have hlow : m % 2 ^ exponent 5 < 256 ^ 16 := Nat.mod_lt _ (Nat.two_pow_pos 128)
        rw [byteAt, Nat.div_eq_of_lt hlow]
        rfl
      have hkept := hkeep (by decide) k (by omega)
      rw [← hbyte] at hkept
      rwa [show k.val = 16 by omega]

/-- **The end of `fcontract`** stores the bytes of the number. -/
theorem storeLimbs_stored {v : Vector S32 10} {m : ℕ} (hm : m < 2 ^ 255)
    (hv : Holding v (limbsOf m)) (k : Fin 32) :
    (storeLimbs v output)[k] = some (byteAt m k) := by
  have hstart : StoredTo m 0 ((output.set 0 (some 0)).set 16 (some 0)) := by
    refine ⟨fun k hk => ?_, fun _ k hk => ?_⟩
    · have hzero : k = 0 := Fin.ext (Nat.le_zero.mp hk)
      subst hzero
      rw [show exponent 0 = 0 by rfl, pow_zero, Nat.mod_one]
      refine (Vector.getElem_set_ne _ _ (by decide)).trans ?_
      exact Vector.getElem_set_self _
    · change ((output.set 0 (some 0)).set 16 (some 0))[k.val] = _
      rw [Vector.getElem_set, if_pos hk.symm]
  have hloop := foldl_finRange
    (fun output (i : Fin 10) => storeLimb (v.get i <<< (exponent i % 8)) (startOf i) output)
    (fun k => StoredTo m k) (fun i output h => h.step hv) hstart
  have hstored := hloop.1 k (Nat.le_of_lt_succ k.isLt)
  rw [show exponent 10 = 255 by rfl, Nat.mod_eq_of_lt hm] at hstored
  rw [← hstored, storeLimbs, shifted_eq, List.foldl_map]
  rfl

theorem collect_eq {bytes : FixedBytes 32} (h : ∀ k : Fin 32, output[k] = bytes.val[k.val]?) :
    collect output = some bytes := by
  have hsome : ∀ k : Fin 32, output[k].isSome := by
    intro k
    rw [h k, List.getElem?_eq_getElem (by rw [bytes.property]; exact k.isLt)]
    rfl
  rw [collect, dif_pos hsome]
  refine congrArg some (Subtype.ext (List.ext_getElem ?_ fun k hk hk' => ?_))
  · rw [List.length_ofFn, bytes.property]
  · rw [List.getElem_ofFn]
    have hk := h ⟨k, by rwa [List.length_ofFn] at hk⟩
    rw [List.getElem?_eq_getElem hk'] at hk
    exact Option.get_of_eq_some _ hk

/-- The bytes of a field element. -/
def toBytes (u : ZMod prime) : FixedBytes 32 := ⟨littleEndian 32 u.val, length_littleEndian 32 _⟩

theorem fcontract_eq_collect (memory : FixedBytes 32) (z : Limbs 10) :
    fcontract memory z = collect (storeLimbs (subtractMasked (carriedLimbs z))
      (.ofFn fun i => memory.val[i.val]?)) := rfl

theorem getElem_toBytes (u : ZMod prime) (k : Fin 32) :
    (toBytes u).val[k.val]? = some (byteAt u.val k) := by
  have hlt : k.val < (littleEndian 32 u.val).length := by
    rw [length_littleEndian]
    exact k.isLt
  exact (List.getElem?_eq_getElem hlt).trans (congrArg some (getElem_littleEndian 32 u.val hlt))

/-- **`fcontract`** has no overflow, and its bytes are those of the field
element below `2 ^ 255 - 19`, whatever limbs stand for it. -/
theorem fcontract_eq {z : Limbs 10} {u : ZMod prime} (h : Represents z (2 ^ 26 - 1) u)
    (memory : FixedBytes 32) : fcontract memory z = some (toBytes u) := by
  obtain ⟨x, hx, hcanonical, hu⟩ := carriedLimbs_stands h
  obtain ⟨m, hm, hlimbs, hvalue⟩ := exists_eq_limbsOf _ (canonical_subtracted hcanonical)
  have hm' : u.val = m := val_of_subtracted hcanonical hu hvalue
  rw [show exponent 10 = 255 by rfl] at hm
  rw [fcontract_eq_collect]
  refine collect_eq fun k => ?_
  rw [storeLimbs_stored hm (hlimbs ▸ subtractMasked_holding hx hcanonical) k, getElem_toBytes, hm']

end Donna

end Olm
