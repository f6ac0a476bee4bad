import Mathlib.Algebra.BigOperators.Fin
import Mathlib.Data.List.FinRange
import Mathlib.Data.ZMod.Basic
import Mathlib.Tactic.FinCases
import Mathlib.Tactic.LinearCombination
import Mathlib.Tactic.NormNum
import Olm.Common.Bytes
import Olm.Common.Signed

/-!
# The vendored Curve25519

`lib/curve25519-donna/curve25519-donna.c`. A field element is ten limbs of 26
and 25 bits in turn, each a signed 64-bit integer. A product has nineteen of
them, and is brought back to ten by `freduce_degree` and
`freduce_coefficients`. Of the arrays of nineteen limbs, what stands behind
the tenth after that is never read, so here it is dropped.

Ten limbs stand for an integer modulo `2 ^ 255 - 19`. Each function of the
source computes the limbs of the sum, the difference or the product, and
keeps the bounds that its comments give, so that no limb overflows on the
way: the products of limbs below `2 ^ 27` are sums of at most fourteen
products, and the carries bring them below `2 ^ 26` again.
-/

namespace Olm

namespace Donna

open Signed

/-- `limb`. -/
abbrev Limb := Signed 64

/-- `s32`. -/
abbrev S32 := Signed 32

/-- `limb[n]`. -/
abbrev Limbs (n : ℕ) := Vector Limb n

/-- `(limb) ((s32) x)`. -/
def s32 (x : Limb) : Limb := (x.cast 32).cast 64

/-- For the numerals that are indices. -/
scoped instance neZero_limbs : NeZero 10 := ⟨by decide⟩

/-! ## Sums and products -/

/-- `fsum`. -/
def fsum (output input : Limbs 10) : Limbs 10 := .ofFn fun i => output[i] + input[i]

/-- `fdifference`. -/
def fdifference (output input : Limbs 10) : Limbs 10 := .ofFn fun i => input[i] - output[i]

/-- `fscalar_product`. -/
def fscalarProduct (input : Limbs 10) (scalar : Limb) : Limbs 10 := .ofFn fun i => input[i] * scalar

/-- The sums that `fproduct` computes, over any numbers. -/
def productSums {R : Type} [Add R] [Mul R] [OfNat R 2] (x y : Fin 10 → R) : Vector R 19 :=
  #v[x 0 * y 0,
    x 0 * y 1 + x 1 * y 0,
    2 * x 1 * y 1 + x 0 * y 2 + x 2 * y 0,
    x 1 * y 2 + x 2 * y 1 + x 0 * y 3 + x 3 * y 0,
    x 2 * y 2 + 2 * (x 1 * y 3 + x 3 * y 1) + x 0 * y 4 + x 4 * y 0,
    x 2 * y 3 + x 3 * y 2 + x 1 * y 4 + x 4 * y 1 + x 0 * y 5 + x 5 * y 0,
    2 * (x 3 * y 3 + x 1 * y 5 + x 5 * y 1) + x 2 * y 4 + x 4 * y 2 + x 0 * y 6 + x 6 * y 0,
    x 3 * y 4 + x 4 * y 3 + x 2 * y 5 + x 5 * y 2 + x 1 * y 6 + x 6 * y 1 + x 0 * y 7 + x 7 * y 0,
    x 4 * y 4 + 2 * (x 3 * y 5 + x 5 * y 3 + x 1 * y 7 + x 7 * y 1) + x 2 * y 6 + x 6 * y 2 +
      x 0 * y 8 + x 8 * y 0,
    x 4 * y 5 + x 5 * y 4 + x 3 * y 6 + x 6 * y 3 + x 2 * y 7 + x 7 * y 2 + x 1 * y 8 +
      x 8 * y 1 + x 0 * y 9 + x 9 * y 0,
    2 * (x 5 * y 5 + x 3 * y 7 + x 7 * y 3 + x 1 * y 9 + x 9 * y 1) + x 4 * y 6 + x 6 * y 4 +
      x 2 * y 8 + x 8 * y 2,
    x 5 * y 6 + x 6 * y 5 + x 4 * y 7 + x 7 * y 4 + x 3 * y 8 + x 8 * y 3 + x 2 * y 9 + x 9 * y 2,
    x 6 * y 6 + 2 * (x 5 * y 7 + x 7 * y 5 + x 3 * y 9 + x 9 * y 3) + x 4 * y 8 + x 8 * y 4,
    x 6 * y 7 + x 7 * y 6 + x 5 * y 8 + x 8 * y 5 + x 4 * y 9 + x 9 * y 4,
    2 * (x 7 * y 7 + x 5 * y 9 + x 9 * y 5) + x 6 * y 8 + x 8 * y 6,
    x 7 * y 8 + x 8 * y 7 + x 6 * y 9 + x 9 * y 6,
    x 8 * y 8 + 2 * (x 7 * y 9 + x 9 * y 7),
    x 8 * y 9 + x 9 * y 8,
    2 * x 9 * y 9]

/-- `fproduct`. -/
def fproduct (in2 input : Limbs 10) : Limbs 19 :=
  productSums (fun i => s32 in2[i]) fun i => s32 input[i]

/-- The sums that `fsquare_inner` computes. -/
def squareSums {R : Type} [Add R] [Mul R] [OfNat R 2] [OfNat R 4] (x : Fin 10 → R) : Vector R 19 :=
  #v[x 0 * x 0,
    2 * x 0 * x 1,
    2 * (x 1 * x 1 + x 0 * x 2),
    2 * (x 1 * x 2 + x 0 * x 3),
    x 2 * x 2 + 4 * x 1 * x 3 + 2 * x 0 * x 4,
    2 * (x 2 * x 3 + x 1 * x 4 + x 0 * x 5),
    2 * (x 3 * x 3 + x 2 * x 4 + x 0 * x 6 + 2 * x 1 * x 5),
    2 * (x 3 * x 4 + x 2 * x 5 + x 1 * x 6 + x 0 * x 7),
    x 4 * x 4 + 2 * (x 2 * x 6 + x 0 * x 8 + 2 * (x 1 * x 7 + x 3 * x 5)),
    2 * (x 4 * x 5 + x 3 * x 6 + x 2 * x 7 + x 1 * x 8 + x 0 * x 9),
    2 * (x 5 * x 5 + x 4 * x 6 + x 2 * x 8 + 2 * (x 3 * x 7 + x 1 * x 9)),
    2 * (x 5 * x 6 + x 4 * x 7 + x 3 * x 8 + x 2 * x 9),
    x 6 * x 6 + 2 * (x 4 * x 8 + 2 * (x 5 * x 7 + x 3 * x 9)),
    2 * (x 6 * x 7 + x 5 * x 8 + x 4 * x 9),
    2 * (x 7 * x 7 + x 6 * x 8 + 2 * x 5 * x 9),
    2 * (x 7 * x 8 + x 6 * x 9),
    x 8 * x 8 + 4 * x 7 * x 9,
    2 * x 8 * x 9,
    2 * x 9 * x 9]

/-- `fsquare_inner`. -/
def fsquareInner (input : Limbs 10) : Limbs 19 := squareSums fun i => s32 input[i]

/-- `freduce_degree`: nine limbs have a higher one that is added 19 times. -/
def freduceDegree (output : Limbs 19) : Limbs 10 :=
  .ofFn fun i =>
    if h : i.val < 9 then
      let high := output[i.val + 10]
      output[i.val] + high <<< 4 + high <<< 1 + high
    else output[9]

/-! ## Carries -/

/-- The `roundoff` of `div_by_2_26` and `div_by_2_25`. -/
def roundoff (shift : ℕ) (v : Limb) : Limb :=
  Option.map (fun v : BitVec 64 =>
    let highword := (v >>> 32).setWidth 32
    let sign := highword.sshiftRight 31
    (sign >>> shift).signExtend 64) v

/-- `div_by_2_26`. -/
def divBy2_26 (v : Limb) : Limb := (v + roundoff 6 v) >>> 26

/-- `div_by_2_25`. -/
def divBy2_25 (v : Limb) : Limb := (v + roundoff 7 v) >>> 25

/-- The `over` of a limb goes to the next one. -/
def carryOver (overLimb : Limb) (bits : ℕ) (i : Fin 10) (output : Limbs 11) : Limbs 11 :=
  let output := output.set i.castSucc (output[i.castSucc] - overLimb <<< bits)
  output.set i.succ (output[i.succ] + overLimb)

def carry26 (i : Fin 10) (output : Limbs 11) : Limbs 11 :=
  carryOver (divBy2_26 output[i.castSucc]) 26 i output

def carry25 (i : Fin 10) (output : Limbs 11) : Limbs 11 :=
  carryOver (divBy2_25 output[i.castSucc]) 25 i output

/-- `freduce_coefficients`. -/
def freduceCoefficients (output : Limbs 10) : Limbs 10 :=
  let output : Limbs 11 := output.push 0
  let output := [0, 2, 4, 6, 8].foldl (fun output i => carry25 (i + 1) (carry26 i output)) output
  let output := output.set 0 (output[0] + output[10] <<< 4 + output[10] <<< 1 + output[10])
  let output := output.set 10 0
  (carry26 0 output).pop

/-- `fmul`. -/
def fmul (input in2 : Limbs 10) : Limbs 10 :=
  freduceCoefficients (freduceDegree (fproduct input in2))

/-- `fsquare`. -/
def fsquare (input : Limbs 10) : Limbs 10 :=
  freduceCoefficients (freduceDegree (fsquareInner input))

/-! ## Bytes to limbs -/

/-- `((limb) input[i])`. -/
def byteLimb (input : FixedBytes 32) (i : ℕ) : Limb :=
  some ((input.val.getD i 0).toBitVec.setWidth 64)

/-- The macro `F` of `fexpand`. -/
def expandLimb (input : FixedBytes 32) (start shift : ℕ) (mask : Limb) : Limb :=
  ((byteLimb input (start + 0) ||| byteLimb input (start + 1) <<< 8 |||
    byteLimb input (start + 2) <<< 16 ||| byteLimb input (start + 3) <<< 24) >>> shift) &&& mask

/-- `fexpand`. -/
def fexpand (input : FixedBytes 32) : Limbs 10 :=
  #v[expandLimb input 0 0 0x3ffffff,
    expandLimb input 3 2 0x1ffffff,
    expandLimb input 6 3 0x3ffffff,
    expandLimb input 9 5 0x1ffffff,
    expandLimb input 12 6 0x3ffffff,
    expandLimb input 16 0 0x1ffffff,
    expandLimb input 19 1 0x3ffffff,
    expandLimb input 22 3 0x1ffffff,
    expandLimb input 25 4 0x3ffffff,
    expandLimb input 28 6 0x1ffffff]

/-! ## Limbs to bytes -/

/-- `s32_eq`. -/
def s32Eq (a b : S32) : S32 :=
  let a := ~~~(a ^^^ b)
  let a := a &&& a <<< 16
  let a := a &&& a <<< 8
  let a := a &&& a <<< 4
  let a := a &&& a <<< 2
  let a := a &&& a <<< 1
  a >>> 31

/-- `s32_gte`. -/
def s32Gte (a b : S32) : S32 := ~~~((a - b) >>> 31)

/-- The bits of a limb of a field element. -/
def limbBits (i : ℕ) : ℕ := if i % 2 = 1 then 25 else 26

/-- What makes a limb positive, borrowed from the next one. -/
def borrowed (bits : ℕ) (x : S32) : S32 :=
  let mask := x >>> 31;
  -((x &&& mask) >>> bits)

/-- The first loop of `fcontract`. -/
def borrow (i : Fin 9) (input : Vector S32 10) : Vector S32 10 :=
  let carry := borrowed (limbBits i) input[i.castSucc]
  let input := input.set i.castSucc (input[i.castSucc] + carry <<< limbBits i)
  input.set i.succ (input[i.succ] - carry)

/-- The last limb borrows from the first one, 19 times as much. -/
def borrowLast (input : Vector S32 10) : Vector S32 10 :=
  let carry := borrowed 25 input[9]
  let input := input.set 9 (input[9] + carry <<< 25)
  input.set 0 (input[0] - carry * 19)

def borrowPass (input : Vector S32 10) : Vector S32 10 :=
  borrowLast ((List.finRange 9).foldl (fun input i => borrow i input) input)

/-- The bits that a limb has room for. -/
def limbMask (i : ℕ) : S32 := if i % 2 = 1 then 0x1ffffff else 0x3ffffff

/-- The second loop of `fcontract`. -/
def carry (i : Fin 9) (input : Vector S32 10) : Vector S32 10 :=
  let overLimb := input[i.castSucc] >>> limbBits i
  let input := input.set i.castSucc (input[i.castSucc] &&& limbMask i)
  input.set i.succ (input[i.succ] + overLimb)

def carryLast (input : Vector S32 10) : Vector S32 10 :=
  let overLimb := input[9] >>> 25
  let input := input.set 9 (input[9] &&& 0x1ffffff)
  input.set 0 (input[0] + 19 * overLimb)

def carryPass (input : Vector S32 10) : Vector S32 10 :=
  carryLast ((List.finRange 9).foldl (fun input i => carry i input) input)

/-- `mask`, all ones if the limbs are those of `2 ^ 255 - 19` or more. -/
def overMask (input : Vector S32 10) : S32 :=
  (List.finRange 9).foldl
    (fun mask (i : Fin 9) => mask &&& s32Eq input[i.succ] (limbMask i.succ))
    (s32Gte input[0] 0x3ffffed)

/-- The conditional subtraction. -/
def subtractMasked (input : Vector S32 10) : Vector S32 10 :=
  let mask := overMask input
  .ofFn fun i : Fin 10 => input[i] - (mask &&& if i.val = 0 then 0x3ffffed else limbMask i)

/-- A byte of an integer, as the macro `F` of `fcontract` takes it. -/
def byteOf (x : S32) (shift : ℕ) : Option UInt8 :=
  Option.map (fun x : BitVec 32 => UInt8.ofBitVec (x.setWidth 8)) ((x >>> shift) &&& 0xff)

/-- `x | y` on bytes. -/
def orByte (x y : Option UInt8) : Option UInt8 := Option.bind x fun x => Option.map (x ||| ·) y

/-- The macro `F` of `fcontract`. -/
def storeLimb (x : S32) (s : Fin 29) (output : Vector (Option UInt8) 32) :
    Vector (Option UInt8) 32 :=
  let output := output.set (s.val + 0) (orByte output[s.val + 0] (byteOf x 0))
  let output := output.set (s.val + 1) (byteOf x 8)
  let output := output.set (s.val + 2) (byteOf x 16)
  output.set (s.val + 3) (byteOf x 24)

/-- The limbs, each where its bits go in its four bytes, with the first of
these. -/
def shifted (input : Vector S32 10) : List (S32 × Fin 29) :=
  [(input[0], 0), (input[1] <<< 2, 3), (input[2] <<< 3, 6), (input[3] <<< 5, 9),
    (input[4] <<< 6, 12), (input[5], 16), (input[6] <<< 1, 19), (input[7] <<< 3, 22),
    (input[8] <<< 4, 25), (input[9] <<< 6, 28)]

/-- The end of `fcontract`. -/
def storeLimbs (input : Vector S32 10) (output : Vector (Option UInt8) 32) :
    Vector (Option UInt8) 32 :=
  let output := output.set 0 (some 0)
  let output := output.set 16 (some 0)
  (shifted input).foldl (fun output entry => storeLimb entry.1 entry.2 output) output

/-- The array, if all its bytes have a value. -/
def collect (output : Vector (Option UInt8) 32) : Option (FixedBytes 32) :=
  if h : ∀ i : Fin 32, output[i].isSome then
    some ⟨List.ofFn fun i : Fin 32 => output[i].get (h i), List.length_ofFn⟩
  else none

/-- `fcontract`, which writes over what `output` holds. -/
def fcontract (output : FixedBytes 32) (inputLimbs : Limbs 10) : Option (FixedBytes 32) :=
  let input : Vector S32 10 := inputLimbs.map (Signed.cast 32)
  let input := borrowPass (borrowPass input)
  let carry := borrowed 26 input[0]
  let input := input.set 0 (input[0] + carry <<< 26)
  let input := input.set 1 (input[1] - carry)
  let input := carryPass (carryPass input)
  let input := subtractMasked input
  collect (storeLimbs input (.ofFn fun i => output.val[i.val]?))

/-! ## The ladder -/

/-- `nqx`, `nqz`, `nqpqx` and `nqpqz` of `cmult`. -/
structure Multiples where
  nqx : Limbs 10
  nqz : Limbs 10
  nqpqx : Limbs 10
  nqpqz : Limbs 10

/-- `fmonty`. -/
def fmonty (m : Multiples) (qmqp : Limbs 10) : Multiples :=
  let origx := m.nqx
  let x := fsum m.nqx m.nqz
  let z := fdifference m.nqz origx
  let origxprime := m.nqpqx
  let xprime := fsum m.nqpqx m.nqpqz
  let zprime := fdifference m.nqpqz origxprime
  let xxprime := freduceCoefficients (freduceDegree (fproduct xprime z))
  let zzprime := freduceCoefficients (freduceDegree (fproduct x zprime))
  let origxprime := xxprime
  let xxprime := fsum xxprime zzprime
  let zzprime := fdifference zzprime origxprime
  let xxxprime := fsquare xxprime
  let zzzprime := fsquare zzprime
  let zzprime := freduceCoefficients (freduceDegree (fproduct zzzprime qmqp))
  let xx := fsquare x
  let zz := fsquare z
  let x2 := freduceCoefficients (freduceDegree (fproduct xx zz))
  let zz := fdifference zz xx
  let zzz := freduceCoefficients (fscalarProduct zz 121665)
  let zzz := fsum zzz xx
  let z2 := freduceCoefficients (freduceDegree (fproduct zz zzz))
  { nqx := x2, nqz := z2, nqpqx := xxxprime, nqpqz := zzprime }

/-- `swap_conditional`. -/
def swapConditional (a b : Limbs 10) (iswap : Limb) : Limbs 10 × Limbs 10 :=
  let swap : S32 := (-iswap).cast 32
  let x : Vector S32 10 := .ofFn fun i => swap &&& (a[i].cast 32 ^^^ b[i].cast 32)
  (.ofFn fun i => (a[i].cast 32 ^^^ x[i]).cast 64, .ofFn fun i => (b[i].cast 32 ^^^ x[i]).cast 64)

def swapMultiples (bit : Limb) (m : Multiples) : Multiples :=
  let x := swapConditional m.nqx m.nqpqx bit
  let z := swapConditional m.nqz m.nqpqz bit
  { nqx := x.1, nqz := z.1, nqpqx := x.2, nqpqz := z.2 }

/-- The inner loop of `cmult`, with the bits that `byte` still has. -/
def cmultByte (q : Limbs 10) : (bits : ℕ) → UInt8 → Multiples → Multiples
  | 0, _, m => m
  | bits + 1, byte, m =>
    let bit : Limb := some ((byte >>> 7).toBitVec.setWidth 64)
    let m := swapMultiples bit (fmonty (swapMultiples bit m) q)
    cmultByte q bits (byte <<< 1) m

/-- `cmult`, the `x` and the `z` of its result. -/
def cmult (n : FixedBytes 32) (q : Limbs 10) : Limbs 10 × Limbs 10 :=
  let zero : Limbs 10 := .replicate 10 0
  let one : Limbs 10 := zero.set 0 1
  let m := n.val.reverse.foldl (fun m byte => cmultByte q 8 byte m)
    { nqx := one, nqz := zero, nqpqx := q, nqpqz := one }
  (m.nqx, m.nqz)

/-! ## The inverse -/

/-- Two squarings, `n` times. -/
def squareTwice : (n : ℕ) → Limbs 10 → Limbs 10
  | 0, t => t
  | n + 1, t => squareTwice n (fsquare (fsquare t))

/-- `crecip`. -/
def crecip (z : Limbs 10) : Limbs 10 :=
  let z2 := fsquare z
  let t1 := fsquare z2
  let t0 := fsquare t1
  let z9 := fmul t0 z
  let z11 := fmul z9 z2
  let t0 := fsquare z11
  let z2_5_0 := fmul t0 z9
  let t0 := fsquare z2_5_0
  let t1 := fsquare t0
  let t0 := fsquare t1
  let t1 := fsquare t0
  let t0 := fsquare t1
  let z2_10_0 := fmul t0 z2_5_0
  let t0 := fsquare z2_10_0
  let t1 := fsquare t0
  let t1 := squareTwice 4 t1
  let z2_20_0 := fmul t1 z2_10_0
  let t0 := fsquare z2_20_0
  let t1 := fsquare t0
  let t1 := squareTwice 9 t1
  let t0 := fmul t1 z2_20_0
  let t1 := fsquare t0
  let t0 := fsquare t1
  let t0 := squareTwice 4 t0
  let z2_50_0 := fmul t0 z2_10_0
  let t0 := fsquare z2_50_0
  let t1 := fsquare t0
  let t1 := squareTwice 24 t1
  let z2_100_0 := fmul t1 z2_50_0
  let t1 := fsquare z2_100_0
  let t0 := fsquare t1
  let t0 := squareTwice 49 t0
  let t1 := fmul t0 z2_100_0
  let t0 := fsquare t1
  let t1 := fsquare t0
  let t1 := squareTwice 24 t1
  let t0 := fmul t1 z2_50_0
  let t1 := fsquare t0
  let t0 := fsquare t1
  let t1 := fsquare t0
  let t0 := fsquare t1
  let t1 := fsquare t0
  fmul t1 z11

/-- The secret as the ladder uses it. -/
def clamp (secret : FixedBytes 32) : FixedBytes 32 :=
  ⟨((secret.val.modify 0 (· &&& 248)).modify 31 (· &&& 127)).modify 31 (· ||| 64), by
    simp only [List.length_modify, FixedBytes.length_val]⟩

/-- `curve25519_donna`, which writes over what `mypublic` holds. -/
def curve25519Donna (mypublic secret basepoint : FixedBytes 32) : Option (FixedBytes 32) :=
  let e := clamp secret
  let bp := fexpand basepoint
  let (x, z) := cmult e bp
  let zmone := crecip z
  let z := fmul x zmone
  fcontract mypublic z

/-! ## The number of some limbs -/

/-- `2 ^ 255 - 19`. -/
def prime : ℕ := 2 ^ 255 - 19

/-- Where the bits of a limb are. -/
def exponent (i : ℕ) : ℕ := (51 * i + 1) / 2

/-- The number that limbs are for. -/
def value {n : ℕ} (x : Fin n → ℤ) : ℤ := ∑ i, x i * 2 ^ exponent i.val

/-- The limbs are these numbers, each within its bound. -/
def BoundedBy {n : ℕ} (v : Limbs n) (x bound : Fin n → ℤ) : Prop :=
  ∀ i : Fin n, v[i].Within (x i) (bound i)

/-- The limbs are these numbers, all within one bound. -/
def Bounded {n : ℕ} (v : Limbs n) (x : Fin n → ℤ) (bound : ℤ) : Prop :=
  ∀ i : Fin n, v[i].Within (x i) bound

/-- The limbs are those of a field element. -/
def Represents (v : Limbs 10) (bound : ℤ) (u : ZMod prime) : Prop :=
  ∃ x : Fin 10 → ℤ, Bounded v x bound ∧ ((value x : ℤ) : ZMod prime) = u

theorem two_pow_exponent (i : ℕ) : (2 : ℤ) ^ exponent i = 2 ^ ((i + 1) / 2) * (2 ^ 25) ^ i := by
  rw [← pow_mul, ← pow_add]
  congr 1
  rw [exponent]
  omega

theorem cast_two_pow : ((2 ^ 255 - 19 : ℤ) : ZMod prime) = 0 := by
  have h : ((prime : ℕ) : ZMod prime) = 0 := ZMod.natCast_self prime
  rw [show (2 ^ 255 - 19 : ℤ) = ((prime : ℕ) : ℤ) by norm_num [prime], Int.cast_natCast, h]

/-- Numbers that are apart by a multiple of `2 ^ 255 - 19` are one field
element. -/
theorem cast_eq_of_sub {x y k : ℤ} (h : x = y + (2 ^ 255 - 19) * k) : (x : ZMod prime) = y := by
  rw [h, Int.cast_add, Int.cast_mul, cast_two_pow, zero_mul, add_zero]

theorem Bounded.mono {n : ℕ} {v : Limbs n} {x : Fin n → ℤ} {A B : ℤ} (h : Bounded v x A)
    (hle : A ≤ B) : Bounded v x B := fun i => (h i).mono hle

/-! ## Sums -/

variable {a b : Limbs 10} {A B : ℤ} {u u' : ZMod prime}

theorem Represents.mono (h : Represents a A u) (hle : A ≤ B) : Represents a B u := by
  obtain ⟨x, hx, hu⟩ := h
  exact ⟨x, hx.mono hle, hu⟩

theorem Represents.fsum (h : Represents a A u) (h' : Represents b B u')
    (hfits : A + B < 2 ^ 63) : Represents (fsum a b) (A + B) (u + u') := by
  obtain ⟨x, hx, rfl⟩ := h
  obtain ⟨y, hy, rfl⟩ := h'
  refine ⟨fun i => x i + y i, fun i => ?_, ?_⟩
  · simp only [Donna.fsum, Fin.getElem_fin, Vector.getElem_ofFn]
    exact (hx i).add (hy i) hfits
  · simp only [value, add_mul, Finset.sum_add_distrib, Int.cast_add]

theorem Represents.fdifference (h : Represents a A u) (h' : Represents b B u')
    (hfits : B + A < 2 ^ 63) : Represents (fdifference a b) (B + A) (u' - u) := by
  obtain ⟨x, hx, rfl⟩ := h
  obtain ⟨y, hy, rfl⟩ := h'
  refine ⟨fun i => y i - x i, fun i => ?_, ?_⟩
  · simp only [Donna.fdifference, Fin.getElem_fin, Vector.getElem_ofFn]
    exact (hy i).sub (hx i) hfits
  · simp only [value, sub_mul, Finset.sum_sub_distrib, Int.cast_sub]

/-! ## Products -/

theorem s32_within {x : Limb} {y bound : ℤ} (h : x.Within y bound) (hfits : bound < 2 ^ 31) :
    (s32 x).Within y bound :=
  (h.cast (v := 32) hfits).cast (v := 64) (hfits.trans (by norm_num))

theorem within_two : Within (2 : Limb) 2 2 := within_ofNat (by norm_num)

theorem within_four : Within (4 : Limb) 4 4 := within_ofNat (by norm_num)

section Sums

variable {x y : Fin 10 → Limb} {X Y : Fin 10 → ℤ}

/-- No sum of `fproduct` has more than fourteen products. -/
theorem productSums_within (hx : ∀ i, (x i).Within (X i) (2 ^ 27))
    (hy : ∀ i, (y i).Within (Y i) (2 ^ 27)) :
    Bounded (productSums x y) (fun i => (productSums X Y)[i]) (14 * 2 ^ 54) := by
  intro i
  fin_cases i <;>
    simp only [productSums, Fin.getElem_fin, Vector.getElem_mk, List.getElem_toArray,
      List.getElem_cons_zero, List.getElem_cons_succ, Fin.zero_eta, Fin.isValue, Nat.zero_mod,
      Fin.mk_one, Fin.reduceFinMk, Fin.coe_ofNat_eq_mod, Nat.reduceMod]
  all_goals
    apply Within.mono
    with_reducible
      repeat' first
        | exact hx _
        | exact hy _
        | exact within_two
        | apply Within.add
        | apply Within.mul
  all_goals norm_num

theorem squareSums_within (hx : ∀ i, (x i).Within (X i) (2 ^ 27)) :
    Bounded (squareSums x) (fun i => (squareSums X)[i]) (14 * 2 ^ 54) := by
  intro i
  fin_cases i <;>
    simp only [squareSums, Fin.getElem_fin, Vector.getElem_mk, List.getElem_toArray,
      List.getElem_cons_zero, List.getElem_cons_succ, Fin.zero_eta, Fin.isValue, Nat.zero_mod,
      Fin.mk_one, Fin.reduceFinMk, Fin.coe_ofNat_eq_mod, Nat.reduceMod]
  all_goals
    apply Within.mono
    with_reducible
      repeat' first
        | exact hx _
        | exact within_two
        | exact within_four
        | apply Within.add
        | apply Within.mul
  all_goals norm_num

/-- **The sums of `fproduct` are the limbs of the product.** -/
theorem value_productSums : value (fun i => (productSums X Y)[i]) = value X * value Y := by
  simp only [value, two_pow_exponent]
  generalize (2 : ℤ) ^ 25 = s
  simp [Fin.sum_univ_succ, productSums]
  ring

theorem value_squareSums : value (fun i => (squareSums X)[i]) = value X * value X := by
  simp only [value, two_pow_exponent]
  generalize (2 : ℤ) ^ 25 = s
  simp [Fin.sum_univ_succ, squareSums]
  ring

end Sums

/-- `freduce_degree` on the numbers. -/
def reducedDegree (x : Fin 19 → ℤ) : Fin 10 → ℤ := fun i =>
  if h : i.val < 9 then
    x ⟨i, by omega⟩ + x ⟨i + 10, by omega⟩ * 2 ^ 4 + x ⟨i + 10, by omega⟩ * 2 ^ 1 +
      x ⟨i + 10, by omega⟩
  else x 9

theorem freduceDegree_bounded {t : Limbs 19} {x : Fin 19 → ℤ} (h : Bounded t x (14 * 2 ^ 54)) :
    Bounded (freduceDegree t) (reducedDegree x) (280 * 2 ^ 54) := by
  intro i
  simp only [freduceDegree, Fin.getElem_fin, Vector.getElem_ofFn, reducedDegree]
  split
  · rename_i hi
    have hlow := h ⟨i, by omega⟩
    have hhigh := h ⟨i + 10, by omega⟩
    have hsum := ((hlow.add (hhigh.shiftLeft 4 (by norm_num)) (by norm_num)).add
      (hhigh.shiftLeft 1 (by norm_num)) (by norm_num)).add hhigh (by norm_num)
    exact hsum.mono (by norm_num)
  · exact (h 9).mono (by norm_num)

/-- The high limbs are `2 ^ 255` above the low ones, and that is 19. -/
theorem value_reducedDegree (x : Fin 19 → ℤ) :
    ((value x : ℤ) : ZMod prime) = (value (reducedDegree x) : ℤ) := by
  refine cast_eq_of_sub (k := value fun i : Fin 9 => x ⟨i + 10, by omega⟩) ?_
  rw [show (2 : ℤ) ^ 255 = 2 ^ 5 * (2 ^ 25) ^ 10 by norm_num]
  simp only [value, two_pow_exponent]
  generalize (2 : ℤ) ^ 25 = s
  simp [Fin.sum_univ_succ, reducedDegree]
  ring

/-! ## Carries -/

/-- `x / 2 ^ bits`, rounded towards zero. -/
def quotient (bits : ℕ) (x : ℤ) : ℤ := (x + if x < 0 then 2 ^ bits - 1 else 0) / 2 ^ bits

/-- All ones for a negative integer, which is what its highest bit says. -/
theorem sign_eq (c : BitVec 64) :
    ((c >>> 32).setWidth 32).sshiftRight 31 = if c.toInt < 0 then BitVec.allOnes 32 else 0 := by
  have hlt := c.isLt
  have hc := BitVec.toInt_eq_toNat_cond c
  have hhigh : ((c >>> 32).setWidth 32).toNat = c.toNat / 2 ^ 32 := by
    rw [BitVec.toNat_setWidth, BitVec.toNat_ushiftRight, Nat.shiftRight_eq_div_pow]
    omega
  have hones : (BitVec.allOnes 32).toInt = -1 := by decide
  have hzero : (0 : BitVec 32).toInt = 0 := by decide
  apply BitVec.eq_of_toInt_eq
  rw [BitVec.toInt_sshiftRight, Int.shiftRight_eq_div_pow, BitVec.toInt_eq_toNat_cond, hhigh]
  by_cases hneg : c.toInt < 0
  · rw [if_pos hneg, hones]
    split at hc <;> split <;> omega
  · rw [if_neg hneg, hzero]
    split at hc <;> split <;> omega

section Carries

variable {v : Limb} {y : ℤ} {bits : ℕ}

theorem roundoff_holds (h : v.Holds y) (hbits : bits = 26 ∨ bits = 25) :
    (roundoff (32 - bits) v).Holds (if y < 0 then 2 ^ bits - 1 else 0) := by
  obtain ⟨c, rfl, rfl⟩ := h
  refine ⟨_, rfl, ?_⟩
  simp only [sign_eq]
  rcases hbits with rfl | rfl
  · split <;> decide
  · split <;> decide

/-- **`div_by_2_26` and `div_by_2_25`** round towards zero. -/
theorem quotient_within (h : v.Within y A) (hfits : A < 2 ^ 63 - 2 ^ 26)
    (hbits : bits = 26 ∨ bits = 25) :
    ((v + roundoff (32 - bits) v) >>> bits).Within (quotient bits y) (A / 2 ^ bits) := by
  have hy := abs_le.mp h.bounded
  have hround := roundoff_holds h.holds hbits
  have hadd : (v + roundoff (32 - bits) v).Holds (y + if y < 0 then 2 ^ bits - 1 else 0) := by
    rcases hbits with rfl | rfl
    · exact h.holds.add hround (by split <;> omega) (by split <;> omega)
    · exact h.holds.add hround (by split <;> omega) (by split <;> omega)
  refine ⟨hadd.shiftRight bits, abs_le.mpr ?_⟩
  rw [quotient]
  rcases hbits with rfl | rfl
  · split <;> constructor <;> omega
  · split <;> constructor <;> omega

/-- What is left of a limb after that. -/
theorem abs_sub_quotient_le (hbits : bits = 26 ∨ bits = 25) :
    |y - quotient bits y * 2 ^ bits| ≤ 2 ^ bits - 1 := by
  refine abs_le.mpr ?_
  rw [quotient]
  rcases hbits with rfl | rfl
  · split <;> constructor <;> omega
  · split <;> constructor <;> omega

end Carries

section Coefficients

variable {t : Limbs 11} {x : Fin 11 → ℤ} {bound : Fin 11 → ℤ}

/-- A carry on the numbers. -/
def carried (bits : ℕ) (i : Fin 10) (x : Fin 11 → ℤ) : Fin 11 → ℤ :=
  Function.update
    (Function.update x i.castSucc (x i.castSucc - quotient bits (x i.castSucc) * 2 ^ bits))
    i.succ (x i.succ + quotient bits (x i.castSucc))

/-- And on their bounds. -/
def carriedBound (bits : ℕ) (i : Fin 10) (bound : Fin 11 → ℤ) : Fin 11 → ℤ :=
  Function.update (Function.update bound i.castSucc (2 ^ bits - 1))
    i.succ (bound i.succ + bound i.castSucc / 2 ^ bits)

theorem BoundedBy.set {n : ℕ} {v : Limbs n} {x bound : Fin n → ℤ} (h : BoundedBy v x bound)
    (i : Fin n) {a : Limb} {y B : ℤ} (ha : a.Within y B) :
    BoundedBy (v.set i a) (Function.update x i y) (Function.update bound i B) := by
  intro j
  rw [Fin.getElem_fin, Vector.getElem_set]
  by_cases hij : j = i
  · subst hij
    rw [if_pos rfl, Function.update_self, Function.update_self]
    exact ha
  · rw [if_neg fun heq => hij (Fin.ext heq.symm), Function.update_of_ne hij,
      Function.update_of_ne hij]
    exact h j

theorem carryOver_boundedBy (h : BoundedBy t x bound) (bits : ℕ) {i : Fin 10}
    (hbits : bits = 26 ∨ bits = 25) (hfits : bound i.castSucc < 2 ^ 63 - 2 ^ 26)
    (hnext : bound i.succ + bound i.castSucc / 2 ^ bits < 2 ^ 63) :
    BoundedBy (carryOver ((t[i.castSucc] + roundoff (32 - bits) t[i.castSucc]) >>> bits) bits i t)
      (carried bits i x) (carriedBound bits i bound) := by
  have hover := quotient_within (h i.castSucc) hfits hbits
  have hx := abs_le.mp (h i.castSucc).bounded
  have hrest := abs_sub_quotient_le (y := x i.castSucc) hbits
  have hrest' := abs_le.mp hrest
  -- what stays of the limb
  have hlow : (t[i.castSucc] - ((t[i.castSucc] + roundoff (32 - bits) t[i.castSucc]) >>> bits) <<<
      bits).Within (x i.castSucc - quotient bits (x i.castSucc) * 2 ^ bits) (2 ^ bits - 1) := by
    refine ⟨(h i.castSucc).holds.sub (hover.holds.shiftLeft bits ?_ ?_) ?_ ?_, hrest⟩ <;>
      rcases hbits with rfl | rfl <;> omega
  have hset := h.set i.castSucc hlow
  -- what the next one gets
  have hhigh := (h i.succ).add hover hnext
  have hget : (t.set i.castSucc (t[i.castSucc] - ((t[i.castSucc] + roundoff (32 - bits)
      t[i.castSucc]) >>> bits) <<< bits))[i.succ] = t[i.succ] := by
    rw [Fin.getElem_fin, Vector.getElem_set_ne _ _ (Nat.ne_of_lt i.castSucc_lt_succ)]
    rfl
  have hboth := hset.set i.succ (hget ▸ hhigh)
  exact hboth

theorem value_update {n : ℕ} (x : Fin n → ℤ) (i : Fin n) (y : ℤ) :
    value (Function.update x i y) = value x + (y - x i) * 2 ^ exponent i.val := by
  have hrest : ∑ j ∈ Finset.univ.erase i, Function.update x i y j * 2 ^ exponent j.val =
      ∑ j ∈ Finset.univ.erase i, x j * 2 ^ exponent j.val :=
    Finset.sum_congr rfl fun j hj => by rw [Function.update_of_ne (Finset.ne_of_mem_erase hj)]
  rw [value, value, ← Finset.add_sum_erase _ _ (Finset.mem_univ i),
    ← Finset.add_sum_erase (a := i) _ _ (Finset.mem_univ i), hrest, Function.update_self]
  ring

theorem exponent_succ (i : ℕ) : exponent (i + 1) = exponent i + limbBits i := by
  rw [exponent, exponent, limbBits]
  split <;> omega

/-- A carry leaves the number as it is. -/
theorem value_carried (i : Fin 10) : value (carried (limbBits i) i x) = value x := by
  rw [carried, value_update, value_update, Function.update_of_ne i.castSucc_lt_succ.ne',
    Fin.val_castSucc, Fin.val_succ, exponent_succ, pow_add]
  ring

theorem limbBits_cases (i : ℕ) : limbBits i = 26 ∨ limbBits i = 25 := by
  rw [limbBits]
  split
  · exact .inr rfl
  · exact .inl rfl

/-! ## The loop -/

/-- The bounds before the carry from limb `k`: the limbs below it have the
bits that they should have. -/
def loopBound (k : ℕ) (j : Fin 11) : ℤ :=
  if j.val < k then 2 ^ limbBits j - 1
  else if j.val < 10 then if j.val = k then 281 * 2 ^ 54 else 280 * 2 ^ 54
  else if k = 10 then 281 * 2 ^ 29 else 0

theorem carry_loopBound {i : Fin 10} (h : BoundedBy t x (loopBound i)) :
    BoundedBy (carryOver ((t[i.castSucc] + roundoff (32 - limbBits i) t[i.castSucc]) >>>
      limbBits i) (limbBits i) i t) (carried (limbBits i) i x) (loopBound (i + 1)) := by
  have hfits : ∀ i : Fin 10, loopBound i i.castSucc < 2 ^ 63 - 2 ^ 26 ∧
      loopBound i i.succ + loopBound i i.castSucc / 2 ^ limbBits i < 2 ^ 63 ∧
      ∀ j, carriedBound (limbBits i) i (loopBound i) j ≤ loopBound (i + 1) j := by
    decide +kernel
  obtain ⟨hlimb, hnext, hle⟩ := hfits i
  exact fun j => (carryOver_boundedBy h _ (limbBits_cases i) hlimb hnext j).mono (hle j)

/-- Before the carry from limb `k`, the limbs are those of the number. -/
def CarriedTo (k : ℕ) (t : Limbs 11) (y : ℤ) : Prop :=
  ∃ x, BoundedBy t x (loopBound k) ∧ value x = y

theorem CarriedTo.step {y : ℤ} {i : Fin 10} (h : CarriedTo i t y) :
    CarriedTo (i + 1) (carryOver ((t[i.castSucc] + roundoff (32 - limbBits i) t[i.castSucc]) >>>
      limbBits i) (limbBits i) i t) y := by
  obtain ⟨x, hx, rfl⟩ := h
  exact ⟨carried (limbBits i) i x, carry_loopBound hx, value_carried i⟩

theorem CarriedTo.carry26 {y : ℤ} {i : Fin 10} (h : CarriedTo i t y) (hi : limbBits i = 26) :
    CarriedTo (i + 1) (carry26 i t) y := by
  have hstep := h.step
  rw [hi] at hstep
  exact hstep

theorem CarriedTo.carry25 {y : ℤ} {i : Fin 10} (h : CarriedTo i t y) (hi : limbBits i = 25) :
    CarriedTo (i + 1) (carry25 i t) y := by
  have hstep := h.step
  rw [hi] at hstep
  exact hstep

/-- **The loop of `freduce_coefficients`** carries through all the limbs. -/
theorem CarriedTo.loop {y : ℤ} (h : CarriedTo 0 t y) :
    CarriedTo 10
      ([0, 2, 4, 6, 8].foldl (fun t i => Donna.carry25 (i + 1) (Donna.carry26 i t)) t) y := by
  have h2 := (h.carry26 (i := 0) rfl).carry25 (i := 1) rfl
  have h4 := (h2.carry26 (i := 2) rfl).carry25 (i := 3) rfl
  have h6 := (h4.carry26 (i := 4) rfl).carry25 (i := 5) rfl
  have h8 := (h6.carry26 (i := 6) rfl).carry25 (i := 7) rfl
  exact (h8.carry26 (i := 8) rfl).carry25 (i := 9) rfl

theorem value_castSucc (x : Fin 11 → ℤ) :
    value x = value (fun i : Fin 10 => x i.castSucc) + x 10 * 2 ^ 255 := by
  rw [value, value, Fin.sum_univ_castSucc]
  rfl

theorem CarriedTo.push {output : Limbs 10} {x : Fin 10 → ℤ}
    (h : Bounded output x (280 * 2 ^ 54)) : CarriedTo 0 (output.push 0) (value x) := by
  refine ⟨Fin.snoc (α := fun _ => ℤ) x 0, fun j => ?_, ?_⟩
  · refine Fin.lastCases ?_ (fun i => ?_) j
    · simp only [Fin.snoc_last, Fin.getElem_fin, Fin.val_last, Vector.getElem_push_eq]
      exact (within_ofNat (by norm_num)).mono (by decide)
    · simp only [Fin.snoc_castSucc, Fin.getElem_fin, Fin.val_castSucc, Vector.getElem_push_lt i.isLt]
      have hle : ∀ i : Fin 10, (280 * 2 ^ 54 : ℤ) ≤ loopBound 0 i.castSucc := by decide +kernel
      exact (h i).mono (hle i)
  · have hlast : (Fin.snoc (α := fun _ => ℤ) x 0 : Fin 11 → ℤ) 10 = 0 :=
      Fin.snoc_last (α := fun _ => ℤ) 0 x
    rw [value_castSucc, hlast, zero_mul, add_zero]
    simp only [Fin.snoc_castSucc]

/-- The end of `freduce_coefficients`: the highest limb is added 19 times to
the first one. -/
def wrapped (t : Limbs 11) : Limbs 11 :=
  carry26 0 ((t.set 0 (t[0] + t[10] <<< 4 + t[10] <<< 1 + t[10])).set 10 0)

/-- What that does to the numbers. -/
def wrappedTo (x : Fin 11 → ℤ) : Fin 11 → ℤ :=
  carried 26 0
    (Function.update (Function.update x 0 (x 0 + x 10 * 2 ^ 4 + x 10 * 2 ^ 1 + x 10)) 10 0)

/-- And to their bounds. -/
def wrappedBound : Fin 11 → ℤ :=
  carriedBound 26 0
    (Function.update (Function.update (loopBound 10) 0 (2 ^ 26 - 1 + 19 * 281 * 2 ^ 29)) 10 0)

theorem wrapped_boundedBy (h : BoundedBy t x (loopBound 10)) :
    BoundedBy (wrapped t) (wrappedTo x) wrappedBound := by
  have hlast : loopBound 10 10 = 281 * 2 ^ 29 := by decide
  have hfirst : loopBound 10 0 = 2 ^ 26 - 1 := by decide
  have hten := h 10
  rw [hlast] at hten
  have hzero := h 0
  rw [hfirst] at hzero
  have hsum := ((hzero.add (hten.shiftLeft 4 (by norm_num)) (by norm_num)).add
    (hten.shiftLeft 1 (by norm_num)) (by norm_num)).add hten (by norm_num)
  have hset := (h.set 0 (hsum.mono (B := 2 ^ 26 - 1 + 19 * 281 * 2 ^ 29) (by norm_num))).set 10
    (within_ofNat (n := 0) (by norm_num))
  exact carryOver_boundedBy hset 26 (i := 0) (.inl rfl) (by decide +kernel) (by decide +kernel)

theorem wrappedTo_last : wrappedTo x 10 = 0 := by
  rw [wrappedTo, carried, Function.update_of_ne (by decide), Function.update_of_ne (by decide),
    Function.update_self]

theorem value_wrappedTo : value x = value (wrappedTo x) + (2 ^ 255 - 19) * x 10 := by
  rw [wrappedTo, show (26 : ℕ) = limbBits (0 : Fin 10) by rfl, value_carried, value_update,
    value_update, Function.update_of_ne (by decide)]
  norm_num [exponent]
  ring

theorem freduceCoefficients_eq (output : Limbs 10) :
    freduceCoefficients output = (wrapped ([0, 2, 4, 6, 8].foldl
      (fun t i => Donna.carry25 (i + 1) (Donna.carry26 i t)) (output.push 0))).pop := rfl

/-- **`freduce_coefficients`** brings ten limbs below `2 ^ 26`, and the field
element is the same. -/
theorem freduceCoefficients_represents {output : Limbs 10} {u : ZMod prime}
    (h : Represents output (280 * 2 ^ 54) u) :
    Represents (freduceCoefficients output) (2 ^ 26 - 1) u := by
  obtain ⟨x, hx, rfl⟩ := h
  obtain ⟨y, hy, hvalue⟩ := (CarriedTo.push hx).loop
  refine ⟨fun i => wrappedTo y i.castSucc, fun i => ?_, ?_⟩
  · have hle : ∀ i : Fin 10, wrappedBound i.castSucc ≤ 2 ^ 26 - 1 := by decide +kernel
    rw [freduceCoefficients_eq, Fin.getElem_fin, Vector.getElem_pop]
    exact (wrapped_boundedBy hy i.castSucc).mono (hle i)
  · have hcast := value_castSucc (wrappedTo y)
    rw [wrappedTo_last, zero_mul, add_zero] at hcast
    rw [← hcast, ← hvalue]
    exact (cast_eq_of_sub value_wrappedTo).symm

end Coefficients

/-! ## 0 and 1 -/

theorem represents_zero : Represents (.replicate 10 0) (2 ^ 26 - 1) 0 := by
  refine ⟨fun _ => 0, fun i => ?_, ?_⟩
  · rw [Fin.getElem_fin, Vector.getElem_replicate]
    exact (within_ofNat (by norm_num)).mono (by norm_num)
  · simp only [value, zero_mul, Finset.sum_const_zero, Int.cast_zero]

theorem represents_one :
    Represents ((Vector.replicate 10 0 : Limbs 10).set 0 1) (2 ^ 26 - 1) 1 := by
  have hset : BoundedBy ((Vector.replicate 10 0 : Limbs 10).set 0 1)
      (Function.update (fun _ => 0) 0 1) (Function.update (fun _ => 2 ^ 26 - 1) 0 (2 ^ 26 - 1)) := by
    refine BoundedBy.set (fun i => ?_) 0 ((within_ofNat (n := 1) (by norm_num)).mono (by norm_num))
    rw [Fin.getElem_fin, Vector.getElem_replicate]
    exact (within_ofNat (by norm_num)).mono (by norm_num)
  refine ⟨_, fun i => (hset i).mono ?_, ?_⟩
  · rw [Function.update_apply, ite_self]
  · rw [value_update]
    simp [value, exponent]

/-! ## Reduced products -/

theorem Represents.fproduct (h : Represents a (2 ^ 27) u) (h' : Represents b (2 ^ 27) u') :
    Represents (freduceCoefficients (freduceDegree (fproduct a b))) (2 ^ 26 - 1) (u * u') := by
  obtain ⟨x, hx, rfl⟩ := h
  obtain ⟨y, hy, rfl⟩ := h'
  have hsums : Bounded (Donna.fproduct a b) (fun i => (productSums x y)[i]) (14 * 2 ^ 54) :=
    productSums_within (fun i => s32_within (hx i) (by norm_num))
      fun i => s32_within (hy i) (by norm_num)
  refine freduceCoefficients_represents ⟨_, freduceDegree_bounded hsums, ?_⟩
  rw [← value_reducedDegree, value_productSums, Int.cast_mul]

/-- **`fmul`** multiplies field elements. -/
theorem Represents.fmul (h : Represents a (2 ^ 27) u) (h' : Represents b (2 ^ 27) u') :
    Represents (fmul a b) (2 ^ 26 - 1) (u * u') := h.fproduct h'

/-- **`fsquare`** squares them. -/
theorem Represents.fsquare (h : Represents a (2 ^ 27) u) :
    Represents (fsquare a) (2 ^ 26 - 1) (u ^ 2) := by
  obtain ⟨x, hx, rfl⟩ := h
  have hsums : Bounded (fsquareInner a) (fun i => (squareSums x)[i]) (14 * 2 ^ 54) :=
    squareSums_within fun i => s32_within (hx i) (by norm_num)
  refine freduceCoefficients_represents ⟨_, freduceDegree_bounded hsums, ?_⟩
  rw [← value_reducedDegree, value_squareSums, Int.cast_mul, sq]

theorem Represents.fscalarProduct (h : Represents a (2 ^ 27) u) :
    Represents (freduceCoefficients (fscalarProduct a 121665)) (2 ^ 26 - 1) (u * 121665) := by
  obtain ⟨x, hx, rfl⟩ := h
  have hvalue : value (fun i => x i * 121665) = value x * 121665 := by
    rw [value, value, Finset.sum_mul]
    exact Finset.sum_congr rfl fun i _ => by ring
  refine freduceCoefficients_represents ⟨fun i => x i * 121665, fun i => ?_, ?_⟩
  · have hscalar : Within (121665 : Limb) 121665 121665 := within_ofNat (by norm_num)
    simp only [Donna.fscalarProduct, Fin.getElem_fin, Vector.getElem_ofFn]
    exact ((hx i).mul hscalar (by norm_num)).mono (by norm_num)
  · rw [hvalue, Int.cast_mul, Int.cast_ofNat]

end Donna

end Olm
