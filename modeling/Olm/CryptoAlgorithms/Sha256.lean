import Olm.Crypto

/-!
# SHA-256

`lib/crypto-algorithms/sha256.c`. A context holds the bytes that do not
make a block yet, at the front of an array of 64, and the state after the
blocks before them.

`sha256_update` counts with a 32-bit `WORD` up to a `size_t`. Where the
input has `2 ^ 32` bytes the counter wraps around below its length, and the
loop does not end: there are `data.length` rounds of fuel, which is as many
as a loop that ends takes.
-/

namespace Olm

namespace Sha256

/-! ## The block function -/

/-- `ROTRIGHT`. -/
def rotRight (a b : UInt32) : UInt32 := (a >>> b) ||| (a <<< (32 - b))

/-- `CH`. -/
def ch (x y z : UInt32) : UInt32 := (x &&& y) ^^^ (~~~x &&& z)

/-- `MAJ`. -/
def maj (x y z : UInt32) : UInt32 := (x &&& y) ^^^ (x &&& z) ^^^ (y &&& z)

/-- `EP0`. -/
def ep0 (x : UInt32) : UInt32 := rotRight x 2 ^^^ rotRight x 13 ^^^ rotRight x 22

/-- `EP1`. -/
def ep1 (x : UInt32) : UInt32 := rotRight x 6 ^^^ rotRight x 11 ^^^ rotRight x 25

/-- `SIG0`. -/
def sig0 (x : UInt32) : UInt32 := rotRight x 7 ^^^ rotRight x 18 ^^^ (x >>> 3)

/-- `SIG1`. -/
def sig1 (x : UInt32) : UInt32 := rotRight x 17 ^^^ rotRight x 19 ^^^ (x >>> 10)

/-- `k`. -/
def k : List UInt32 :=
  [0x428a2f98, 0x71374491, 0xb5c0fbcf, 0xe9b5dba5, 0x3956c25b, 0x59f111f1,
   0x923f82a4, 0xab1c5ed5, 0xd807aa98, 0x12835b01, 0x243185be, 0x550c7dc3,
   0x72be5d74, 0x80deb1fe, 0x9bdc06a7, 0xc19bf174, 0xe49b69c1, 0xefbe4786,
   0x0fc19dc6, 0x240ca1cc, 0x2de92c6f, 0x4a7484aa, 0x5cb0a9dc, 0x76f988da,
   0x983e5152, 0xa831c66d, 0xb00327c8, 0xbf597fc7, 0xc6e00bf3, 0xd5a79147,
   0x06ca6351, 0x14292967, 0x27b70a85, 0x2e1b2138, 0x4d2c6dfc, 0x53380d13,
   0x650a7354, 0x766a0abb, 0x81c2c92e, 0x92722c85, 0xa2bfe8a1, 0xa81a664b,
   0xc24b8b70, 0xc76c51a3, 0xd192e819, 0xd6990624, 0xf40e3585, 0x106aa070,
   0x19a4c116, 0x1e376c08, 0x2748774c, 0x34b0bcb5, 0x391c0cb3, 0x4ed8aa4a,
   0x5b9cca4f, 0x682e6ff3, 0x748f82ee, 0x78a5636f, 0x84c87814, 0x8cc70208,
   0x90befffa, 0xa4506ceb, 0xbef9a3f7, 0xc67178f2]

/-- `state`, and the working variables of `sha256_transform`. -/
structure State where
  a : UInt32
  b : UInt32
  c : UInt32
  d : UInt32
  e : UInt32
  f : UInt32
  g : UInt32
  h : UInt32
  deriving DecidableEq, Repr

/-- The first loop of `sha256_transform`: the words of the block. -/
def blockWords (data : Bytes) : List UInt32 :=
  (List.range 16).map fun i =>
    ((data.getD (4 * i) 0).toUInt32 <<< 24) ||| ((data.getD (4 * i + 1) 0).toUInt32 <<< 16) |||
      ((data.getD (4 * i + 2) 0).toUInt32 <<< 8) ||| (data.getD (4 * i + 3) 0).toUInt32

/-- The second one: the words after them. -/
def extendWords : (words : ℕ) → List UInt32 → List UInt32
  | 0, m => m
  | words + 1, m =>
    let i := m.length
    extendWords words (m ++ [sig1 (m.getD (i - 2) 0) + m.getD (i - 7) 0 + sig0 (m.getD (i - 15) 0) +
      m.getD (i - 16) 0])

/-- A round of the third one. -/
def round (s : State) (constant word : UInt32) : State :=
  let t1 := s.h + ep1 s.e + ch s.e s.f s.g + constant + word
  let t2 := ep0 s.a + maj s.a s.b s.c
  { a := t1 + t2, b := s.a, c := s.b, d := s.c, e := s.d + t1, f := s.e, g := s.f, h := s.g }

/-- `sha256_transform`. -/
def transform (state : State) (data : Bytes) : State :=
  let m := extendWords 48 (blockWords data)
  let s := (k.zip m).foldl (fun s words => round s words.1 words.2) state
  { a := state.a + s.a, b := state.b + s.b, c := state.c + s.c, d := state.d + s.d
    e := state.e + s.e, f := state.f + s.f, g := state.g + s.g, h := state.h + s.h }

/-! ## Contexts -/

/-- `SHA256_CTX`. -/
structure Ctx where
  data : FixedBytes 64
  datalen : UInt32
  bitlen : UInt64
  state : State

/-- What `sha256_init` sets `state` to. -/
def initialState : State where
  a := 0x6a09e667
  b := 0xbb67ae85
  c := 0x3c6ef372
  d := 0xa54ff53a
  e := 0x510e527f
  f := 0x9b05688c
  g := 0x1f83d9ab
  h := 0x5be0cd19

/-- `sha256_init`, which leaves `data` as it is. -/
def init (ctx : Ctx) : Ctx := { ctx with datalen := 0, bitlen := 0, state := initialState }

/-- A write into `data`. -/
def writeData (ctx : Ctx) (pos : ℕ) (bytes : Bytes) : Checked (FixedBytes 64) := do
  let data ← writeAt ctx.data.val pos bytes
  loadArray 64 data 0

/-- The loop of `sha256_update`. -/
def updateLoop (data : Bytes) : (fuel : ℕ) → (i : UInt32) → Ctx → Checked Ctx
  | 0, i, ctx => if i.toNat < data.length then .error .diverges else .ok ctx
  | fuel + 1, i, ctx =>
    if i.toNat < data.length then do
      let byte ← readByte data i.toNat
      let block ← writeData ctx ctx.datalen.toNat [byte]
      let ctx := { ctx with data := block, datalen := ctx.datalen + 1 }
      let ctx :=
        if ctx.datalen = 64 then
          { ctx with
            state := transform ctx.state ctx.data.val, bitlen := ctx.bitlen + 512, datalen := 0 }
        else ctx
      updateLoop data fuel (i + 1) ctx
    else .ok ctx

/-- `sha256_update`. -/
def update (ctx : Ctx) (data : Bytes) : Checked Ctx := updateLoop data data.length 0 ctx

/-- The first part of `sha256_final`: what is left in the buffer is padded,
and is a block by itself where there is no room for the length. -/
def pad (ctx : Ctx) : Checked Ctx :=
  let i := ctx.datalen.toNat
  if ctx.datalen < 56 then do
    let data ← writeData ctx i (0x80 :: List.replicate (56 - (i + 1)) 0)
    .ok { ctx with data := data }
  else do
    let data ← writeData ctx i (0x80 :: List.replicate (64 - (i + 1)) 0)
    let ctx := { ctx with data := data, state := transform ctx.state data.val }
    let data ← writeData ctx 0 (List.replicate 56 0)
    .ok { ctx with data := data }

/-- The bytes of a length in bits. -/
def lengthBytes (bitlen : UInt64) : Bytes :=
  (List.range 8).map fun i => (bitlen >>> UInt64.ofNat (56 - 8 * i)).toUInt8

/-- The bytes of a word of the state. -/
def wordBytes (word : UInt32) : Bytes :=
  (List.range 4).map fun i => ((word >>> UInt32.ofNat (24 - i * 8)) &&& 0x000000ff).toUInt8

/-- The copy of the state to `hash`. -/
def hashBytes (state : State) : FixedBytes SHA256_OUTPUT_LENGTH :=
  ⟨wordBytes state.a ++ wordBytes state.b ++ wordBytes state.c ++ wordBytes state.d ++
    wordBytes state.e ++ wordBytes state.f ++ wordBytes state.g ++ wordBytes state.h, rfl⟩

/-- `sha256_final`: the context it leaves, and the hash. -/
def final (ctx : Ctx) : Checked (Ctx × FixedBytes SHA256_OUTPUT_LENGTH) := do
  let ctx ← pad ctx
  let bitlen := ctx.bitlen + (ctx.datalen * 8).toUInt64
  let data ← writeData ctx 56 (lengthBytes bitlen)
  let ctx :=
    { ctx with data := data, bitlen := bitlen, state := transform ctx.state data.val }
  .ok (ctx, hashBytes ctx.state)

end Sha256

end Olm
