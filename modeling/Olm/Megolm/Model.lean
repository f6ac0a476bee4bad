import Olm.Crypto

/-!
# The Megolm ratchet

`src/megolm.c`: four 32-byte parts and a 32-bit counter. `Megolm.advance`
is the single step and `Megolm.advanceTo` the jump.
-/

namespace Olm

/-- `MEGOLM_RATCHET_PARTS`. -/
abbrev MEGOLM_RATCHET_PARTS : ℕ := 4

instance : NeZero MEGOLM_RATCHET_PARTS := ⟨by decide⟩

/-- `MEGOLM_RATCHET_PART_LENGTH`. -/
abbrev MEGOLM_RATCHET_PART_LENGTH : ℕ := 32

/-- `MEGOLM_RATCHET_LENGTH`. -/
abbrev MEGOLM_RATCHET_LENGTH : ℕ := MEGOLM_RATCHET_PARTS * MEGOLM_RATCHET_PART_LENGTH

/-- One part of the ratchet. -/
abbrev RatchetPart := FixedBytes MEGOLM_RATCHET_PART_LENGTH

/-- `struct Megolm`. -/
structure Megolm where
  data : Fin MEGOLM_RATCHET_PARTS → RatchetPart
  counter : UInt32

namespace Megolm

variable (hmac : Bytes → Bytes → FixedBytes SHA256_OUTPUT_LENGTH)

/-- `HASH_KEY_SEEDS`. -/
def hashKeySeed (part : Fin MEGOLM_RATCHET_PARTS) : Bytes := [UInt8.ofNat part.val]

/-- `rehash_part`: part `to` becomes the HMAC of part `from` under its seed. -/
def rehashPart (data : Fin MEGOLM_RATCHET_PARTS → RatchetPart)
    (fromPart toPart : Fin MEGOLM_RATCHET_PARTS) : Fin MEGOLM_RATCHET_PARTS → RatchetPart :=
  Function.update data toPart (hmac (data fromPart).val (hashKeySeed toPart))

/-- The loops `for (i = MEGOLM_RATCHET_PARTS-1; i >= h; i--) rehash_part(data, h, i)`
of both functions, `i` counting down so that part `h` is overwritten last. -/
def rehashDown (h : Fin MEGOLM_RATCHET_PARTS) (data : Fin MEGOLM_RATCHET_PARTS → RatchetPart) :
    Fin MEGOLM_RATCHET_PARTS → RatchetPart :=
  ([3, 2, 1, 0].filter (h ≤ ·)).foldl (fun data i => rehashPart hmac data h i) data

/-- The loop that finds how much to rekey: `h` grows while the counter has
a bit under the mask, which loses a byte each time. It runs at most
`MEGOLM_RATCHET_PARTS` times and the last mask, `0`, always stops it. -/
def rekeyFrom (counter : UInt32) : (rounds : ℕ) → (mask : UInt32) → (h : ℕ) → ℕ
  | 0, _, h => h
  | rounds + 1, mask, h =>
    if counter &&& mask = 0 then h else rekeyFrom counter rounds (mask >>> 8) (h + 1)

/-- `megolm_advance`. -/
def advance (m : Megolm) : Megolm :=
  let counter := m.counter + 1
  let h := rekeyFrom counter MEGOLM_RATCHET_PARTS 0x00FFFFFF 0
  { data := if hlt : h < MEGOLM_RATCHET_PARTS then rehashDown hmac ⟨h, hlt⟩ m.data else m.data
    counter := counter }

/-- How far part `j` sits above the low bits: `(MEGOLM_RATCHET_PARTS-j-1) * 8`. -/
def shift (j : Fin MEGOLM_RATCHET_PARTS) : UInt32 :=
  UInt32.ofNat ((MEGOLM_RATCHET_PARTS - j.val - 1) * 8)

/-- How many times `megolm_advance_to` rehashes part `j`. When the top
parts agree and the target is below the counter, the target has wrapped
around and part `j` goes all the way round. -/
def stepsTo (m : Megolm) (advanceTo : UInt32) (j : Fin MEGOLM_RATCHET_PARTS) : ℕ :=
  let steps := ((advanceTo >>> shift j) - (m.counter >>> shift j)) &&& 0xff
  if steps = 0 then
    if advanceTo < m.counter then 0x100 else 0
  else steps.toNat

/-- One round of the loop of `megolm_advance_to`. -/
def advancePart (advanceTo : UInt32) (m : Megolm) (j : Fin MEGOLM_RATCHET_PARTS) : Megolm :=
  let mask : UInt32 := (~~~ (0 : UInt32)) <<< shift j
  match stepsTo m advanceTo j with
  | 0 => m
  | steps + 1 =>
    -- all but the last step bump part `j` alone
    { data := rehashDown hmac j ((fun data => rehashPart hmac data j j)^[steps] m.data)
      counter := advanceTo &&& mask }

/-- `megolm_advance_to`. -/
def advanceTo (m : Megolm) (target : UInt32) : Megolm :=
  [0, 1, 2, 3].foldl (advancePart hmac target) m

/-- `megolm_init`: the parts are read from the 128 bytes in order. -/
def init (data : Fin MEGOLM_RATCHET_PARTS → RatchetPart) (counter : UInt32) : Megolm :=
  { data := data, counter := counter }

/-- `megolm_get_data`: the parts as one string of `MEGOLM_RATCHET_LENGTH` bytes. -/
def getData (m : Megolm) : Bytes := (m.data 0).val ++ (m.data 1).val ++ (m.data 2).val ++ (m.data 3).val

@[simp] theorem getData_length (m : Megolm) : m.getData.length = MEGOLM_RATCHET_LENGTH := by
  simp only [getData, List.length_append, FixedBytes.length_val]
  rfl

end Megolm

end Olm
