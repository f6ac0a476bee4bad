import Olm.Common.Bytes

/-!
# Base64

`src/base64.cpp`, without padding. The input is an object of its own or
lies in the buffer that the output goes to: an encoder writes its input at
the end of that buffer, and a decoder starts where its input does. The
bytes of a group are all read before the first of them is written, so one
`writeAt` stands for the stores of a group.
-/

namespace Olm

/-- `ENCODE_BASE64`. -/
def ENCODE_BASE64 : Bytes :=
  [0x41, 0x42, 0x43, 0x44, 0x45, 0x46, 0x47, 0x48,
   0x49, 0x4A, 0x4B, 0x4C, 0x4D, 0x4E, 0x4F, 0x50,
   0x51, 0x52, 0x53, 0x54, 0x55, 0x56, 0x57, 0x58,
   0x59, 0x5A, 0x61, 0x62, 0x63, 0x64, 0x65, 0x66,
   0x67, 0x68, 0x69, 0x6A, 0x6B, 0x6C, 0x6D, 0x6E,
   0x6F, 0x70, 0x71, 0x72, 0x73, 0x74, 0x75, 0x76,
   0x77, 0x78, 0x79, 0x7A, 0x30, 0x31, 0x32, 0x33,
   0x34, 0x35, 0x36, 0x37, 0x38, 0x39, 0x2B, 0x2F]

/-- `DECODE_BASE64`, where `E` is what a byte that is no digit gives. -/
def DECODE_BASE64 : Bytes :=
  let E : UInt8 := 0xFF
  [E,  E,  E,  E,  E,  E,  E,  E,  E,  E,  E,  E,  E,  E,  E,  E,
   E,  E,  E,  E,  E,  E,  E,  E,  E,  E,  E,  E,  E,  E,  E,  E,
   E,  E,  E,  E,  E,  E,  E,  E,  E,  E,  E, 62,  E,  E,  E, 63,
  52, 53, 54, 55, 56, 57, 58, 59, 60, 61,  E,  E,  E,  E,  E,  E,
   E,  0,  1,  2,  3,  4,  5,  6,  7,  8,  9, 10, 11, 12, 13, 14,
  15, 16, 17, 18, 19, 20, 21, 22, 23, 24, 25,  E,  E,  E,  E,  E,
   E, 26, 27, 28, 29, 30, 31, 32, 33, 34, 35, 36, 37, 38, 39, 40,
  41, 42, 43, 44, 45, 46, 47, 48, 49, 50, 51,  E,  E,  E,  E,  E]

/-- Where the input of the two functions is: an object of its own, or the
bytes of the output buffer from `input` on. -/
inductive Base64Input where
  | object (bytes : Bytes)
  | within (input : ℕ)

/-- `input[i]`, where `buf` is the output buffer. -/
def Base64Input.read (buf : Bytes) (i : ℕ) : Base64Input → Checked UInt8
  | .object bytes => readByte bytes i
  | .within input => readByte buf (input + i)

/-! ## Encoding -/

/-- `encode_base64_length`. -/
def encodeBase64Length (inputLength : ℕ) : ℕ :=
  4 * ((inputLength + 2) / 3) + (inputLength + 2) % 3 - 2

/-- The loop of `encode_base64`, with `groups` groups of three bytes left. -/
def encodeBase64Groups (input : Base64Input) :
    (groups : ℕ) → (buf : Bytes) → (pos output : ℕ) → Checked Bytes
  | 0, buf, _, _ => .ok buf
  | groups + 1, buf, pos, output => do
    let value := (← input.read buf pos).toNat
    let value := value <<< 8 ||| (← input.read buf (pos + 1)).toNat
    let value := value <<< 8 ||| (← input.read buf (pos + 2)).toNat
    let buf ← writeAt buf output
      [← readByte ENCODE_BASE64 (value >>> 18), ← readByte ENCODE_BASE64 (value >>> 12 &&& 0x3F),
        ← readByte ENCODE_BASE64 (value >>> 6 &&& 0x3F), ← readByte ENCODE_BASE64 (value &&& 0x3F)]
    encodeBase64Groups input groups buf (pos + 3) (output + 4)

/-- `encode_base64`: the buffer, and the number of bytes written. -/
def encodeBase64 (input : Base64Input) (inputLength : ℕ) (buf : Bytes) (output : ℕ) :
    Checked (Bytes × ℕ) := do
  let groups := inputLength / 3
  let buf ← encodeBase64Groups input groups buf 0 output
  let pos := groups * 3
  let result := groups * 4
  match inputLength - pos with
  | 0 => .ok (buf, result)
  | 2 => do
    let value := (← input.read buf pos).toNat
    let value := value <<< 8 ||| (← input.read buf (pos + 1)).toNat
    let value := value <<< 2
    let buf ← writeAt buf (output + result)
      [← readByte ENCODE_BASE64 (value >>> 12), ← readByte ENCODE_BASE64 (value >>> 6 &&& 0x3F),
        ← readByte ENCODE_BASE64 (value &&& 0x3F)]
    .ok (buf, result + 3)
  | _ => do
    let value := (← input.read buf pos).toNat
    let value := value <<< 4
    let buf ← writeAt buf (output + result)
      [← readByte ENCODE_BASE64 (value >>> 6), ← readByte ENCODE_BASE64 (value &&& 0x3F)]
    .ok (buf, result + 2)

/-! ## Decoding -/

/-- `decode_base64_length`, or `none` for `std::size_t(-1)`. -/
def decodeBase64Length (inputLength : ℕ) : Option ℕ :=
  if inputLength % 4 = 1 then none
  else some (3 * ((inputLength + 2) / 4) + (inputLength + 2) % 4 - 2)

/-- `DECODE_BASE64[input[i] & 0x7F]`. -/
def Base64Input.readDigit (input : Base64Input) (buf : Bytes) (i : ℕ) : Checked ℕ := do
  let digit ← readByte DECODE_BASE64 ((← input.read buf i) &&& 0x7F).toNat
  .ok digit.toNat

/-- The loop of `decode_base64`, with `groups` groups of four digits left. -/
def decodeBase64Groups (input : Base64Input) :
    (groups : ℕ) → (buf : Bytes) → (pos output : ℕ) → Checked Bytes
  | 0, buf, _, _ => .ok buf
  | groups + 1, buf, pos, output => do
    let value ← input.readDigit buf pos
    let value := value <<< 6 ||| (← input.readDigit buf (pos + 1))
    let value := value <<< 6 ||| (← input.readDigit buf (pos + 2))
    let value := value <<< 6 ||| (← input.readDigit buf (pos + 3))
    let buf ← writeAt buf output
      [UInt8.ofNat (value >>> 16), UInt8.ofNat (value >>> 8), UInt8.ofNat value]
    decodeBase64Groups input groups buf (pos + 4) (output + 3)

/-- `decode_base64`: the buffer, and the number of bytes it decoded to, or
`none` for `std::size_t(-1)`. -/
def decodeBase64 (input : Base64Input) (inputLength : ℕ) (buf : Bytes) (output : ℕ) :
    Checked (Bytes × Option ℕ) :=
  match decodeBase64Length inputLength with
  | none => .ok (buf, none)
  | some rawLength => do
    let groups := inputLength / 4
    let buf ← decodeBase64Groups input groups buf 0 output
    let pos := groups * 4
    let output := output + groups * 3
    match inputLength - pos with
    | 0 => .ok (buf, some rawLength)
    | 3 => do
      let value ← input.readDigit buf pos
      let value := value <<< 6 ||| (← input.readDigit buf (pos + 1))
      let value := value <<< 6 ||| (← input.readDigit buf (pos + 2))
      let value := value >>> 2
      let buf ← writeAt buf output [UInt8.ofNat (value >>> 8), UInt8.ofNat value]
      .ok (buf, some rawLength)
    | _ => do
      let value ← input.readDigit buf pos
      let value := value <<< 6 ||| (← input.readDigit buf (pos + 1))
      let value := value >>> 4
      let buf ← writeAt buf output [UInt8.ofNat value]
      .ok (buf, some rawLength)

end Olm
