import Mathlib.Data.List.Basic
import Mathlib.Data.List.Induction
import Mathlib.Data.Nat.Bitwise

/-!
# Bytes, and memory read and written with its bounds checked

Byte strings, arrays of a fixed length, big-endian integers, and the
accesses a C program makes through a pointer. A pointer is an offset into
the object it points into, and an access the object does not cover is a
`Fault` rather than a value, so that a theorem saying that a function
returns also says that it stayed inside its arguments.
-/

/-- A string of bytes. -/
abbrev Bytes := List UInt8

/-- An array of exactly `n` bytes. -/
abbrev FixedBytes (n : ℕ) := { b : Bytes // b.length = n }

namespace FixedBytes

variable {n : ℕ}

/-- The array of zero bytes. -/
def zero (n : ℕ) : FixedBytes n := ⟨List.replicate n 0, List.length_replicate⟩

/-- The `m` bytes from `pos` on. -/
def slice (b : FixedBytes n) (pos m : ℕ) (h : pos + m ≤ n) : FixedBytes m :=
  ⟨(b.val.drop pos).take m, by rw [List.length_take, List.length_drop, b.property]; omega⟩

@[simp] theorem length_val (b : FixedBytes n) : b.val.length = n := b.property

theorem slice_of_drop_eq_append {k pos : ℕ} {b : FixedBytes n} {part : FixedBytes k} {rest : Bytes}
    (hle : pos + k ≤ n) (h : b.val.drop pos = part.val ++ rest) : b.slice pos k hle = part := by
  apply Subtype.ext
  show (b.val.drop pos).take k = part.val
  rw [h, List.take_left' part.property]

end FixedBytes

/-! ## Checked accesses -/

/-- What can go wrong in a function besides the errors it reports. -/
inductive Fault where
  /-- A read through a null pointer. -/
  | nullRead
  /-- A read or a write past the end of the object. -/
  | outOfBounds
  /-- A loop that does not end. -/
  | diverges
  deriving DecidableEq, Repr

/-- A computation that may fault. -/
abbrev Checked (α : Type) := Except Fault α

namespace Checked

variable {α β : Type}

@[simp] theorem ok_bind (a : α) (f : α → Checked β) : (Except.ok a : Checked α) >>= f = f a := rfl

@[simp] theorem error_bind (e : Fault) (f : α → Checked β) :
    (Except.error e : Checked α) >>= f = Except.error e := rfl

theorem map_bind {γ : Type} (f : β → γ) (x : Checked α) (g : α → Checked β) :
    Except.map f (x >>= g) = x >>= fun a => Except.map f (g a) := by
  cases x with
  | ok a => rfl
  | error e => rfl

/-- A computation that returns ran its first half to the end. -/
theorem bind_eq_ok {x : Checked α} {f : α → Checked β} {b : β} :
    x >>= f = .ok b ↔ ∃ a, x = .ok a ∧ f a = .ok b := by
  cases x with
  | ok a => simp
  | error e => simp

/-- Where the first computation returns, the second returns the same. -/
def ExtendsTo (x y : Checked α) : Prop := ∀ a, x = .ok a → y = .ok a

namespace ExtendsTo

variable {x y : Checked α}

theorem refl (x : Checked α) : x.ExtendsTo x := fun _ h => h

theorem bind {f g : α → Checked β} (h : x.ExtendsTo y) (hfg : ∀ a, (f a).ExtendsTo (g a)) :
    (x >>= f).ExtendsTo (y >>= g) := by
  intro b hb
  obtain ⟨a, ha, hfa⟩ := bind_eq_ok.mp hb
  rw [h a ha, ok_bind]
  exact hfg a b hfa

theorem ite {p : Prop} [Decidable p] {x' y' : Checked α} (h : x.ExtendsTo y)
    (h' : x'.ExtendsTo y') : (if p then x else x').ExtendsTo (if p then y else y') := by
  by_cases hp : p
  · rw [if_pos hp, if_pos hp]
    exact h
  · rw [if_neg hp, if_neg hp]
    exact h'

end ExtendsTo

end Checked

/-- Read the byte at `pos`. -/
def readByte (buf : Bytes) (pos : ℕ) : Checked UInt8 :=
  match buf[pos]? with
  | some b => .ok b
  | none => .error .outOfBounds

/-- The `length` bytes from `pos` on, if the buffer has them. -/
def readBytes (buf : Bytes) (pos length : ℕ) : Checked Bytes :=
  if pos + length ≤ buf.length then .ok ((buf.drop pos).take length) else .error .outOfBounds

/-- Copy the `n` bytes from `pos` on into an array. -/
def loadArray (n : ℕ) (buf : Bytes) (pos : ℕ) : Checked (FixedBytes n) :=
  if h : ((buf.drop pos).take n).length = n then .ok ⟨(buf.drop pos).take n, h⟩
  else .error .outOfBounds

/-- Overwrite the bytes from `pos` on with `bs`. -/
def writeAt (buf : Bytes) (pos : ℕ) (bs : Bytes) : Checked Bytes :=
  if pos + bs.length ≤ buf.length then
    .ok (buf.take pos ++ bs ++ buf.drop (pos + bs.length))
  else .error .outOfBounds

theorem readByte_of_lt {buf : Bytes} {pos : ℕ} (h : pos < buf.length) :
    readByte buf pos = .ok buf[pos] := by
  simp [readByte, List.getElem?_eq_getElem h]

theorem head?_of_readByte {buf : Bytes} {b : UInt8} (h : readByte buf 0 = .ok b) :
    buf.head? = some b := by
  cases buf with
  | nil => cases h
  | cons b' rest =>
    cases h
    rfl

/-- What is read from the front of a buffer is read from the buffer. -/
theorem readByte_extendsTo {front buf : Bytes} (h : front <+: buf) (pos : ℕ) :
    (readByte front pos).ExtendsTo (readByte buf pos) := by
  obtain ⟨back, rfl⟩ := h
  intro b hb
  by_cases hpos : pos < front.length
  · rw [readByte_of_lt (by rw [List.length_append]; omega), List.getElem_append_left hpos,
      ← readByte_of_lt hpos]
    exact hb
  · rw [readByte, List.getElem?_eq_none (by omega)] at hb
    cases hb

theorem loadArray_of_le {n pos : ℕ} {buf : Bytes} (h : pos + n ≤ buf.length) :
    ∃ a : FixedBytes n, loadArray n buf pos = .ok a ∧ a.val = (buf.drop pos).take n := by
  have hlen : ((buf.drop pos).take n).length = n := by simp; omega
  exact ⟨⟨_, hlen⟩, by rw [loadArray, dif_pos hlen], rfl⟩

theorem loadArray_of_lt {n pos : ℕ} {buf : Bytes} (h : buf.length < pos + n) (hn : 0 < n) :
    loadArray n buf pos = .error .outOfBounds := by
  have hlen : ¬ ((buf.drop pos).take n).length = n := by simp; omega
  rw [loadArray, dif_neg hlen]

/-- The array in the middle of a string is read back whole. -/
theorem loadArray_append {n : ℕ} (pre : Bytes) (a : FixedBytes n) (post : Bytes) :
    loadArray n (pre ++ (a.val ++ post)) pre.length = .ok a := by
  have hcut : ((pre ++ (a.val ++ post)).drop pre.length).take n = a.val := by
    rw [List.drop_left, List.take_append_of_le_length (by simp), List.take_of_length_le (by simp)]
  have hlen : (((pre ++ (a.val ++ post)).drop pre.length).take n).length = n := by
    rw [hcut]; exact a.property
  rw [loadArray, dif_pos hlen]
  exact congrArg Except.ok (Subtype.ext hcut)

@[simp] theorem loadArray_val {n : ℕ} (a : FixedBytes n) : loadArray n a.val 0 = .ok a := by
  simpa using loadArray_append [] a []

/-- A write replaces the segment it covers and nothing else. -/
theorem writeAt_append (pre post : Bytes) {old new : Bytes} (h : new.length = old.length) :
    writeAt (pre ++ (old ++ post)) pre.length new = .ok (pre ++ (new ++ post)) := by
  have hle : pre.length + new.length ≤ (pre ++ (old ++ post)).length := by simp; omega
  rw [writeAt, if_pos hle, List.take_left, h, ← List.append_assoc pre old post,
    List.drop_left' (by simp), List.append_assoc]

/-- A write over the front of what is behind `pre`. -/
theorem writeAt_front (pre : Bytes) {new room : Bytes} (h : new.length ≤ room.length) :
    writeAt (pre ++ room) pre.length new = .ok (pre ++ (new ++ room.drop new.length)) := by
  have hwrite := writeAt_append pre (room.drop new.length) (List.length_take_of_le h).symm
  rwa [List.take_append_drop] at hwrite

/-- Strings of one length put together. -/
theorem length_flatten_map {α : Type} {f : α → Bytes} {m : ℕ} (h : ∀ a, (f a).length = m)
    (l : List α) : (l.map f).flatten.length = m * l.length := by
  induction l with
  | nil => rfl
  | cons a l ih =>
    rw [List.map_cons, List.flatten_cons, List.length_append, h, ih, List.length_cons,
      Nat.mul_succ, Nat.add_comm]

/-- A string cut in two. -/
theorem exists_cut {bs : Bytes} {m n : ℕ} (h : bs.length = m + n) :
    ∃ xs ys, bs = xs ++ ys ∧ xs.length = m ∧ ys.length = n := by
  refine ⟨bs.take m, bs.drop m, (List.take_append_drop m bs).symm, ?_, ?_⟩
  · rw [List.length_take]
    omega
  · rw [List.length_drop]
    omega

/-- The segment of `n` bytes at `pos`, and what lies around it. -/
theorem exists_segment {buf : Bytes} {pos n : ℕ} (h : pos + n ≤ buf.length) :
    ∃ pre old post, buf = pre ++ (old ++ post) ∧ pre.length = pos ∧ old.length = n := by
  obtain ⟨pre, rest, rfl, hpre, hrest⟩ := exists_cut (n := buf.length - pos)
    (by omega : buf.length = pos + _)
  obtain ⟨old, post, rfl, hold, -⟩ := exists_cut (n := rest.length - n)
    (by omega : rest.length = n + _)
  exact ⟨pre, old, post, rfl, hpre, hold⟩

theorem writeAt_of_lt {buf : Bytes} {pos : ℕ} {bs : Bytes} (h : buf.length < pos + bs.length) :
    writeAt buf pos bs = .error .outOfBounds := by
  rw [writeAt, if_neg (by omega)]

theorem writeAt_of_le {buf : Bytes} {pos : ℕ} {bs : Bytes} (h : pos + bs.length ≤ buf.length) :
    ∃ buf', writeAt buf pos bs = .ok buf' :=
  ⟨_, if_pos h⟩

@[simp] theorem writeAt_nil {buf : Bytes} {pos : ℕ} (h : pos ≤ buf.length) :
    writeAt buf pos [] = .ok buf := by
  rw [writeAt, if_pos (by simpa using h)]
  simp

theorem length_of_writeAt {buf buf' bs : Bytes} {pos : ℕ} (h : writeAt buf pos bs = .ok buf') :
    buf'.length = buf.length ∧ pos + bs.length ≤ buf.length := by
  by_cases hle : pos + bs.length ≤ buf.length
  · obtain ⟨pre, old, post, rfl, rfl, hold⟩ := exists_segment hle
    rw [writeAt_append pre post hold.symm] at h
    cases h
    exact ⟨by simp only [List.length_append, hold], hle⟩
  · rw [writeAt_of_lt (by omega)] at h
    cases h

/-- A write in two parts. -/
theorem writeAt_split (buf : Bytes) (pos : ℕ) (xs ys : Bytes) :
    writeAt buf pos (xs ++ ys) =
      writeAt buf pos xs >>= fun buf => writeAt buf (pos + xs.length) ys := by
  by_cases hx : pos + xs.length ≤ buf.length
  · obtain ⟨pre, old, post, rfl, rfl, hold⟩ := exists_segment hx
    rw [writeAt_append pre post hold.symm, Checked.ok_bind]
    by_cases hy : ys.length ≤ post.length
    · obtain ⟨mid, last, hpost, hmid⟩ : ∃ mid last, post = mid ++ last ∧ mid.length = ys.length :=
        ⟨post.take ys.length, post.drop ys.length, (List.take_append_drop _ _).symm,
          List.length_take_of_le hy⟩
      have hlen : (xs ++ ys).length = (old ++ mid).length := by
        rw [List.length_append, List.length_append, hold, hmid]
      calc writeAt (pre ++ (old ++ post)) pre.length (xs ++ ys)
          = .ok (pre ++ ((xs ++ ys) ++ last)) := by
            rw [hpost, ← List.append_assoc old, writeAt_append pre last hlen]
        _ = .ok ((pre ++ xs) ++ (ys ++ last)) := by simp only [List.append_assoc]
        _ = writeAt ((pre ++ xs) ++ (mid ++ last)) (pre ++ xs).length ys :=
            (writeAt_append _ last hmid.symm).symm
        _ = writeAt (pre ++ (xs ++ post)) (pre.length + xs.length) ys := by
            rw [hpost, List.append_assoc, List.length_append]
    · rw [writeAt_of_lt (by simp; omega), writeAt_of_lt (by simp; omega)]
  · rw [writeAt_of_lt (by simp; omega), writeAt_of_lt (by omega), Checked.error_bind]

/-- Two writes one after the other. -/
theorem writeAt_bind_writeAt {α : Type} {buf : Bytes} {pos pos' : ℕ} {xs ys : Bytes}
    (f : Bytes → Checked α) (hpos : pos' = pos + xs.length) :
    (writeAt buf pos xs >>= fun buf => writeAt buf pos' ys >>= f) =
      writeAt buf pos (xs ++ ys) >>= f := by
  rw [writeAt_split, hpos, bind_assoc]

/-- What lies after a write is as it was. -/
theorem drop_of_writeAt {buf buf' bs : Bytes} {pos k : ℕ} (h : writeAt buf pos bs = .ok buf')
    (hk : pos + bs.length ≤ k) : buf'.drop k = buf.drop k := by
  by_cases hle : pos + bs.length ≤ buf.length
  · obtain ⟨pre, old, post, rfl, rfl, hold⟩ := exists_segment hle
    rw [writeAt_append pre post hold.symm] at h
    cases h
    simp only [List.drop_append, hold]
    rw [List.drop_of_length_le (by omega : bs.length ≤ _),
      List.drop_of_length_le (by omega : old.length ≤ _)]
  · rw [writeAt_of_lt (by omega)] at h
    cases h

/-! ## Reading from a position on -/

section Drop

variable {buf rest : Bytes} {pos : ℕ}

theorem drop_add_of_drop_eq_append (bs : Bytes) (h : buf.drop pos = bs ++ rest) :
    buf.drop (pos + bs.length) = rest := by
  rw [← List.drop_drop, h, List.drop_left]

theorem readByte_of_drop_eq_cons {b : UInt8} (h : buf.drop pos = b :: rest) :
    readByte buf pos = .ok b := by
  have hget : buf[pos]? = some b := by
    rw [← List.head?_drop, h, List.head?_cons]
  simp only [readByte, hget]

theorem loadArray_of_drop_eq_append {n : ℕ} {a : FixedBytes n} (h : buf.drop pos = a.val ++ rest) :
    loadArray n buf pos = .ok a := by
  have hcut : (buf.drop pos).take n = a.val := by
    rw [h, List.take_append_of_le_length (by simp), List.take_of_length_le (by simp)]
  have hlen : ((buf.drop pos).take n).length = n := by rw [hcut]; exact a.property
  rw [loadArray, dif_pos hlen]
  exact congrArg Except.ok (Subtype.ext hcut)

theorem readBytes_of_drop_eq_append {bs : Bytes} (rest : Bytes) (h : buf.drop pos = bs ++ rest)
    (hpos : pos ≤ buf.length) : readBytes buf pos bs.length = .ok bs := by
  have hlen := congrArg List.length h
  rw [List.length_drop, List.length_append] at hlen
  rw [readBytes, if_pos (by omega), h, List.take_left]

theorem readBytes_append (pre bs post : Bytes) :
    readBytes (pre ++ (bs ++ post)) pre.length bs.length = .ok bs :=
  readBytes_of_drop_eq_append post List.drop_left (by rw [List.length_append]; omega)

end Drop

/-! ## Big-endian integers -/

/-- The `n` low bytes of `value`, the most significant first. -/
def toBigEndian : ℕ → ℕ → Bytes
  | 0, _ => []
  | n + 1, value => toBigEndian n (value >>> 8) ++ [UInt8.ofNat value]

/-- The integer a big-endian string denotes. -/
def ofBigEndian (bs : Bytes) : ℕ := bs.foldl (fun v b => v <<< 8 ||| b.toNat) 0

@[simp] theorem toBigEndian_length (n value : ℕ) : (toBigEndian n value).length = n := by
  induction n generalizing value with
  | zero => rfl
  | succ n ih => simp [toBigEndian, ih]

theorem shiftLeft_or_toNat (v : ℕ) (b : UInt8) : v <<< 8 ||| b.toNat = v * 256 + b.toNat := by
  rw [← Nat.shiftLeft_add_eq_or_of_lt (by simpa using b.toNat_lt), Nat.shiftLeft_eq]

/-- **Big-endian integers are read back**, up to the bytes there is room for. -/
theorem ofBigEndian_toBigEndian (n value : ℕ) :
    ofBigEndian (toBigEndian n value) = value % 256 ^ n := by
  induction n generalizing value with
  | zero => simp [toBigEndian, ofBigEndian, Nat.mod_one]
  | succ n ih =>
    have hfold : ofBigEndian (toBigEndian (n + 1) value) =
        ofBigEndian (toBigEndian n (value >>> 8)) <<< 8 ||| (UInt8.ofNat value).toNat := by
      simp [ofBigEndian, toBigEndian]
    have hpow : 256 ^ (n + 1) = 2 ^ 8 * 256 ^ n := Nat.pow_succ'
    rw [hfold, shiftLeft_or_toNat, ih, Nat.shiftRight_eq_div_pow, UInt8.toNat_ofNat', hpow,
      Nat.mod_mul]
    omega

theorem ofBigEndian_append (bs : Bytes) (b : UInt8) :
    ofBigEndian (bs ++ [b]) = ofBigEndian bs * 256 + b.toNat := by
  simp only [ofBigEndian, List.foldl_append, List.foldl_cons, List.foldl_nil, shiftLeft_or_toNat]

theorem ofBigEndian_lt (bs : Bytes) : ofBigEndian bs < 256 ^ bs.length := by
  induction bs using List.reverseRecOn with
  | nil => exact Nat.one_pos
  | append_singleton bs b ih =>
    have hb := b.toNat_lt
    rw [ofBigEndian_append, List.length_append, List.length_singleton, Nat.pow_succ]
    omega

/-- **Big-endian strings are written back.** -/
theorem toBigEndian_ofBigEndian {n : ℕ} {bs : Bytes} (h : bs.length = n) :
    toBigEndian n (ofBigEndian bs) = bs := by
  subst h
  induction bs using List.reverseRecOn with
  | nil => rfl
  | append_singleton bs b ih =>
    have hb := b.toNat_lt
    have hhigh : (ofBigEndian bs * 256 + b.toNat) >>> 8 = ofBigEndian bs := by
      rw [Nat.shiftRight_eq_div_pow]
      omega
    have hlow : UInt8.ofNat (ofBigEndian bs * 256 + b.toNat) = b := by
      refine UInt8.toNat_inj.mp ?_
      rw [UInt8.toNat_ofNat']
      omega
    rw [ofBigEndian_append, List.length_append, List.length_singleton, toBigEndian, hhigh, hlow, ih]
