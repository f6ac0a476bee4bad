import Mathlib.Algebra.Order.BigOperators.Group.List
import Mathlib.Algebra.Order.Ring.Nat
import Olm.Session.Model

/-!
# The description of a session

`Session::describe` compares the length that `snprintf` returns, which is the
one of the whole text, with what is left of the buffer, where the text is cut
when the two are equal: its NUL takes the place of the last character. A text
that ends so is cut without the dots. And `%d` takes an index from 2^31 on
for a negative number, which is one character more, so that 600 characters
are not enough for 46 such indices.
-/

namespace Olm

/-! ## Text -/

/-- `INT_MAX`. -/
def INT_MAX : ℕ := 2 ^ 31 - 1

/-- A number that is converted to an `int`. -/
def toInt32 (n : ℕ) : ℤ := (BitVec.ofNat 32 n).toInt

/-- `%d` of a `uint32_t`. -/
def formatInt (index : ℕ) : Bytes :=
  match toInt32 index with
  | .ofNat n => asciiBytes n.repr
  | .negSucc n => asciiBytes "-" ++ asciiBytes (n + 1).repr

/-- `snprintf` of a text in `n` characters: what fits of it is written, and a
NUL, and the length of all of it is returned. -/
def snprintf (buffer : Bytes) (pos n : ℕ) (text : Bytes) : Checked (Bytes × ℕ) :=
  if n = 0 then .ok (buffer, text.length)
  else do
    let buffer ← writeAt buffer pos (text.take (n - 1) ++ [0])
    .ok (buffer, text.length)

/-- The text that a buffer holds goes up to its first NUL. -/
def HoldsText (buffer text : Bytes) : Prop := 0 ∉ text ∧ text ++ [0] <+: buffer

/-- `elide_description`, where `end[-3]` could be in front of the buffer. -/
def elideDescription (buffer : Bytes) (last : ℕ) : Checked Bytes :=
  if last < 3 then .error .outOfBounds
  else writeAt buffer (last - 3) (asciiBytes "..." ++ [0])

/-- The calls of `snprintf`, each with `CHECK_SIZE_AND_ADVANCE`. -/
def printPieces : (texts : List Bytes) → (buffer : Bytes) → (pos remaining : ℕ) → Checked Bytes
  | [], buffer, _, _ => .ok buffer
  | text :: texts, buffer, pos, remaining => do
    let (buffer, size) ← snprintf buffer pos remaining text
    if size > remaining then elideDescription buffer (pos + remaining - 1)
    else if size > 0 then printPieces texts buffer (pos + size) (remaining - size)
    else .ok buffer

namespace Session

variable {K : Type} (session : Session K) (stale : ℕ)

/-- `sender_chain[0].chain_key.index`, `stale` being what the memory of an empty
list has there. -/
def senderIndex : ℕ :=
  match session.ratchet.senderChain.toList with
  | [] => stale
  | senderChain :: _ => senderChain.chainKey.index

/-- What `describe` formats, in this order; the loops make one text for each
chain and one for each key. -/
def descriptionPieces : List Bytes :=
  [asciiBytes "sender chain index: " ++ formatInt (session.senderIndex stale) ++ asciiBytes " ",
    asciiBytes "receiver chain indices:"] ++
  session.ratchet.receiverChains.toList.map
    (fun chain => asciiBytes " " ++ formatInt chain.chainKey.index) ++
  [asciiBytes " skipped message keys:"] ++
  session.ratchet.skippedMessageKeys.toList.map
    (fun key => asciiBytes " " ++ formatInt key.messageKey.index)

/-- `Session::describe`, in the first `buflen` bytes of the buffer. -/
def describe (describeBuffer : Bytes) (buflen : ℕ) : Checked Bytes :=
  let remaining := toInt32 buflen
  if remaining ≤ 0 then .ok describeBuffer
  else do
    let describeBuffer ← writeAt describeBuffer 0 [0]
    if remaining < 23 then .ok describeBuffer
    else printPieces (session.descriptionPieces stale) describeBuffer 0 remaining.toNat

/-- The whole of the text. -/
def description : Bytes := (session.descriptionPieces stale).flatten

/-- How many characters that is: 66 of the format, and those of the numbers. -/
def descriptionLength : ℕ :=
  66 + (formatInt (session.senderIndex stale)).length +
    (session.ratchet.receiverChains.toList.map
      fun chain => 1 + (formatInt chain.chainKey.index).length).sum +
    (session.ratchet.skippedMessageKeys.toList.map
      fun key => 1 + (formatInt key.messageKey.index).length).sum

/-- What is said of `describe` for a buffer: nothing is written behind it, there
is a NUL in it, and what is in front of that is the description, or one that
was cut and ends with the dots. -/
def Describes (buflen : ℕ) : Prop :=
  ∀ buffer : Bytes, buflen ≤ buffer.length → ∃ result,
    session.describe stale buffer buflen = .ok (result ++ buffer.drop buflen) ∧
    result.length = buflen ∧ 0 ∈ result ∧
    ((session.description stale).length < buflen →
      HoldsText result (session.description stale)) ∧
    (buflen ≤ (session.description stale).length → 23 ≤ buflen →
      ∃ front, front <+: session.description stale ∧
        HoldsText result (front ++ asciiBytes "..."))

/-- A buffer of 600 bytes is enough. -/
def FitsIn600 : Prop :=
  ∀ buffer : Bytes, 600 ≤ buffer.length → ∃ result,
    session.describe stale buffer 600 = .ok result ∧
    HoldsText result (session.description stale)

end Session

/-! ## What is written -/

section Printing

variable (buflen : ℕ) (old : Bytes)

/-- The buffer when a text was written in it. -/
def printed (text : Bytes) : Bytes :=
  text.take (buflen - 1) ++ 0 :: old.drop (min text.length (buflen - 1) + 1)

/-- The buffer when it was cut. -/
def elided (text : Bytes) : Bytes :=
  text.take (buflen - 4) ++ (asciiBytes "..." ++ 0 :: old.drop buflen)

variable {buflen old}

theorem printed_of_lt {text : Bytes} (hlt : text.length < buflen) :
    printed buflen old text = text ++ 0 :: old.drop (text.length + 1) := by
  rw [printed, List.take_of_length_le (by omega), Nat.min_eq_left (by omega)]

theorem snprintf_printed {text : Bytes} (hpos : 0 < buflen) (hold : buflen ≤ old.length)
    (hle : text.length ≤ buflen) (piece : Bytes) :
    snprintf (printed buflen old text) text.length (buflen - text.length) piece =
      .ok (printed buflen old (text ++ piece), piece.length) := by
  rcases Nat.lt_or_ge text.length buflen with hlt | hge
  · have hroom : (piece.take (buflen - text.length - 1) ++ [0]).length ≤
        (0 :: old.drop (text.length + 1)).length := by
      simp only [List.length_append, List.length_take, List.length_cons, List.length_nil,
        List.length_drop]
      omega
    have hfront : (text ++ piece).take (buflen - 1) =
        text ++ piece.take (buflen - text.length - 1) := by
      rw [List.take_append, List.take_of_length_le (by omega)]
      congr 2
      omega
    have hback : (0 :: old.drop (text.length + 1)).drop
        (piece.take (buflen - text.length - 1) ++ [0]).length =
        old.drop (min (text ++ piece).length (buflen - 1) + 1) := by
      rw [List.length_append, List.length_singleton, List.drop_succ_cons, List.drop_drop,
        List.length_take, List.length_append]
      congr 1
      omega
    rw [snprintf, if_neg (by omega), printed_of_lt hlt, writeAt_front text hroom, hback,
      Checked.ok_bind, printed, hfront, List.append_assoc, List.append_assoc]
    rfl
  · -- nothing is left, and nothing is written
    have hfront : (text ++ piece).take (buflen - 1) = text.take (buflen - 1) :=
      List.take_append_of_le_length (by omega)
    have hmin : min (text ++ piece).length (buflen - 1) = min text.length (buflen - 1) := by
      rw [List.length_append]
      omega
    rw [snprintf, if_pos (by omega), printed, printed, hfront, hmin]

theorem elideDescription_printed {text : Bytes} (hpos : 4 ≤ buflen) (hold : buflen ≤ old.length)
    (hlt : buflen < text.length) :
    elideDescription (printed buflen old text) (buflen - 1) = .ok (elided buflen old text) := by
  have hcut : printed buflen old text = text.take (buflen - 4) ++
      ((text.drop (buflen - 4)).take 3 ++ 0 :: old.drop buflen) := by
    rw [printed, Nat.min_eq_right (by omega), ← List.append_assoc, ← List.take_add]
    congr 3 <;> omega
  have hfront : (text.take (buflen - 4)).length = buflen - 1 - 3 := by
    rw [List.length_take]
    omega
  have hback : ((text.drop (buflen - 4)).take 3 ++ 0 :: old.drop buflen).drop
      (asciiBytes "..." ++ [0]).length = old.drop buflen := by
    have hdots : (asciiBytes "..." ++ [0] : Bytes).length = 3 + 1 := rfl
    rw [hdots, List.drop_append,
      List.drop_of_length_le (by rw [List.length_take]; omega), List.length_take, List.length_drop,
      Nat.min_eq_left (by omega)]
    rfl
  rw [elideDescription, if_neg (by omega), hcut, ← hfront, writeAt_front _ ?_, hback]
  · rw [elided, List.append_assoc (asciiBytes "...")]
    rfl
  · simp only [List.length_append, List.length_take, List.length_cons, List.length_drop]
    show 4 ≤ _
    omega

/-- **What the calls of `snprintf` write**: all of the texts if they are not
longer than the buffer, and otherwise they are cut. -/
theorem printPieces_printed (hpos : 4 ≤ buflen) (hold : buflen ≤ old.length) :
    ∀ (pieces : List Bytes) (text : Bytes), (∀ piece ∈ pieces, piece ≠ []) →
      text.length ≤ buflen →
      printPieces pieces (printed buflen old text) text.length (buflen - text.length) =
        .ok (if (text ++ pieces.flatten).length ≤ buflen
          then printed buflen old (text ++ pieces.flatten)
          else elided buflen old (text ++ pieces.flatten)) := by
  intro pieces
  induction pieces with
  | nil =>
    intro text _ hle
    rw [List.flatten_nil, List.append_nil, if_pos hle]
    rfl
  | cons piece pieces ih =>
    intro text hpieces hle
    have hpiece : 0 < piece.length :=
      List.length_pos_of_ne_nil (hpieces piece List.mem_cons_self)
    rw [printPieces, snprintf_printed (by omega) hold hle, Checked.ok_bind]
    dsimp only
    rw [List.flatten_cons, ← List.append_assoc]
    by_cases hlong : piece.length > buflen - text.length
    · have hlast : text.length + (buflen - text.length) - 1 = buflen - 1 := by omega
      have hover : buflen < (text ++ piece).length := by
        rw [List.length_append]
        omega
      have htail : elided buflen old (text ++ piece ++ pieces.flatten) =
          elided buflen old (text ++ piece) := by
        rw [elided, List.take_append_of_le_length (by omega)]
        rfl
      rw [if_pos hlong, hlast, elideDescription_printed hpos hold hover,
        if_neg (by rw [List.length_append]; omega), htail]
    · have hnext := ih (text ++ piece) (fun p hp => hpieces p (List.mem_cons_of_mem _ hp))
        (by rw [List.length_append]; omega)
      rw [List.length_append] at hnext
      rw [if_neg hlong, if_pos hpiece, Nat.sub_sub]
      exact hnext

theorem length_printed (hpos : 0 < buflen) (hold : buflen ≤ old.length) (text : Bytes) :
    (printed buflen old text).length = old.length := by
  simp only [printed, List.length_append, List.length_take, List.length_cons, List.length_drop]
  omega

theorem length_elided (hpos : 4 ≤ buflen) (hold : buflen ≤ old.length) {text : Bytes}
    (hlt : buflen < text.length) : (elided buflen old text).length = old.length := by
  rw [elided, List.length_append, List.length_append, List.length_take, List.length_cons,
    List.length_drop]
  show min (buflen - 4) text.length + (3 + (old.length - buflen + 1)) = old.length
  omega

/-! A buffer that is longer than `buflen` is the first `buflen` bytes and what is
behind them. -/

theorem printed_take (hpos : 0 < buflen) (hold : buflen ≤ old.length) (text : Bytes) :
    printed buflen old text = printed buflen (old.take buflen) text ++ old.drop buflen := by
  have hback : old.drop (min text.length (buflen - 1) + 1) =
      (old.take buflen).drop (min text.length (buflen - 1) + 1) ++ old.drop buflen := by
    conv_lhs => rw [← List.take_append_drop buflen old]
    exact List.drop_append_of_le_length (by rw [List.length_take]; omega)
  rw [printed, printed, hback, List.append_assoc, List.cons_append]

theorem elided_take (text : Bytes) :
    elided buflen old text = elided buflen (old.take buflen) text ++ old.drop buflen := by
  have hempty : (old.take buflen).drop buflen = [] :=
    List.drop_of_length_le (List.length_take_le _ _)
  rw [elided, elided, hempty, List.append_assoc, List.append_assoc]
  rfl

end Printing

/-! ## The numbers -/

/-- A character that is neither the NUL nor a dot. -/
def Plain (b : UInt8) : Prop := b ≠ 0 ∧ b ≠ 46

instance : DecidablePred Plain := fun _ => inferInstanceAs (Decidable (_ ∧ _))

theorem asciiBytes_repr (n : ℕ) :
    asciiBytes n.repr = (Nat.toDigits 10 n).map fun c => UInt8.ofNat c.toNat := by
  rw [asciiBytes, Nat.toList_repr]

theorem length_asciiBytes_repr_le {n : ℕ} (h : n < 10 ^ 10) : (asciiBytes n.repr).length ≤ 10 := by
  rw [asciiBytes_repr, List.length_map]
  exact (Nat.length_toDigits_le_iff (by decide) (by decide)).mpr h

theorem plain_of_mem_repr {n : ℕ} {b : UInt8} (h : b ∈ asciiBytes n.repr) : Plain b := by
  rw [asciiBytes_repr] at h
  obtain ⟨c, hc, rfl⟩ := List.mem_map.mp h
  have hdigit := Nat.isDigit_of_mem_toDigits (by decide) (by decide) hc
  have hrange : 48 ≤ c.toNat ∧ c.toNat ≤ 57 := by
    simpa [Char.isDigit, UInt32.le_iff_toNat_le] using hdigit
  obtain ⟨hlow, hhigh⟩ := hrange
  generalize c.toNat = n at hlow hhigh
  constructor <;>
  · intro hb
    have hnat := congrArg UInt8.toNat hb
    rw [UInt8.toNat_ofNat'] at hnat
    have : n % 2 ^ 8 = n := Nat.mod_eq_of_lt (by omega)
    rw [this] at hnat
    revert hnat
    simp
    omega

theorem plain_of_mem_formatInt {index : ℕ} {b : UInt8} (h : b ∈ formatInt index) : Plain b := by
  unfold formatInt at h
  split at h
  · exact plain_of_mem_repr h
  · rcases List.mem_append.mp h with hsign | hdigit
    · exact (by decide +kernel : ∀ b ∈ asciiBytes "-", Plain b) b hsign
    · exact plain_of_mem_repr hdigit

theorem toInt32_of_lt {n : ℕ} (h : n < 2 ^ 31) : toInt32 n = (n : ℤ) := by
  have hnat : (BitVec.ofNat 32 n).toNat = n := by
    rw [BitVec.toNat_ofNat]
    exact Nat.mod_eq_of_lt (by omega)
  rw [toInt32, BitVec.toInt_eq_toNat_of_lt (by omega), hnat]

/-- An index below 2^31 has ten digits at most. -/
theorem length_formatInt_le {index : ℕ} (h : index < 2 ^ 31) : (formatInt index).length ≤ 10 := by
  rw [formatInt, toInt32_of_lt h]
  exact length_asciiBytes_repr_le (by omega)

/-! ## The description -/

namespace Session

variable {K : Type} (session : Session K) (stale : ℕ)

theorem length_description :
    (session.description stale).length = session.descriptionLength stale := by
  have hspace (index : ℕ) :
      (asciiBytes " " ++ formatInt index).length = 1 + (formatInt index).length := by
    rw [List.length_append]
    rfl
  simp only [description, descriptionPieces, List.flatten_append, List.flatten_cons,
    List.flatten_nil, List.length_append, List.length_flatten, List.map_map, Function.comp_def,
    hspace, descriptionLength, List.length_nil]
  rw [show (asciiBytes "sender chain index: ").length = 20 from rfl,
    show (asciiBytes " ").length = 1 from rfl,
    show (asciiBytes "receiver chain indices:").length = 23 from rfl,
    show (asciiBytes " skipped message keys:").length = 22 from rfl]
  omega

theorem pieces_ne_nil : ∀ piece ∈ session.descriptionPieces stale, piece ≠ [] := by
  have happend (s t : Bytes) (hs : s ≠ []) : s ++ t ≠ [] := fun h =>
    hs (List.append_eq_nil_iff.mp h).1
  intro piece hpiece
  simp only [descriptionPieces, List.mem_append, List.mem_cons, List.mem_map,
    List.not_mem_nil, or_false] at hpiece
  obtain (((rfl | rfl) | ⟨chain, -, rfl⟩) | rfl) | ⟨key, -, rfl⟩ := hpiece
  · exact happend _ _ (happend _ _ (by decide))
  · decide
  · exact happend _ _ (by decide)
  · decide
  · exact happend _ _ (by decide)

theorem plain_of_mem_description {b : UInt8} (h : b ∈ session.description stale) : Plain b := by
  have happend {s t : Bytes} (hs : ∀ b ∈ s, Plain b) (ht : ∀ b ∈ t, Plain b) :
      ∀ b ∈ s ++ t, Plain b := fun b hb => (List.mem_append.mp hb).elim (hs b) (ht b)
  obtain ⟨piece, hpiece, hb⟩ := List.mem_flatten.mp h
  revert b
  simp only [descriptionPieces, List.mem_append, List.mem_cons, List.mem_map,
    List.not_mem_nil, or_false] at hpiece
  obtain (((rfl | rfl) | ⟨chain, -, rfl⟩) | rfl) | ⟨key, -, rfl⟩ := hpiece
  · intro b _ hb
    exact happend (happend (by decide +kernel) fun _ => plain_of_mem_formatInt)
      (by decide +kernel) b hb
  · intro b _ hb
    exact (by decide +kernel : ∀ b ∈ asciiBytes "receiver chain indices:", Plain b) b hb
  · intro b _ hb
    exact happend (by decide +kernel) (fun _ => plain_of_mem_formatInt) b hb
  · intro b _ hb
    exact (by decide +kernel : ∀ b ∈ asciiBytes " skipped message keys:", Plain b) b hb
  · intro b _ hb
    exact happend (by decide +kernel) (fun _ => plain_of_mem_formatInt) b hb

/-- **What `describe` writes** in a buffer of 23 bytes or more. -/
theorem describe_eq {buflen : ℕ} {buffer : Bytes} (hpos : 23 ≤ buflen) (hmax : buflen ≤ INT_MAX)
    (hroom : buflen ≤ buffer.length) :
    session.describe stale buffer buflen =
      .ok (if session.descriptionLength stale ≤ buflen
        then printed buflen buffer (session.description stale)
        else elided buflen buffer (session.description stale)) := by
  have hlt : buflen < 2 ^ 31 := Nat.lt_of_le_of_lt hmax (by decide)
  have hfirst : writeAt buffer 0 [0] = .ok (printed buflen buffer []) := by
    rw [printed_of_lt (by rw [List.length_nil]; omega)]
    exact writeAt_front [] (by rw [List.length_singleton]; omega)
  have hrun := printPieces_printed (by omega) hroom (session.descriptionPieces stale) []
    (session.pieces_ne_nil stale) (Nat.zero_le buflen)
  rw [describe, toInt32_of_lt hlt, if_neg (by omega), hfirst, Checked.ok_bind,
    if_neg (by omega), Int.toNat_natCast]
  rw [← length_description]
  exact hrun

/-- In a shorter one there is only the NUL. -/
theorem describe_short {buflen : ℕ} {buffer : Bytes} (hpos : 0 < buflen) (hlt : buflen < 23)
    (hroom : buflen ≤ buffer.length) :
    session.describe stale buffer buflen = .ok (0 :: buffer.drop 1) := by
  have hfirst : writeAt buffer 0 [0] = .ok (0 :: buffer.drop 1) :=
    writeAt_front [] (by rw [List.length_singleton]; omega)
  rw [describe, toInt32_of_lt (by omega), if_neg (by omega), hfirst, Checked.ok_bind,
    if_pos (by omega)]

variable {session stale} {buflen : ℕ}

theorem holdsText_front {front text rest : Bytes} (hzero : 0 ∉ text)
    (h : front = text ++ 0 :: rest) : HoldsText front text := by
  refine ⟨hzero, rest, ?_⟩
  rw [h, List.append_assoc]
  rfl

theorem zero_notMem_description : 0 ∉ session.description stale := fun h =>
  (session.plain_of_mem_description stale h).1 rfl

/-- A description that is shorter than the buffer is there. -/
theorem holdsText_printed (hlt : session.descriptionLength stale < buflen) (old : Bytes) :
    HoldsText (printed buflen old (session.description stale)) (session.description stale) := by
  rw [← length_description] at hlt
  exact holdsText_front zero_notMem_description (printed_of_lt hlt)

theorem zero_mem_printed (old text : Bytes) : 0 ∈ printed buflen old text :=
  List.mem_append_right _ List.mem_cons_self

/-- **All is as it should be** if the length is not the one of the buffer. -/
theorem describes_of_ne (hpos : 1 ≤ buflen) (hmax : buflen ≤ INT_MAX)
    (hne : session.descriptionLength stale ≠ buflen) : session.Describes stale buflen := by
  have hlength := session.length_description stale
  have hformat : 66 ≤ session.descriptionLength stale := by
    unfold descriptionLength
    omega
  intro buffer hroom
  have htake : (buffer.take buflen).length = buflen := List.length_take_of_le hroom
  rcases Nat.lt_or_ge buflen 23 with hshort | hlong
  · have hback : buffer.drop 1 = (buffer.take buflen).drop 1 ++ buffer.drop buflen := by
      conv_lhs => rw [← List.take_append_drop buflen buffer]
      exact List.drop_append_of_le_length (by omega)
    refine ⟨0 :: (buffer.take buflen).drop 1, ?_, ?_, List.mem_cons_self, ?_, ?_⟩
    · rw [session.describe_short stale hpos hshort hroom, hback]
      rfl
    · rw [List.length_cons, List.length_drop, htake]
      omega
    · intro hlt
      omega
    · intro _ hlong
      omega
  rcases Nat.lt_or_gt_of_ne hne with hlt | hgt
  · refine ⟨printed buflen (buffer.take buflen) (session.description stale), ?_, ?_,
      zero_mem_printed _ _, fun _ => holdsText_printed hlt _, ?_⟩
    · rw [session.describe_eq stale hlong hmax hroom, if_pos (Nat.le_of_lt hlt),
        ← printed_take hpos hroom]
    · rw [length_printed hpos (Nat.le_of_eq htake.symm), htake]
    · intro hle
      omega
  · have hzero : 0 ∉ (session.description stale).take (buflen - 4) ++ asciiBytes "..." := by
      intro h
      rcases List.mem_append.mp h with h | h
      · exact zero_notMem_description (List.mem_of_mem_take h)
      · exact absurd h (by decide)
    have htext : elided buflen (buffer.take buflen) (session.description stale) =
        ((session.description stale).take (buflen - 4) ++ asciiBytes "...") ++
          0 :: (buffer.take buflen).drop buflen := by
      rw [elided, List.append_assoc]
    refine ⟨elided buflen (buffer.take buflen) (session.description stale), ?_, ?_, ?_, ?_, ?_⟩
    · rw [session.describe_eq stale hlong hmax hroom, if_neg (by omega), ← elided_take]
    · rw [length_elided (by omega) (Nat.le_of_eq htake.symm) (by omega), htake]
    · rw [htext]
      exact List.mem_append_right _ List.mem_cons_self
    · intro hlt
      omega
    · intro _ _
      exact ⟨_, List.take_prefix _ _, holdsText_front hzero htext⟩

/-- **A description of the length of the buffer is cut without the dots.** -/
theorem not_describes_of_eq (hmax : buflen ≤ INT_MAX)
    (heq : session.descriptionLength stale = buflen) : ¬session.Describes stale buflen := by
  have hlength := session.length_description stale
  have hformat : 66 ≤ session.descriptionLength stale := by
    unfold descriptionLength
    omega
  intro h
  obtain ⟨buffer, hbuffer⟩ : ∃ buffer : Bytes, buffer = List.replicate buflen 0 := ⟨_, rfl⟩
  have hroom : buflen = buffer.length := by rw [hbuffer, List.length_replicate]
  obtain ⟨result, hrun, -, -, -, hdots⟩ := h buffer (Nat.le_of_eq hroom)
  obtain ⟨front, -, -, htext⟩ := hdots (by omega) (by omega)
  rw [session.describe_eq stale (by omega) hmax (Nat.le_of_eq hroom),
    if_pos (Nat.le_of_eq heq), List.drop_of_length_le (Nat.le_of_eq hroom.symm),
    List.append_nil] at hrun
  have hdot : 46 ∈ printed buflen buffer (session.description stale) := by
    rw [Except.ok.inj hrun]
    refine htext.subset (List.mem_append_left _ (List.mem_append_right _ ?_))
    decide
  rcases List.mem_append.mp hdot with hmem | hmem
  · exact (session.plain_of_mem_description stale (List.mem_of_mem_take hmem)).2 rfl
  · rcases List.mem_cons.mp hmem with hzero | hmem
    · exact absurd hzero (by decide)
    · rw [hbuffer] at hmem
      exact absurd (List.eq_of_mem_replicate (List.mem_of_mem_drop hmem)) (by decide)

/-- **600 bytes are enough** for less than 600 characters and no more. -/
theorem fitsIn600_iff : session.FitsIn600 stale ↔ session.descriptionLength stale < 600 := by
  constructor
  · intro h
    obtain ⟨buffer, hbuffer⟩ : ∃ buffer : Bytes, buffer = List.replicate 600 0 := ⟨_, rfl⟩
    have hroom : buffer.length = 600 := by rw [hbuffer, List.length_replicate]
    obtain ⟨result, hrun, -, htext⟩ := h buffer (Nat.le_of_eq hroom.symm)
    have hlen : result.length = 600 := by
      rw [session.describe_eq stale (by decide) (by decide) (Nat.le_of_eq hroom.symm)] at hrun
      rw [← Except.ok.inj hrun]
      split
      · rw [length_printed (by decide) (Nat.le_of_eq hroom.symm), hroom]
      case isFalse hlong =>
        rw [length_elided (by decide) (Nat.le_of_eq hroom.symm) (by rw [length_description]; omega),
          hroom]
    have hle := htext.length_le
    rw [List.length_append, List.length_singleton, length_description, hlen] at hle
    omega
  · intro hlt buffer hroom
    refine ⟨_, session.describe_eq stale (by decide) (by decide) hroom, ?_⟩
    rw [if_pos (Nat.le_of_lt hlt)]
    exact holdsText_printed hlt buffer

/-- Indices below 2^31 always fit. -/
theorem fitsIn600_of_lt (hsender : session.senderIndex stale < 2 ^ 31)
    (hreceivers : ∀ chain ∈ session.ratchet.receiverChains.toList, chain.chainKey.index < 2 ^ 31)
    (hskipped : ∀ key ∈ session.ratchet.skippedMessageKeys.toList,
      key.messageKey.index < 2 ^ 31) : session.FitsIn600 stale := by
  have hwidth (index : ℕ) (h : index < 2 ^ 31) : 1 + (formatInt index).length ≤ 11 := by
    have := length_formatInt_le h
    omega
  have hsender' := hwidth _ hsender
  have hreceivers' := List.sum_le_card_nsmul
    (session.ratchet.receiverChains.toList.map
      fun chain => 1 + (formatInt chain.chainKey.index).length) 11 (by
    intro n hn
    obtain ⟨chain, hchain, rfl⟩ := List.mem_map.mp hn
    exact hwidth _ (hreceivers chain hchain))
  have hskipped' := List.sum_le_card_nsmul
    (session.ratchet.skippedMessageKeys.toList.map
      fun key => 1 + (formatInt key.messageKey.index).length) 11 (by
    intro n hn
    obtain ⟨key, hkey, rfl⟩ := List.mem_map.mp hn
    exact hwidth _ (hskipped key hkey))
  rw [List.length_map, Nat.nsmul_eq_mul] at hreceivers' hskipped'
  have hchains : session.ratchet.receiverChains.toList.length ≤ 5 :=
    session.ratchet.receiverChains.length_le
  have hkeys : session.ratchet.skippedMessageKeys.toList.length ≤ 40 :=
    session.ratchet.skippedMessageKeys.length_le
  rw [fitsIn600_iff, descriptionLength]
  omega

/-- **`describe` does what is said of it** exactly for the descriptions that are
not of the length of the buffer and have less than 600 characters. -/
theorem describes_iff (session : Session K) (stale : ℕ) {buflen : ℕ} (hpos : 1 ≤ buflen)
    (hmax : buflen ≤ INT_MAX) :
    session.Describes stale buflen ∧ session.FitsIn600 stale ↔
      session.descriptionLength stale ≠ buflen ∧ session.descriptionLength stale < 600 := by
  rw [fitsIn600_iff]
  refine and_congr_left fun _ => ⟨?_, describes_of_ne hpos hmax⟩
  intro h heq
  exact not_describes_of_eq hmax heq h

/-- A session with a chain to send on, two to receive on and two skipped keys. -/
def chatting : Session SharedKey :=
  { (new (FixedBytes.zero _) : Session SharedKey) with
    ratchet := {
      lastError := .SUCCESS
      rootKey := FixedBytes.zero _
      senderChain := ⟨[⟨⟨FixedBytes.zero _, FixedBytes.zero _⟩, ⟨12, FixedBytes.zero _⟩⟩], by decide⟩
      receiverChains := ⟨[⟨FixedBytes.zero _, ⟨7, FixedBytes.zero _⟩⟩,
        ⟨FixedBytes.zero _, ⟨105, FixedBytes.zero _⟩⟩], by decide⟩
      skippedMessageKeys := ⟨[⟨FixedBytes.zero _, ⟨5, FixedBytes.zero _⟩⟩,
        ⟨FixedBytes.zero _, ⟨99, FixedBytes.zero _⟩⟩], by decide⟩ } }

/-- Its description of 79 characters, in a buffer that is too small for it. -/
theorem describes_iff_chatting : chatting.descriptionLength 0 = 79 ∧
    chatting.Describes 0 70 ∧ chatting.FitsIn600 0 :=
  ⟨by decide +kernel,
    (describes_iff chatting 0 (show 1 ≤ 70 by decide) (by decide)).mpr (by decide +kernel)⟩

/-- 46 indices that `%d` takes for negative numbers. -/
def negativeIndices : Session SharedKey :=
  { (new (FixedBytes.zero _) : Session SharedKey) with
    ratchet := {
      lastError := .SUCCESS
      rootKey := FixedBytes.zero _
      senderChain := ⟨List.replicate 1
        ⟨⟨FixedBytes.zero _, FixedBytes.zero _⟩, ⟨2 ^ 31, FixedBytes.zero _⟩⟩, by decide⟩
      receiverChains := ⟨List.replicate 5
        ⟨FixedBytes.zero _, ⟨2 ^ 31, FixedBytes.zero _⟩⟩, by decide⟩
      skippedMessageKeys := ⟨List.replicate 40
        ⟨FixedBytes.zero _, ⟨2 ^ 31, FixedBytes.zero _⟩⟩, by decide⟩ } }

/-- **67 bytes are cut without the dots**, and 600 bytes are not enough. -/
theorem not_describes : ¬(new (FixedBytes.zero _) : Session SharedKey).Describes 0 67 ∧
    ¬negativeIndices.FitsIn600 0 := by
  refine ⟨not_describes_of_eq (by decide) (by decide), ?_⟩
  rw [fitsIn600_iff]
  have hwidth : (formatInt (2 ^ 31)).length = 11 := by
    decide +kernel
  have hlength : negativeIndices.descriptionLength 0 = 617 := by
    simp only [descriptionLength, negativeIndices, List.map_replicate, List.sum_replicate, hwidth,
      senderIndex, List.replicate_one, Nat.nsmul_eq_mul]
  omega

end Session

end Olm
