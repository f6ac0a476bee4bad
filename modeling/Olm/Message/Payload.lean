import Olm.Group.Model
import Olm.Message.Bounds

/-!
# The decoders read their payload only

A decoder that returns on the front of its input returns the same on the
whole of it (`ExtendsTo`), and it does return on the payload, the front up
to the trailer. So no byte of the trailer is read, and none behind the
input (`decoders_read_payload`).
-/

namespace Olm

section Front

variable {front buf : Bytes} (h : front <+: buf)
include h

theorem varintSkipLoop_extendsTo (count input : ℕ) :
    (varintSkipLoop front count input).ExtendsTo (varintSkipLoop buf count input) := by
  induction count generalizing input with
  | zero => exact .refl _
  | succ count ih => exact .bind (readByte_extendsTo h input) fun _ => .ite (.refl _) (ih _)

theorem varintSkip_extendsTo (input inputEnd : ℕ) :
    (varintSkip front input inputEnd).ExtendsTo (varintSkip buf input inputEnd) :=
  .ite (.refl _) (varintSkipLoop_extendsTo h _ _)

theorem varintDecodeLoop_extendsTo (width start count value : ℕ) :
    (varintDecodeLoop width front start count value).ExtendsTo
      (varintDecodeLoop width buf start count value) := by
  induction count generalizing value with
  | zero => exact .refl _
  | succ count ih => exact .bind (readByte_extendsTo h _) fun _ => ih _

theorem varintDecode_extendsTo (width start end_ : ℕ) :
    (varintDecode width front start end_).ExtendsTo (varintDecode width buf start end_) :=
  .ite (.refl _) (varintDecodeLoop_extendsTo h _ _ _ _)

theorem atTag_extendsTo (pos end_ : ℕ) (tag : UInt8) :
    (atTag front pos end_ tag).ExtendsTo (atTag buf pos end_ tag) :=
  .ite (.refl _) (.bind (readByte_extendsTo h pos) fun _ => .refl _)

theorem decodeInt_extendsTo (end_ : ℕ) (tag : UInt8) (pos : ℕ) (field : IntField) :
    (decodeInt front end_ tag pos field).ExtendsTo (decodeInt buf end_ tag pos field) :=
  .bind (atTag_extendsTo h pos end_ tag) fun _ =>
    .ite (.bind (varintSkip_extendsTo h _ _) fun _ =>
      .bind (varintDecode_extendsTo h _ _ _) fun _ => .refl _) (.refl _)

theorem decodeString_extendsTo (end_ : ℕ) (tag : UInt8) (pos : ℕ) (field : StringField) :
    (decodeString front end_ tag pos field).ExtendsTo (decodeString buf end_ tag pos field) :=
  .bind (atTag_extendsTo h pos end_ tag) fun _ =>
    .ite (.bind (varintSkip_extendsTo h _ _) fun _ =>
      .bind (varintDecode_extendsTo h _ _ _) fun _ => .refl _) (.refl _)

theorem skipUnknown_extendsTo (pos end_ : ℕ) :
    (skipUnknown front pos end_).ExtendsTo (skipUnknown buf pos end_) := by
  refine .ite (.refl _) (.bind (readByte_extendsTo h pos) fun _ => .ite ?_ (.ite ?_ (.refl _)))
  · exact .bind (varintSkip_extendsTo h _ _) fun _ => varintSkip_extendsTo h _ _
  · exact .bind (varintSkip_extendsTo h _ _) fun _ => .bind (varintSkip_extendsTo h _ _) fun _ =>
      .bind (varintDecode_extendsTo h _ _ _) fun _ => .refl _

theorem decodeFields_extendsTo {Reader : Type} {end_ : ℕ}
    {fields fields' : ℕ → Reader → Checked (ℕ × Reader)}
    (hfields : ∀ pos reader, (fields pos reader).ExtendsTo (fields' pos reader)) (fuel pos : ℕ)
    (reader : Reader) :
    (decodeFields front end_ fields fuel pos reader).ExtendsTo
      (decodeFields buf end_ fields' fuel pos reader) := by
  induction fuel generalizing pos reader with
  | zero => exact .refl _
  | succ fuel ih =>
    refine .ite (.refl _) (.bind (hfields pos reader) ?_)
    rintro ⟨pos', reader'⟩
    exact .ite (.bind (skipUnknown_extendsTo h pos' end_) fun pos₂ => ih pos₂ reader') (ih pos' reader')

theorem decodeMessage_extendsTo (input inputLength macLength : ℕ) :
    (decodeMessage front input inputLength macLength).ExtendsTo
      (decodeMessage buf input inputLength macLength) := by
  have hfields : ∀ end_ pos reader, (messageFields front end_ pos reader).ExtendsTo
      (messageFields buf end_ pos reader) := fun end_ pos reader =>
    .bind (decodeString_extendsTo h _ _ _ _) fun _ => .bind (decodeInt_extendsTo h _ _ _ _) fun _ =>
      .bind (decodeString_extendsTo h _ _ _ _) fun _ => .refl _
  exact .ite (.refl _) (.ite (.refl _) (.bind (readByte_extendsTo h input) fun _ =>
    decodeFields_extendsTo h (hfields _) _ _ _))

theorem decodeGroupMessage_extendsTo (inputLength macLength signatureLength : ℕ) :
    (decodeGroupMessage front inputLength macLength signatureLength).ExtendsTo
      (decodeGroupMessage buf inputLength macLength signatureLength) := by
  have hfields : ∀ end_ pos reader, (groupMessageFields front end_ pos reader).ExtendsTo
      (groupMessageFields buf end_ pos reader) := fun end_ pos reader =>
    .bind (decodeInt_extendsTo h _ _ _ _) fun _ => .bind (decodeString_extendsTo h _ _ _ _) fun _ =>
      .refl _
  exact .ite (.refl _) (.ite (.refl _) (.bind (readByte_extendsTo h 0) fun _ =>
    decodeFields_extendsTo h (hfields _) _ _ _))

end Front

/-- The decoder returns this reader, and has read no byte of the input from
`stop` on: it returns the same where these bytes are not there. -/
structure ReadsUpTo {Reader : Type} (decoder : Bytes → Checked Reader) (input : Bytes) (stop : ℕ)
    (reader : Reader) : Prop where
  returns : decoder input = .ok reader
  reads : decoder (input.take stop) = .ok reader

theorem ReadsUpTo.of_front {Reader : Type} {decoder : Bytes → Checked Reader} {input : Bytes}
    {stop : ℕ} {front whole : Reader} (hfront : decoder (input.take stop) = .ok front)
    (hwhole : decoder input = .ok whole)
    (hextends : (decoder (input.take stop)).ExtendsTo (decoder input)) :
    ReadsUpTo decoder input stop whole := by
  have hsame := (hextends front hfront).symm.trans hwhole
  cases hsame
  exact ⟨hwhole, hfront⟩

/-- **The decoders read their payload only**, whatever the input and the
lengths of the trailer are: they return, have read nothing behind the
payload, and what they report lies between the version byte and the
trailer. A group message of the version that `_decrypt` goes on with is
longer than its MAC and its signature. -/
theorem decoders_read_payload (input : Bytes) (macLength signatureLength : ℕ) :
    (∃ reader, ReadsUpTo (fun buf => decodeMessage buf 0 input.length macLength) input
        (input.length - macLength) reader ∧
      reader.InBounds 1 (input.length - macLength) ∧
      reader.counter.InBounds input 1 (input.length - macLength)) ∧
    (∃ reader, ReadsUpTo (fun buf => decodeOneTimeKeyMessage buf 0 input.length) input
        input.length reader ∧
      reader.InBounds 1 input.length) ∧
    ∃ reader, ReadsUpTo
        (fun buf => decodeGroupMessage buf input.length macLength signatureLength) input
        (input.length - (macLength + signatureLength)) reader ∧
      reader.InBounds input 1 (input.length - (macLength + signatureLength)) ∧
      (reader.version = OLM_PROTOCOL_VERSION → macLength + signatureLength < input.length) := by
  have hlength : ∀ n, n ≤ input.length → n ≤ (input.take n).length := by
    intro n hn
    rw [List.length_take_of_le hn]
  have hzero : 0 + input.length = input.length := Nat.zero_add _
  refine ⟨?_, ?_, ?_⟩
  · have hend : 0 + input.length - macLength ≤ input.length := by omega
    obtain ⟨front, hfront, -⟩ := decodeMessage_payload (hlength _ hend)
    obtain ⟨reader, hread, hbounds, hcounter, -⟩ := decodeMessage_payload hend
    rw [hzero] at hfront hbounds hcounter
    exact ⟨reader, .of_front hfront hread (decodeMessage_extendsTo (List.take_prefix _ _) _ _ _),
      hbounds, hcounter⟩
  · obtain ⟨reader, hread, hbounds⟩ := decodeOneTimeKeyMessage_payload (le_of_eq hzero)
    rw [hzero] at hbounds
    refine ⟨reader, ⟨hread, ?_⟩, hbounds⟩
    rw [List.take_length]
    exact hread
  · have hend := Nat.sub_le input.length (macLength + signatureLength)
    obtain ⟨front, hfront, -⟩ := decodeGroupMessage_payload (hlength _ hend)
    obtain ⟨reader, hread, hbounds, hversion⟩ := decodeGroupMessage_payload hend
    refine ⟨reader, .of_front hfront hread
      (decodeGroupMessage_extendsTo (List.take_prefix _ _) _ _ _), hbounds, fun h => hversion ?_⟩
    rw [h]
    decide

end Olm
