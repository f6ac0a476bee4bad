import Olm.Account.Json
import Olm.Base64.RoundTrip

/-!
# The text the getters write

What a writer of `src/account.cpp` puts into its buffer, as a text. Writers
that are called one after another write their texts one after another, so
the text of a getter is read off its calls; a buffer that was found long
enough has room for it.
-/

namespace Olm

open Base64

namespace JsonOutput

variable {out : JsonOutput} {text room bytes : Bytes}

/-- The text written so far, and the room that is left. -/
structure Holds (out : JsonOutput) (text room : Bytes) : Prop where
  buf_eq : out.buf = text ++ room
  pos_eq : out.pos = text.length

/-- What a writer writes, wherever it has room for it. -/
def Writes (writer : JsonOutput → Checked JsonOutput) (bytes : Bytes) : Prop :=
  ∀ out text room, out.Holds text room → bytes.length ≤ room.length →
    ∃ out', writer out = .ok out' ∧ out'.Holds (text ++ bytes) (room.drop bytes.length)

theorem Holds.writeAt (h : out.Holds text room) (hroom : bytes.length ≤ room.length) :
    writeAt out.buf out.pos bytes = .ok (text ++ bytes ++ room.drop bytes.length) := by
  have hwrite := writeAt_append text (room.drop bytes.length)
    (List.length_take_of_le hroom).symm
  rw [List.take_append_drop] at hwrite
  rw [h.buf_eq, h.pos_eq, hwrite, List.append_assoc]

theorem writes_write (bytes : Bytes) : Writes (·.write bytes) bytes := by
  intro out text room h hroom
  have hrun : out.write bytes = .ok
      { buf := text ++ bytes ++ room.drop bytes.length, pos := out.pos + bytes.length } := by
    unfold write
    rw [h.writeAt hroom]
    rfl
  refine ⟨_, hrun, rfl, ?_⟩
  rw [h.pos_eq, List.length_append]

theorem writes_writeBase64 (bytes : Bytes) : Writes (·.writeBase64 bytes) (encode bytes) := by
  intro out text room h hroom
  have hin : (Base64Input.object bytes).Holds out.buf 0 bytes := ⟨[], by simp⟩
  have hout : out.pos ≤ out.buf.length := by
    rw [h.buf_eq, h.pos_eq, List.length_append]
    exact Nat.le_add_right _ _
  have hrun : out.writeBase64 bytes = .ok
      { buf := text ++ encode bytes ++ room.drop (encode bytes).length
        pos := out.pos + encodeBase64Length bytes.length } := by
    unfold writeBase64
    rw [encodeBase64_eq hin trivial hout, h.writeAt hroom]
    rfl
  refine ⟨_, hrun, rfl, ?_⟩
  rw [h.pos_eq, List.length_append, encode_length]

/-- **One writer after another** writes one text after the other. -/
theorem Writes.andThen {writer writer' : JsonOutput → Checked JsonOutput} {bytes' : Bytes}
    (h : Writes writer bytes) (h' : Writes writer' bytes') :
    Writes (fun out => writer out >>= writer') (bytes ++ bytes') := by
  intro out text room hout hroom
  rw [List.length_append] at hroom
  obtain ⟨out₁, hrun₁, hout₁⟩ := h out text room hout (by omega)
  obtain ⟨out₂, hrun₂, hout₂⟩ := h' out₁ _ _ hout₁ (by rw [List.length_drop]; omega)
  refine ⟨out₂, by simp only [hrun₁, Checked.ok_bind, hrun₂], ?_⟩
  rwa [List.append_assoc, List.drop_drop, ← List.length_append] at hout₂

/-- The text of a key and its id. -/
def keyText (id : UInt32) (publicKey : Curve25519PublicKey) : Bytes :=
  asciiBytes "\"" ++ (encode (pickleUInt32 id) ++ (asciiBytes "\":\"" ++
    (encode publicKey.val ++ asciiBytes "\"")))

theorem writes_writeKey (id : UInt32) (publicKey : Curve25519PublicKey) :
    Writes (·.writeKey id publicKey) (keyText id publicKey) :=
  (writes_write _).andThen ((writes_writeBase64 _).andThen ((writes_write _).andThen
    ((writes_writeBase64 _).andThen (writes_write _))))

end JsonOutput

namespace Account

open JsonOutput

/-- The object that names one key. -/
def singleKeyText (id : UInt32) (publicKey : Curve25519PublicKey) : Bytes :=
  asciiBytes "\x7b" ++ (KEY_JSON_CURVE25519 ++ (asciiBytes "\x7b" ++
    (keyText id publicKey ++ (asciiBytes "\x7d" ++ asciiBytes "\x7d"))))

theorem length_singleKeyText (id : UInt32) (publicKey : Curve25519PublicKey) :
    (singleKeyText id publicKey).length = singleKeyJsonLength (some (id, publicKey)) := by
  have hquote : (asciiBytes "\"").length = 1 := rfl
  have hopen : (asciiBytes "\x7b").length = 1 := rfl
  have hclose : (asciiBytes "\x7d").length = 1 := rfl
  have hcolon : (asciiBytes "\":\"").length = 3 := rfl
  simp only [singleKeyText, keyText, List.length_append, encode_length, length_pickleUInt32,
    FixedBytes.length_val, hquote, hopen, hclose, hcolon, singleKeyJsonLength, keyEntryLength,
    Option.map_some, Option.getD_some]
  omega

/-- **The text says which key it names.** -/
theorem singleKeyText_inj {id id' : UInt32} {publicKey publicKey' : Curve25519PublicKey}
    (h : singleKeyText id publicKey = singleKeyText id' publicKey') : publicKey = publicKey' := by
  simp only [singleKeyText, keyText, List.append_cancel_left_eq, List.append_assoc] at h
  have hid : (encode (pickleUInt32 id)).length = (encode (pickleUInt32 id')).length := by
    rw [encode_length, encode_length, length_pickleUInt32, length_pickleUInt32]
    rfl
  have hkey := List.append_cancel_left (List.append_inj_right h hid)
  have hlength : (encode publicKey.val).length = (encode publicKey'.val).length := by
    rw [encode_length, encode_length, FixedBytes.length_val, FixedBytes.length_val]
  have hcode := List.append_inj_left hkey hlength
  apply Subtype.ext
  rw [← decode_encode publicKey.val, hcode, decode_encode]

/-- **What the getters of one key write.** -/
theorem writeSingleKeyJson_eq {id : UInt32} {publicKey : Curve25519PublicKey} {json : Bytes}
    (hroom : singleKeyJsonLength (some (id, publicKey)) ≤ json.length) :
    writeSingleKeyJson (some (id, publicKey)) json =
      .ok (singleKeyText id publicKey ++ json.drop (singleKeyText id publicKey).length,
        (singleKeyText id publicKey).length) := by
  have hwrites : Writes (fun out => do
      let out ← out.write (asciiBytes "\x7b")
      let out ← out.write KEY_JSON_CURVE25519
      let out ← out.write (asciiBytes "\x7b")
      let out ← out.writeKey id publicKey
      let out ← out.write (asciiBytes "\x7d")
      out.write (asciiBytes "\x7d")) (singleKeyText id publicKey) :=
    (writes_write _).andThen ((writes_write _).andThen ((writes_write _).andThen
      ((writes_writeKey id publicKey).andThen ((writes_write _).andThen (writes_write _)))))
  rw [← length_singleKeyText] at hroom
  obtain ⟨out, hrun, hbuf, hpos⟩ := hwrites { buf := json, pos := 0 } [] json ⟨rfl, rfl⟩ hroom
  -- the getter ends by giving the buffer and the position
  have hall := congrArg (fun run => run >>= fun out => Except.ok (out.buf, out.pos)) hrun
  simp only [bind_assoc, Checked.ok_bind, hbuf, hpos] at hall
  exact hall

end Account

end Olm
