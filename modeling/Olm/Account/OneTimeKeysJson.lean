import Olm.Account.JsonText
import Olm.Base64.Layouts
import Olm.Common.Json
import Olm.Symbolic

/-!
# The one-time keys as JSON

What `get_one_time_keys_json` writes is a JSON object with an entry for each
key that is not published yet. One loop says how long it is and another
writes it, with the separator that comes next as its state.
-/

namespace Olm

open Base64 JsonOutput

/-- Base64 needs no escapes in a string. -/
theorem isPlain_of_mem_encode {raw : Bytes} : ∀ b ∈ encode raw, Json.IsPlain b := by
  have hall : ∀ c ∈ ENCODE_BASE64, Json.IsPlain c := by decide +kernel
  intro b h
  exact hall b (mem_encode raw b h)

/-- The entry of a key: its id and the public key, in base64. -/
def OneTimeKey.entry (key : OneTimeKey) : Bytes × Json :=
  (encode (pickleUInt32 key.id), .string (encode key.key.publicKey.val))

/-- **An id is told from its name.** -/
theorem OneTimeKey.id_eq_of_entry {key key' : OneTimeKey} (h : key.entry.1 = key'.entry.1) :
    key.id = key'.id := by
  have hids : decode (encode (pickleUInt32 key.id)) = decode (encode (pickleUInt32 key'.id)) :=
    congrArg decode h
  rw [decode_encode, decode_encode] at hids
  exact pickleUInt32_injective hids

namespace Account

variable {account : Account} {keys : List OneTimeKey} {sep : Bytes}

/-- The object whose members are the entries of the keys. -/
def oneTimeKeysObject (keys : List OneTimeKey) : Json :=
  .object [(asciiBytes "curve25519", .object (keys.map OneTimeKey.entry))]

/-- **The getter lists the keys**, in a text of the length that
`get_one_time_keys_json_length` says, if there is room for it. -/
def Lists (account : Account) (keys : List OneTimeKey) : Prop :=
  ∃ text : Bytes, text.length = account.getOneTimeKeysJsonLength ∧
    Json.parse text = some (oneTimeKeysObject keys) ∧
    ∀ json, account.getOneTimeKeysJson json =
      if json.length < text.length then .ok (account.fail .OUTPUT_BUFFER_TOO_SMALL)
      else .ok (account, some (text ++ json.drop text.length, text.length))

/-! ## The text -/

/-- The keys behind a separator, with commas between them. Where there is no
key the separator is there alone, unless it is a comma. -/
def entriesText (sep : Bytes) : List OneTimeKey → Bytes
  | [] => if sep ≠ asciiBytes "," then sep else []
  | key :: keys => sep ++ (keyText key.id key.key.publicKey ++ entriesText (asciiBytes ",") keys)

/-- What the getter writes. -/
def oneTimeKeysText (keys : List OneTimeKey) : Bytes :=
  asciiBytes "\x7b" ++ (KEY_JSON_CURVE25519 ++
    (entriesText (asciiBytes "\x7b") keys ++ asciiBytes "\x7d\x7d"))

theorem length_keyText (id : UInt32) (publicKey : Curve25519PublicKey) :
    (keyText id publicKey).length = keyEntryLength id := by
  have hquote : (asciiBytes "\"").length = 1 := rfl
  have hcolon : (asciiBytes "\":\"").length = 3 := rfl
  simp only [keyText, keyEntryLength, List.length_append, encode_length, length_pickleUInt32,
    FixedBytes.length_val, hquote, hcolon]
  omega

/-- **The two loops agree**, whatever comes before them: `isEmpty` says which
separator is next. -/
theorem oneTimeKeysJsonLengthLoop_eq (keys : List OneTimeKey) (length : ℕ) (isEmpty : Bool) :
    (if (oneTimeKeysJsonLengthLoop keys length isEmpty).2 then
        (oneTimeKeysJsonLengthLoop keys length isEmpty).1 + 1
      else (oneTimeKeysJsonLengthLoop keys length isEmpty).1) =
      length + (entriesText (if isEmpty then asciiBytes "\x7b" else asciiBytes ",")
        (keys.filter (fun key => !key.published))).length := by
  induction keys generalizing length isEmpty with
  | nil =>
    cases isEmpty with
    | true => rfl
    | false => rfl
  | cons key keys ih =>
    rw [oneTimeKeysJsonLengthLoop]
    cases hpublished : key.published with
    | true =>
      rw [if_pos rfl, List.filter_cons_of_neg (by rw [hpublished]; decide)]
      exact ih length isEmpty
    | false =>
      have hsep : (if isEmpty then asciiBytes "\x7b" else asciiBytes ",").length = 1 := by
        cases isEmpty with
        | true => rfl
        | false => rfl
      have hnot : ¬ false = true := nofun
      rw [if_neg hnot, List.filter_cons_of_pos (by rw [hpublished]; rfl), ih, if_neg hnot,
        entriesText, List.length_append, List.length_append, length_keyText, hsep, keyEntryLength]
      omega

theorem length_oneTimeKeysText (account : Account) :
    (oneTimeKeysText account.unpublishedOneTimeKeys).length = account.getOneTimeKeysJsonLength := by
  have hopen : (asciiBytes "\x7b").length = 1 := rfl
  have hclose : (asciiBytes "\x7d\x7d").length = 2 := rfl
  have hloop := oneTimeKeysJsonLengthLoop_eq account.oneTimeKeys.toList 0 true
  rw [if_pos rfl, Nat.zero_add] at hloop
  unfold getOneTimeKeysJsonLength
  simp only [hloop, oneTimeKeysText, unpublishedOneTimeKeys, List.length_append, hopen, hclose]
  omega

/-! ## What is written -/

theorem writes_nil : Writes (fun out => .ok out) [] := by
  intro out text room h _
  rw [List.append_nil, List.length_nil, List.drop_zero]
  exact ⟨out, rfl, h⟩

/-- The loop, and the separator that is left where it wrote nothing. -/
theorem writes_writeOneTimeKeys (keys : List OneTimeKey) (sep : Bytes) :
    Writes (fun out => do
      let (sep, out) ← writeOneTimeKeys keys sep out
      if sep ≠ asciiBytes "," then out.write sep else .ok out)
      (entriesText sep (keys.filter (fun key => !key.published))) := by
  induction keys generalizing sep with
  | nil =>
    simp only [writeOneTimeKeys, Checked.ok_bind, List.filter_nil, entriesText]
    split
    · exact writes_write sep
    · exact writes_nil
  | cons key keys ih =>
    cases hpublished : key.published with
    | true =>
      simp only [writeOneTimeKeys, hpublished, if_true]
      rw [List.filter_cons_of_neg (by rw [hpublished]; decide)]
      exact ih sep
    | false =>
      simp only [writeOneTimeKeys, hpublished, Bool.false_eq_true, if_false, bind_assoc]
      rw [List.filter_cons_of_pos (by rw [hpublished]; rfl), entriesText]
      exact (writes_write sep).andThen
        ((writes_writeKey key.id key.key.publicKey).andThen (ih (asciiBytes ",")))

/-- **What `get_one_time_keys_json` writes.** -/
theorem getOneTimeKeysJson_eq (account : Account) (json : Bytes) :
    account.getOneTimeKeysJson json =
      if json.length < (oneTimeKeysText account.unpublishedOneTimeKeys).length then
        .ok (account.fail .OUTPUT_BUFFER_TOO_SMALL)
      else .ok (account,
        some (oneTimeKeysText account.unpublishedOneTimeKeys ++
          json.drop (oneTimeKeysText account.unpublishedOneTimeKeys).length,
        (oneTimeKeysText account.unpublishedOneTimeKeys).length)) := by
  unfold getOneTimeKeysJson
  rw [← length_oneTimeKeysText]
  split
  · rfl
  · rename_i hroom
    have hwrites : Writes (fun out => do
        let out ← out.write (asciiBytes "\x7b")
        let out ← out.write KEY_JSON_CURVE25519
        let out ← (do
          let (sep, out) ← writeOneTimeKeys account.oneTimeKeys.toList (asciiBytes "\x7b") out
          if sep ≠ asciiBytes "," then out.write sep else .ok out)
        out.write (asciiBytes "\x7d\x7d")) (oneTimeKeysText account.unpublishedOneTimeKeys) :=
      (writes_write _).andThen ((writes_write _).andThen
        ((writes_writeOneTimeKeys account.oneTimeKeys.toList _).andThen (writes_write _)))
    obtain ⟨out, hrun, hbuf, hpos⟩ := hwrites { buf := json, pos := 0 } [] json ⟨rfl, rfl⟩
      (Nat.le_of_not_lt hroom)
    -- the getter ends by giving the buffer and the position
    have hall := congrArg
      (fun run => run >>= fun out => Except.ok (account, some (out.buf, out.pos))) hrun
    simp only [bind_assoc, Checked.ok_bind, hbuf, hpos] at hall
    exact hall

/-! ## What the text says -/

theorem keyText_eq (key : OneTimeKey) :
    keyText key.id key.key.publicKey =
      Json.quoted key.entry.1 ++ 0x3A :: Json.quoted (encode key.key.publicKey.val) := by
  have hquote : asciiBytes "\"" = [0x22] := rfl
  have hcolon : asciiBytes "\":\"" = [0x22, 0x3A, 0x22] := rfl
  rw [keyText, hquote, hcolon, Json.quoted_append]
  rfl

/-- The entries, from the first one on. -/
theorem parsesMembers_entriesText (key : OneTimeKey) (keys : List OneTimeKey) :
    Json.ParsesMembers (keyText key.id key.key.publicKey ++ entriesText (asciiBytes ",") keys)
      ((key :: keys).map OneTimeKey.entry) := by
  have hvalue (key : OneTimeKey) : Json.Parses (Json.quoted (encode key.key.publicKey.val))
      (.string (encode key.key.publicKey.val)) := Json.parses_string isPlain_of_mem_encode
  induction keys generalizing key with
  | nil =>
    have hend : entriesText (asciiBytes ",") [] = [] := if_neg fun h => h rfl
    rw [hend, List.append_nil, keyText_eq]
    exact Json.parsesMembers_singleton isPlain_of_mem_encode (hvalue key)
  | cons next keys ih =>
    have hcomma : asciiBytes "," = [0x2C] := rfl
    have hsplit : keyText key.id key.key.publicKey ++
        entriesText (asciiBytes ",") (next :: keys) =
        Json.quoted key.entry.1 ++ 0x3A :: (Json.quoted (encode key.key.publicKey.val) ++ 0x2C ::
          (keyText next.id next.key.publicKey ++ entriesText (asciiBytes ",") keys)) := by
      rw [keyText_eq key, entriesText, hcomma, List.append_assoc, List.cons_append,
        List.singleton_append]
    rw [hsplit]
    exact Json.parsesMembers_cons isPlain_of_mem_encode (hvalue key) (ih next)

/-- The inner object. -/
theorem parses_entriesText (keys : List OneTimeKey) :
    Json.Parses (entriesText (asciiBytes "\x7b") keys ++ [0x7D])
      (.object (keys.map OneTimeKey.entry)) := by
  cases keys with
  | nil => exact Json.parses_empty
  | cons key keys =>
    have hmembers := parsesMembers_entriesText key keys
    rw [keyText_eq, List.append_assoc] at hmembers
    have hobject := Json.parses_object hmembers
    rw [← List.append_assoc, ← keyText_eq] at hobject
    rw [entriesText]
    exact hobject

/-- **The text is the object.** -/
theorem parse_oneTimeKeysText (keys : List OneTimeKey) :
    Json.parse (oneTimeKeysText keys) = some (oneTimeKeysObject keys) := by
  have hname : ∀ b ∈ asciiBytes "curve25519", Json.IsPlain b := by decide +kernel
  have hkey : KEY_JSON_CURVE25519 = Json.quoted (asciiBytes "curve25519") ++ [0x3A] := by decide
  have htext : oneTimeKeysText keys =
      0x7B :: (Json.quoted (asciiBytes "curve25519") ++
        0x3A :: (entriesText (asciiBytes "\x7b") keys ++ [0x7D]) ++ [0x7D]) := by
    have hopen : asciiBytes "\x7b" = [0x7B] := rfl
    have hclose : asciiBytes "\x7d\x7d" = [0x7D] ++ [0x7D] := rfl
    rw [oneTimeKeysText, hkey, hclose]
    simp only [hopen, List.append_assoc, List.cons_append, List.nil_append]
  have hmembers := Json.parsesMembers_singleton hname (parses_entriesText keys)
  have hparses := Json.parses_object hmembers
  rw [htext]
  exact hparses.parse_eq

theorem lists_unpublishedOneTimeKeys (account : Account) :
    account.Lists account.unpublishedOneTimeKeys :=
  ⟨oneTimeKeysText account.unpublishedOneTimeKeys, length_oneTimeKeysText account,
    parse_oneTimeKeysText _, getOneTimeKeysJson_eq account⟩

/-- Once the keys are marked, none is left to publish. -/
theorem unpublishedOneTimeKeys_markKeysAsPublished (account : Account) :
    account.markKeysAsPublished.1.unpublishedOneTimeKeys = [] := by
  unfold unpublishedOneTimeKeys markKeysAsPublished
  rw [List.filter_eq_nil_iff]
  intro key hkey
  obtain ⟨old, -, rfl⟩ := List.mem_map.mp hkey
  exact Bool.false_ne_true

/-- **The one-time keys as JSON**: an entry for each key that is not
published, under names that differ, and none once they are marked as
published. -/
theorem lists_oneTimeKeys (account : Account)
    (h : (account.oneTimeKeys.toList.map (·.id)).Nodup) :
    account.Lists account.unpublishedOneTimeKeys ∧
    ((account.unpublishedOneTimeKeys.map OneTimeKey.entry).map Prod.fst).Nodup ∧
    account.markKeysAsPublished.2 = account.unpublishedOneTimeKeys.length ∧
    account.markKeysAsPublished.1.Lists [] := by
  refine ⟨lists_unpublishedOneTimeKeys account, ?_, rfl, ?_⟩
  · have hids : (account.unpublishedOneTimeKeys.map (·.id)).Nodup :=
      h.sublist (List.filter_sublist.map _)
    rw [List.map_map, List.Nodup, List.pairwise_map]
    rw [List.Nodup, List.pairwise_map] at hids
    exact hids.imp fun hne heq => hne (OneTimeKey.id_eq_of_entry heq)
  · have hlists := lists_unpublishedOneTimeKeys account.markKeysAsPublished.1
    rwa [unpublishedOneTimeKeys_markKeysAsPublished] at hlists

/-- An account with two keys, of which one was published before the other was
generated. -/
def withTwoKeys : Account :=
  { Account.new with
    oneTimeKeys := ⟨[
      { id := 2, published := false
        key := Curve25519.clamped.generateKey ⟨List.replicate 32 80, rfl⟩ },
      { id := 1, published := true
        key := Curve25519.clamped.generateKey ⟨List.replicate 32 72, rfl⟩ }], by decide⟩ }

theorem lists_oneTimeKeys_withTwoKeys :
    withTwoKeys.Lists withTwoKeys.unpublishedOneTimeKeys ∧
    ((withTwoKeys.unpublishedOneTimeKeys.map OneTimeKey.entry).map Prod.fst).Nodup ∧
    withTwoKeys.markKeysAsPublished.2 = withTwoKeys.unpublishedOneTimeKeys.length ∧
    withTwoKeys.markKeysAsPublished.1.Lists [] :=
  lists_oneTimeKeys withTwoKeys (by decide)

end Account

end Olm
