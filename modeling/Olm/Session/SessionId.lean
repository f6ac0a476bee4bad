import Olm.Symbolic

/-!
# Session ids

`session_id` stores the four keys of the set-up in a buffer on the stack
and hashes the buffer. The buffer has room for three keys, so the fourth
store leaves it: no call computes an id inside its buffer
(`not_identifiesKeys`), and where the memory behind the buffer takes the
store, the id does not depend on the prekey (`sessionId_append`).
-/

namespace Olm

variable {K : Type} (sha256 : Bytes → FixedBytes SHA256_OUTPUT_LENGTH)

/-- `store_array`: the memory, and the pointer behind what was stored. -/
def storeArray {n : ℕ} (buf : Bytes) (pos : ℕ) (source : FixedBytes n) : Checked (Bytes × ℕ) := do
  let buf ← writeAt buf pos source.val
  .ok (buf, pos + n)

theorem storeArray_append {n : ℕ} (pre post : Bytes) {old : Bytes} (source : FixedBytes n)
    (h : old.length = n) :
    storeArray (pre ++ (old ++ post)) pre.length source =
      .ok ((pre ++ source.val) ++ post, (pre ++ source.val).length) := by
  have hlen : source.val.length = old.length := by rw [FixedBytes.length_val, h]
  rw [storeArray, writeAt_append pre post hlen, Checked.ok_bind, List.length_append,
    FixedBytes.length_val, List.append_assoc]

theorem storeArray_of_lt {n pos : ℕ} {buf : Bytes} (source : FixedBytes n)
    (h : buf.length < pos + n) : storeArray buf pos source = .error .outOfBounds := by
  rw [storeArray, writeAt_of_lt (by rwa [FixedBytes.length_val]), Checked.error_bind]

namespace Session

/-- `session_id_length`. -/
def sessionIdLength : ℕ := SHA256_OUTPUT_LENGTH

/-- `sizeof(tmp)`. -/
abbrev SIZEOF_TMP : ℕ := CURVE25519_KEY_LENGTH * 3

/-- The keys of the set-up, in the order in which `session_id` stores them. -/
def setUpKeys (session : Session K) : Bytes :=
  session.aliceIdentityKey.val ++ session.aliceBaseKey.val ++ session.bobOneTimeKey.val ++
    session.bobPrekey.val

/-- `session_id`. `frame` is the stack from `tmp` on: `tmp` is its first
`SIZEOF_TMP` bytes, and all of it where nothing behind `tmp` may be
touched. -/
def sessionId (session : Session K) (frame : Bytes) (idLength : ℕ) :
    Checked (Session K × Option (FixedBytes SHA256_OUTPUT_LENGTH)) :=
  if idLength < sessionIdLength then session.fail .OUTPUT_BUFFER_TOO_SMALL
  else do
    let (frame, pos) ← storeArray frame 0 session.aliceIdentityKey
    let (frame, pos) ← storeArray frame pos session.aliceBaseKey
    let (frame, pos) ← storeArray frame pos session.bobOneTimeKey
    let (frame, _) ← storeArray frame pos session.bobPrekey
    .ok (session, some (sha256 (frame.take SIZEOF_TMP)))

/-- Every call with a large enough buffer computes this id, and touches
nothing behind `tmp`. -/
def ComputesId (session : Session K) (id : FixedBytes SHA256_OUTPUT_LENGTH) : Prop :=
  ∀ (tmp : FixedBytes SIZEOF_TMP) (idLength : ℕ), sessionIdLength ≤ idLength →
    session.sessionId sha256 tmp.val idLength = .ok (session, some id)

/-- The four keys are the same. -/
def SameKeys (session other : Session K) : Prop :=
  session.aliceIdentityKey = other.aliceIdentityKey ∧ session.aliceBaseKey = other.aliceBaseKey ∧
    session.bobOneTimeKey = other.bobOneTimeKey ∧ session.bobPrekey = other.bobPrekey

/-- The id stands for the four keys: it is the hash of all of them, computed
inside `tmp`, and another session has the same id just where it has the
same keys, as the other end of the conversation has. -/
structure IdentifiesKeys (session : Session K) : Prop where
  computes : session.ComputesId sha256 (sha256 session.setUpKeys)
  same_iff : ∀ other : Session K,
    (∃ id, session.ComputesId sha256 id ∧ other.ComputesId sha256 id) ↔ session.SameKeys other

variable {sha256}

/-- The keys that fill `tmp`. -/
def firstKeys (session : Session K) : Bytes :=
  session.aliceIdentityKey.val ++ session.aliceBaseKey.val ++ session.bobOneTimeKey.val

@[simp] theorem length_firstKeys (session : Session K) :
    session.firstKeys.length = SIZEOF_TMP := by
  simp only [firstKeys, List.length_append, FixedBytes.length_val]
  rfl

/-- The first three stores fill `tmp`. -/
theorem sessionId_eq (session : Session K) (tmp : FixedBytes SIZEOF_TMP) (behind : Bytes)
    {idLength : ℕ} (h : sessionIdLength ≤ idLength) :
    session.sessionId sha256 (tmp.val ++ behind) idLength =
      storeArray (session.firstKeys ++ behind) session.firstKeys.length session.bobPrekey >>=
        fun stored => .ok (session, some (sha256 (stored.1.take SIZEOF_TMP))) := by
  have htmpLength : tmp.val.length = CURVE25519_KEY_LENGTH + 64 := tmp.property
  obtain ⟨first, rest, htmp, hfirst, hrest⟩ := exists_cut htmpLength
  obtain ⟨second, third, rfl, hsecond, hthird⟩ :=
    exists_cut (by rw [hrest] : rest.length = CURVE25519_KEY_LENGTH + 32)
  have hfirstStore := storeArray_append [] (second ++ (third ++ behind)) session.aliceIdentityKey
    hfirst
  have hsecondStore := storeArray_append session.aliceIdentityKey.val (third ++ behind)
    session.aliceBaseKey hsecond
  have hthirdStore := storeArray_append (session.aliceIdentityKey.val ++ session.aliceBaseKey.val)
    behind session.bobOneTimeKey hthird
  rw [List.nil_append, List.length_nil, List.nil_append] at hfirstStore
  rw [sessionId, if_neg (by omega), htmp, List.append_assoc, List.append_assoc, hfirstStore]
  simp only [Checked.ok_bind, hsecondStore, hthirdStore]
  rfl

/-- The fourth store goes behind `tmp`. -/
theorem sessionId_append (session : Session K) (tmp : FixedBytes SIZEOF_TMP)
    (behind : FixedBytes CURVE25519_KEY_LENGTH) (rest : Bytes) :
    session.sessionId sha256 (tmp.val ++ (behind.val ++ rest)) sessionIdLength =
      .ok (session, some (sha256 session.firstKeys)) := by
  have hstore := storeArray_append session.firstKeys rest session.bobPrekey behind.property
  rw [sessionId_eq session tmp _ le_rfl, hstore, Checked.ok_bind, List.append_assoc,
    List.take_left' session.length_firstKeys]

/-- Inside `tmp` there is no room for it. -/
theorem sessionId_eq_error (session : Session K) (tmp : FixedBytes SIZEOF_TMP) {idLength : ℕ}
    (h : sessionIdLength ≤ idLength) :
    session.sessionId sha256 tmp.val idLength = .error .outOfBounds := by
  have hroom : session.firstKeys.length < session.firstKeys.length + CURVE25519_KEY_LENGTH :=
    Nat.lt_add_of_pos_right (by decide)
  rw [← List.append_nil tmp.val, sessionId_eq session tmp [] h, List.append_nil,
    storeArray_of_lt session.bobPrekey hroom, Checked.error_bind]

theorem not_computesId (session : Session K) (id : FixedBytes SHA256_OUTPUT_LENGTH) :
    ¬ session.ComputesId sha256 id := by
  intro h
  have hid := h (FixedBytes.zero _) sessionIdLength le_rfl
  rw [sessionId_eq_error session _ le_rfl] at hid
  cases hid

variable (sha256)

/-- **No session's id stands for its keys.** Every call leaves the buffer,
so no id is computed inside it, and a session has no id in common with
itself. Where the memory behind the buffer takes the fourth key, the hash
is of the first three: sessions that differ in their prekey only get the
same id. -/
theorem not_identifiesKeys (session : Session K) :
    ¬ session.IdentifiesKeys sha256 ∧
      (∀ (tmp : FixedBytes SIZEOF_TMP) (extra : ℕ),
        session.sessionId sha256 tmp.val (sessionIdLength + extra) = .error .outOfBounds) ∧
      (∀ other : Session K,
        ¬ ∃ id, session.ComputesId sha256 id ∧ other.ComputesId sha256 id) ∧
      ∀ (tmp : FixedBytes SIZEOF_TMP) (behind : FixedBytes CURVE25519_KEY_LENGTH) (rest : Bytes),
        session.sessionId sha256 (tmp.val ++ (behind.val ++ rest)) sessionIdLength =
          .ok (session, some (sha256 session.firstKeys)) := by
  refine ⟨fun h => not_computesId session _ h.computes, ?_, ?_, sessionId_append session⟩
  · intro tmp extra
    exact sessionId_eq_error session tmp (Nat.le_add_right _ _)
  · rintro other ⟨id, hid, -⟩
    exact not_computesId session id hid

/-- A new session, and a hash that keeps the first 32 bytes. -/
theorem not_identifiesKeys_new :
    ¬ (Session.new SymbolicKey.zero).IdentifiesKeys (Hashes.truncating.hmacSha256 []) :=
  fun h => not_computesId _ _ h.computes

end Session

end Olm
