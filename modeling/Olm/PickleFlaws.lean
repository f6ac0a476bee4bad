import Olm.Account.Pickle
import Olm.Group.Pickle
import Olm.Pk.Pickle
import Olm.Session.Canonical

/-!
# What is wrong with a pickle

The functions that unpickle an object stop at the first thing that is wrong:
the text, the key, the version, contents that end too early or contradict
themselves, or bytes that are left over. `PickleFlaw` is what it was, and
depends on the text and the key only.

The functions in C++ return null where the contents end too early, and their
callers then set `last_error` if it is `SUCCESS`. Nothing ever sets it back
to that, so an object that failed before keeps its old error
(`unpickles_nameFlaws`).
-/

namespace Olm

/-- What is wrong with a pickle, or with the buffer for the public key of a
decryption object. -/
inductive PickleFlaw where
  | noRoomForKey
  | notBase64
  | badKey
  | legacyVersion
  | unknownVersion
  | truncated
  | inconsistent
  | extraData
  deriving DecidableEq, Repr

namespace PickleFlaw

/-- The error that says so. -/
def code : PickleFlaw → OlmErrorCode
  | noRoomForKey => .OUTPUT_BUFFER_TOO_SMALL
  | notBase64 => .INVALID_BASE64
  | badKey => .BAD_ACCOUNT_KEY
  | legacyVersion => .BAD_LEGACY_ACCOUNT_PICKLE
  | unknownVersion => .UNKNOWN_PICKLE_VERSION
  | truncated => .CORRUPTED_PICKLE
  | inconsistent => .CORRUPTED_PICKLE
  | extraData => .PICKLE_EXTRA_DATA

/-- What `unpickle` of an object leaves in `last_error`: it sets it but where
the bytes run out. -/
def mark : PickleFlaw → OlmErrorCode → OlmErrorCode
  | truncated, lastError => lastError
  | flaw, _ => flaw.code

theorem mark_of_ne {flaw : PickleFlaw} (h : flaw ≠ .truncated) (lastError : OlmErrorCode) :
    flaw.mark lastError = flaw.code := by
  cases flaw with
  | truncated => exact absurd rfl h
  | _ => rfl

theorem code_ne_success (flaw : PickleFlaw) : flaw.code ≠ .SUCCESS := by
  cases flaw <;> decide

end PickleFlaw

/-! ## The contents of a pickle -/

/-- The next `n` bytes. -/
def scanBytes (n : ℕ) (input : Bytes) : Except PickleFlaw Bytes :=
  Unpickler.orError .truncated (Unpickler.skip n input)

/-- A version, and what follows it. -/
def scanVersion (scan : UInt32 → Bytes → Except PickleFlaw Bytes) (input : Bytes) :
    Except PickleFlaw Bytes :=
  if input.length < 4 then .error .truncated
  else scan (UInt32.ofNat (ofBigEndian (input.take 4))) (input.drop 4)

/-- How many of two slots of `n` bytes are in use, and these. -/
def scanSlots (n : ℕ) : Bytes → Except PickleFlaw Bytes
  | [] => .error .truncated
  | count :: input =>
    if count ≥ 1 then do
      let input ← scanBytes n input
      if count ≥ 2 then do
        let input ← scanBytes n input
        if count ≥ 3 then .error .inconsistent else .ok input
      else .ok input
    else .ok input

namespace Account

/-- The prekeys of an account. -/
def scanX3dh (version : UInt32) (input : Bytes) : Except PickleFlaw Bytes :=
  if version ≥ 10005 then scanSlots 133 input >>= scanBytes 12 else .ok input

/-- The fallback keys of an account. -/
def scanFallbackKeys (version : UInt32) (input : Bytes) : Except PickleFlaw Bytes :=
  if version ≤ 2 then .ok input
  else if version = 3 then scanBytes 138 input
  else scanSlots 69 input

/-- What follows the version of an account. -/
def scanBody (version : UInt32) (input : Bytes) : Except PickleFlaw Bytes := do
  let input ← scanBytes 160 input
  let input ← scanX3dh version input
  let input ← Unpickler.orError .truncated (skipList 69 input)
  let input ← scanFallbackKeys version input
  scanBytes 4 input

/-- An account. -/
def scan : Bytes → Except PickleFlaw Bytes := scanVersion fun version input =>
  if version = ACCOUNT_PICKLE_VERSION ∨ version = 4 ∨ version = 3 ∨ version = 2 then
    scanBody version input
  else if version = 1 then .error .legacyVersion
  else .error .unknownVersion

end Account

/-- A session. -/
def Session.scan : Bytes → Except PickleFlaw Bytes := scanVersion fun version input =>
  if version = 1 then Unpickler.orError .truncated (Unpickler.skip 161 input >>= skipLists)
  else if version = 0x80000001 then
    Unpickler.orError .truncated
      (Unpickler.skip 161 input >>= fun input => skipLists input >>= Unpickler.skip 4)
  else .error .unknownVersion

/-- A decryption object. -/
def OlmPkDecryption.scan : Bytes → Except PickleFlaw Bytes := scanVersion fun version input =>
  if version = 1 then scanBytes 64 input else .error .unknownVersion

/-- An outbound group session. -/
def OutboundGroupSession.scan : Bytes → Except PickleFlaw Bytes :=
  scanVersion fun version input =>
    if version ≠ 1 then .error .unknownVersion else scanBytes 228 input

/-- An inbound group session. -/
def InboundGroupSession.scan : Bytes → Except PickleFlaw Bytes :=
  scanVersion fun version input =>
    if version < 1 ∨ version > 2 then .error .unknownVersion
    else scanBytes (if version = 1 then 296 else 297) input

/-- What is wrong with contents of which so much is left. -/
def restFlaw : Except PickleFlaw Bytes → Option PickleFlaw
  | .error flaw => some flaw
  | .ok [] => none
  | .ok (_ :: _) => some .extraData

/-- What is wrong with the contents of a pickle. -/
def contentsFlaw (scan : Bytes → Except PickleFlaw Bytes) (raw : Bytes) : Option PickleFlaw :=
  restFlaw (scan raw)

variable (hashes : Hashes) (aes : Aes256)

/-- What is wrong with a pickle. -/
def pickleFlaw (scan : Bytes → Except PickleFlaw Bytes) (key pickled : Bytes) :
    Checked (Option PickleFlaw) :=
  if decodeBase64Length pickled.length = none then .ok (some .notBase64)
  else do
    match ← encInput hashes aes key pickled with
    | (_, .error _) => .ok (some .badKey)
    | (input, .ok rawLength) => .ok (contentsFlaw scan (input.take rawLength))

/-- If the call fails, then `last_error` names what is wrong. -/
def NamesFlaw {σ τ : Type} (lastError : σ → OlmErrorCode) (call : Checked (σ × Option τ))
    (flaw : Checked (Option PickleFlaw)) : Prop :=
  ∀ object, call = .ok (object, none) →
    ∃ reason, flaw = .ok (some reason) ∧ lastError object = reason.code

/-- What is wrong with the pickle of a decryption object, or with the buffer
for its public key. -/
def OlmPkDecryption.keyFlaw (key pickled : Bytes) (pubkey : Option Bytes) :
    Checked (Option PickleFlaw) :=
  if pubkey.any (fun pubkey => pubkey.length < pkKeyLength) then .ok (some .noRoomForKey)
  else pickleFlaw hashes aes scan key pickled

/-! ## The calls -/

section Object

variable {σ τ : Type} (lastError : σ → OlmErrorCode) (setError : σ → OlmErrorCode → σ)

/-- What an object in C++ makes of the contents of a pickle. `finish` is what
is left to do where nothing is wrong. -/
def unpickleContents (unpickle : Unpickler σ) (finish : σ → Checked (σ × Option τ)) (object : σ)
    (raw : Bytes) : Checked (σ × Option τ) :=
  match unpickle object raw with
  | (object, none) =>
    if lastError object = .SUCCESS then .ok (setError object .CORRUPTED_PICKLE, none)
    else .ok (object, none)
  | (object, some (_ :: _)) => .ok (setError object .PICKLE_EXTRA_DATA, none)
  | (object, some []) => finish object

/-- `olm_unpickle_account` and `olm_unpickle_session`, which differ in the
object. -/
def unpickleObject (unpickle : Unpickler σ) (object : σ) (key pickled : Bytes) :
    Checked (σ × Option ℕ) := do
  match ← encInput hashes aes key pickled with
  | (_, .error code) => .ok (setError object code, none)
  | (input, .ok rawLength) =>
    unpickleContents lastError setError unpickle (fun object => .ok (object, some pickled.length))
      object (input.take rawLength)

end Object

/-- What every call that unpickles does: the text is decrypted, and the rest
is up to the contents. -/
def unpickleText {σ τ : Type} (setError : OlmErrorCode → σ)
    (contents : Bytes → Checked (σ × Option τ)) (key pickled : Bytes) :
    Checked (σ × Option τ) := do
  match ← encInput hashes aes key pickled with
  | (_, .error code) => .ok (setError code, none)
  | (input, .ok rawLength) => contents (input.take rawLength)

/-- `olm_unpickle_account`. `stale` is what the memory of the one-time keys
held. -/
def Account.olmUnpickleAccount (account : Account) (stale : ℕ → OneTimeKey) (key pickled : Bytes) :
    Checked (Account × Option ℕ) :=
  unpickleObject hashes aes (·.lastError) (fun account code => { account with lastError := code })
    (unpickle stale) account key pickled

/-- `olm_unpickle_session`. `stale` is what the memory of the lists held. -/
def Session.olmUnpickleSession (session : Session SharedKey) (stale : Ratchet.Stale)
    (key pickled : Bytes) : Checked (Session SharedKey × Option ℕ) :=
  unpickleObject hashes aes (·.lastError) (fun session code => { session with lastError := code })
    (unpickle stale) session key pickled

/-! ## What the calls report -/

section Object

variable {hashes aes} {σ : Type} {lastError : σ → OlmErrorCode} {setError : σ → OlmErrorCode → σ}
  {unpickle : Unpickler σ} {scan : Bytes → Except PickleFlaw Bytes} {key pickled : Bytes}

theorem namesFlaw_some {τ : Type} (object : σ) (result : τ) (flaw : Checked (Option PickleFlaw)) :
    NamesFlaw lastError (.ok (object, some result)) flaw := by
  intro object' h
  cases h

theorem namesFlaw_none {τ : Type} {object : σ} {reason : PickleFlaw} :
    NamesFlaw lastError (.ok (object, (none : Option τ))) (.ok (some reason)) ↔
      lastError object = reason.code := by
  constructor
  · intro h
    obtain ⟨reason', hreason, hcode⟩ := h object rfl
    cases hreason
    exact hcode
  · intro h object' hcall
    cases hcall
    exact ⟨reason, rfl, h⟩

theorem pickleFlaw_of_encInput {buf : Bytes} {rawLength : ℕ}
    (h : encInput hashes aes key pickled = .ok (buf, .ok rawLength)) :
    pickleFlaw hashes aes scan key pickled = .ok (contentsFlaw scan (buf.take rawLength)) := by
  have hsome : ¬decodeBase64Length pickled.length = none := by
    intro hnone
    rw [encInput, hnone] at h
    cases h
  rw [pickleFlaw, if_neg hsome, h]
  rfl

/-- The two ways in which a pickle is refused before its contents. -/
theorem code_of_encInput {buf : Bytes} {code : OlmErrorCode}
    (h : encInput hashes aes key pickled = .ok (buf, .error code)) :
    ∃ reason : PickleFlaw, pickleFlaw hashes aes scan key pickled = .ok (some reason) ∧
      reason ≠ .truncated ∧ code = reason.code := by
  unfold pickleFlaw
  rw [h]
  unfold encInput at h
  split at h
  · rename_i hnone
    cases h
    exact ⟨.notBase64, if_pos hnone, by decide, rfl⟩
  · rename_i encLength hsome
    rw [if_neg (by rw [hsome]; exact Option.some_ne_none _)]
    obtain ⟨_, -, h⟩ := Checked.bind_eq_ok.mp h
    obtain ⟨⟨input, result⟩, -, h⟩ := Checked.bind_eq_ok.mp h
    cases result with
    | some result => cases h
    | none =>
      cases h
      exact ⟨.badKey, rfl, by decide, rfl⟩

/-- Contents end too early. -/
theorem pickleFlaw_eq_truncated :
    pickleFlaw hashes aes scan key pickled = .ok (some .truncated) ↔
      ∃ buf rawLength, encInput hashes aes key pickled = .ok (buf, .ok rawLength) ∧
        contentsFlaw scan (buf.take rawLength) = some .truncated := by
  constructor
  · intro h
    cases hinput : encInput hashes aes key pickled with
    | error fault =>
      rw [pickleFlaw, hinput] at h
      split at h
      · cases h
      · cases h
    | ok result =>
      obtain ⟨buf, code | rawLength⟩ := result
      · obtain ⟨reason, hflaw, hne, -⟩ := code_of_encInput hinput
        rw [hflaw] at h
        cases h
        exact absurd rfl hne
      · rw [pickleFlaw_of_encInput hinput] at h
        exact ⟨buf, rawLength, rfl, Except.ok.inj h⟩
  · rintro ⟨buf, rawLength, hinput, hflaw⟩
    rw [pickleFlaw_of_encInput hinput, hflaw]

/-- What is wrong with the text or the key is reported by every call. -/
theorem namesFlaw_iff {τ : Type} {setError : OlmErrorCode → σ}
    (contents : Bytes → Checked (σ × Option τ)) (hset : ∀ code, lastError (setError code) = code) :
    NamesFlaw lastError (unpickleText hashes aes setError contents key pickled)
        (pickleFlaw hashes aes scan key pickled) ↔
      ∀ buf rawLength, encInput hashes aes key pickled = .ok (buf, .ok rawLength) →
        NamesFlaw lastError (contents (buf.take rawLength))
          (.ok (contentsFlaw scan (buf.take rawLength))) := by
  unfold unpickleText
  cases hinput : encInput hashes aes key pickled with
  | error fault => exact iff_of_true (fun _ h => nomatch h) fun _ _ h => nomatch h
  | ok result =>
    obtain ⟨buf, code | rawLength⟩ := result
    · obtain ⟨reason, hflaw, -, rfl⟩ : ∃ reason : PickleFlaw,
          pickleFlaw hashes aes scan key pickled = .ok (some reason) ∧ _ := code_of_encInput hinput
      rw [hflaw]
      exact iff_of_true (namesFlaw_none.mpr (hset _)) fun _ _ h => nomatch h
    · rw [pickleFlaw_of_encInput hinput]
      constructor
      · intro h buf' rawLength' hsame
        cases hsame
        exact h
      · intro h
        exact h buf rawLength rfl

/-- What is left of the contents, and what `last_error` is if they are
wrong. -/
theorem unpickle_of_scan (hscan : unpickle.Scans lastError PickleFlaw.mark scan) (object : σ)
    (raw : Bytes) :
    (∃ object', unpickle object raw = (object', some []) ∧ contentsFlaw scan raw = none) ∨
    (∃ object' b rest, unpickle object raw = (object', some (b :: rest)) ∧
      contentsFlaw scan raw = some .extraData) ∨
    ∃ object' reason, unpickle object raw = (object', none) ∧
      contentsFlaw scan raw = some reason ∧
      lastError object' = reason.mark (lastError object) := by
  have h := hscan object raw
  unfold contentsFlaw
  cases hraw : scan raw with
  | error reason =>
    rw [hraw] at h
    exact .inr (.inr ⟨_, reason, Prod.ext rfl h.1, rfl, h.2⟩)
  | ok rest =>
    rw [hraw] at h
    cases rest with
    | nil => exact .inl ⟨_, Prod.ext rfl h.1, rfl⟩
    | cons b rest => exact .inr (.inl ⟨_, b, rest, Prod.ext rfl h.1, rfl⟩)

/-- The contents: an object that failed before hides that they end too
early. -/
theorem namesFlaw_unpickleContents_iff {τ : Type} {finish : σ → Checked (σ × Option τ)}
    (hset : ∀ object code, lastError (setError object code) = code)
    (hfinish : ∀ object object', finish object ≠ .ok (object', none))
    (hscan : unpickle.Scans lastError PickleFlaw.mark scan) (object : σ) (raw : Bytes) :
    NamesFlaw lastError (unpickleContents lastError setError unpickle finish object raw)
        (.ok (contentsFlaw scan raw)) ↔
      (contentsFlaw scan raw = some .truncated →
        lastError object = .SUCCESS ∨ lastError object = .CORRUPTED_PICKLE) := by
  unfold unpickleContents
  rcases unpickle_of_scan hscan object raw with ⟨object', hread, hflaw⟩ |
    ⟨object', b, rest, hread, hflaw⟩ | ⟨object', reason, hread, hflaw, hmark⟩
  · rw [hread, hflaw]
    exact iff_of_true (fun object'' h => absurd h (hfinish object' object'')) fun h => nomatch h
  · rw [hread, hflaw]
    exact iff_of_true (namesFlaw_none.mpr (hset object' _)) fun h => nomatch h
  · rw [hread, hflaw]
    dsimp only
    by_cases htruncated : reason = .truncated
    · subst htruncated
      have hold : lastError object' = lastError object := hmark
      rw [← hold]
      split
      · rename_i hsuccess
        exact iff_of_true (namesFlaw_none.mpr (hset object' _)) fun _ => .inl hsuccess
      · rename_i hfailed
        rw [namesFlaw_none]
        constructor
        · intro hcorrupted _
          exact .inr hcorrupted
        · intro h
          exact (h rfl).resolve_left hfailed
    · rw [PickleFlaw.mark_of_ne htruncated] at hmark
      rw [if_neg (by rw [hmark]; exact reason.code_ne_success)]
      exact iff_of_true (namesFlaw_none.mpr hmark) fun h => absurd (Option.some.inj h) htruncated

/-- **When an object in C++ reports what is wrong**: always, but where the
contents end too early, if it has another error from before. -/
theorem namesFlaw_object_iff {τ : Type} {call : Checked (σ × Option τ)} {object : σ}
    (setError : σ → OlmErrorCode → σ) (finish : σ → Checked (σ × Option τ))
    (hcall : call = unpickleText hashes aes (setError object)
      (unpickleContents lastError setError unpickle finish object) key pickled)
    (hset : ∀ object code, lastError (setError object code) = code)
    (hfinish : ∀ object object', finish object ≠ .ok (object', none))
    (hscan : unpickle.Scans lastError PickleFlaw.mark scan) :
    NamesFlaw lastError call (pickleFlaw hashes aes scan key pickled) ↔
      (pickleFlaw hashes aes scan key pickled = .ok (some .truncated) →
        lastError object = .SUCCESS ∨ lastError object = .CORRUPTED_PICKLE) := by
  rw [hcall, namesFlaw_iff _ (hset object), pickleFlaw_eq_truncated]
  constructor
  · rintro h ⟨buf, rawLength, hinput, hflaw⟩
    exact (namesFlaw_unpickleContents_iff hset hfinish hscan object _).mp
      (h buf rawLength hinput) hflaw
  · intro h buf rawLength hinput
    exact (namesFlaw_unpickleContents_iff hset hfinish hscan object _).mpr
      fun hflaw => h ⟨buf, rawLength, hinput, hflaw⟩

end Object

/-! ## Each object -/

section Scans

variable {σ : Type} {lastError : σ → OlmErrorCode}

/-- An object that is unpickled after its version. -/
theorem scans_version {unpickle : Unpickler σ} {body : UInt32 → Unpickler σ}
    {scan : UInt32 → Bytes → Except PickleFlaw Bytes}
    (heq : ∀ s input, unpickle s input = match unpickleUInt32 0 input with
      | (_, none) => (s, none)
      | (version, some input) => body version s input)
    (hbody : ∀ version, (body version).Scans lastError PickleFlaw.mark (scan version)) :
    unpickle.Scans lastError PickleFlaw.mark (scanVersion scan) := by
  intro s input
  rw [heq]
  unfold unpickleUInt32 scanVersion
  by_cases hlen : input.length < 4
  · rw [if_pos hlen, if_pos hlen]
    exact ⟨rfl, rfl⟩
  · rw [if_neg hlen, if_neg hlen]
    exact hbody _ s _

end Scans

theorem OlmPkDecryption.scans_unpickle :
    unpickle.Scans (·.lastError) PickleFlaw.mark OlmPkDecryption.scan := by
  refine scans_version (fun _ _ => rfl) fun version => .ite ?_ fun _ _ => ⟨rfl, rfl⟩
  exact (consumes_unpickleCurve25519KeyPair.field _).scans (fun _ => rfl) fun _ =>
    .field _ fun _ _ h => h

theorem Session.scans_unpickleBody {stale : Ratchet.Stale} {includesChainIndex : Bool}
    {left : Bytes → Option Bytes}
    (h : (Ratchet.unpickle stale includesChainIndex).Consumes fun input =>
      Unpickler.skip OLM_SHARED_KEY_LENGTH input >>= left) :
    (unpickleBody stale includesChainIndex).Scans (·.lastError) PickleFlaw.mark fun input =>
      Unpickler.orError .truncated (Unpickler.skip 161 input >>= left) := by
  refine (consumes_unpickleBody h).scans (fun _ => rfl) fun _ => ?_
  exact .andThen (.field _ fun _ _ h => h) (.andThen (.field _ fun _ _ h => h)
    (.andThen (.field _ fun _ _ h => h) (.andThen (.field _ fun _ _ h => h)
    (.andThen (.field _ fun _ _ h => h) (.field _ fun _ _ h => h)))))

theorem Session.scans_unpickle (stale : Ratchet.Stale) :
    (unpickle stale).Scans (·.lastError) PickleFlaw.mark Session.scan :=
  scans_version (fun _ _ => rfl) fun _ =>
    .ite (scans_unpickleBody (Ratchet.consumes_unpickle stale))
      (.ite (scans_unpickleBody (Ratchet.consumes_unpickle_chainIndex stale)) fun _ _ => ⟨rfl, rfl⟩)

namespace Account

theorem consumes_unpickleIdentityKeys : unpickleIdentityKeys.Consumes (Unpickler.skip 160) :=
  (Unpickler.Consumes.field _ consumes_unpickleEd25519KeyPair).andThen_skip
    (.field _ consumes_unpickleCurve25519KeyPair)

theorem consumes_unpicklePreKey : unpicklePreKey.Consumes (Unpickler.skip 133) :=
  (Unpickler.Consumes.field _ consumes_unpickleUInt32).andThen_skip
    ((Unpickler.Consumes.field _ consumes_unpickleBool).andThen_skip
    ((Unpickler.Consumes.field _ consumes_unpickleCurve25519KeyPair).andThen_skip
    (.field _ (consumes_unpickleBytes _))))

theorem consumes_unpickleOneTimeKey : unpickleOneTimeKey.Consumes (Unpickler.skip 69) :=
  (Unpickler.Consumes.field _ consumes_unpickleUInt32).andThen_skip
    ((Unpickler.Consumes.field _ consumes_unpickleBool).andThen_skip
    (.field _ consumes_unpickleCurve25519KeyPair))

/-- A field of an account whose reader can only run out of bytes. -/
theorem scans_field {α : Type} {get : Account → α} {set : Account → α → Account} {u : Unpickler α}
    {left : Bytes → Option Bytes} (h : u.Consumes left)
    (hset : ∀ s a, (set s a).lastError = s.lastError) :
    (Unpickler.field get set u).Scans (·.lastError) PickleFlaw.mark fun input =>
      Unpickler.orError .truncated (left input) :=
  (h.field set).scans (fun _ => rfl) fun _ => .field _ fun s a h => (hset s a).trans h

theorem scans_corrupted (P : Account → Prop) :
    corrupted.ScansWhere P (·.lastError) PickleFlaw.mark fun _ => .error .inconsistent :=
  fun _ _ _ => ⟨rfl, rfl⟩

/-- Two slots behind their count. -/
theorem scans_slots {α : Type} {count : Account → UInt8} {setCount : Account → UInt8 → Account}
    {current prev : Account → α} {setCurrent setPrev : Account → α → Account} {u : Unpickler α}
    {n : ℕ} (hu : u.Consumes (Unpickler.skip n)) (hcount : ∀ s a, count (setCount s a) = a)
    (hcurrent : ∀ s a, count (setCurrent s a) = count s)
    (hprev : ∀ s a, count (setPrev s a) = count s)
    (hcount' : ∀ s a, (setCount s a).lastError = s.lastError)
    (hcurrent' : ∀ s a, (setCurrent s a).lastError = s.lastError)
    (hprev' : ∀ s a, (setPrev s a).lastError = s.lastError) :
    ((Unpickler.field count setCount unpickleUInt8).andThen
      (.onlyIf (fun s => count s ≥ 1) ((Unpickler.field current setCurrent u).andThen
      (.onlyIf (fun s => count s ≥ 2) ((Unpickler.field prev setPrev u).andThen
      (.onlyIf (fun s => count s ≥ 3) corrupted)))))).Scans
        (·.lastError) PickleFlaw.mark (scanSlots n) := by
  intro s input
  cases input with
  | nil => exact ⟨rfl, hcount' s _⟩
  | cons a rest =>
    -- the count stays what was read
    have hthird : (Unpickler.onlyIf (fun s => count s ≥ 3) corrupted).ScansWhere
        (fun s => count s = a) (·.lastError) PickleFlaw.mark fun input =>
          if a ≥ 3 then .error .inconsistent else .ok input :=
      (scans_corrupted _).onlyIf fun s hs => by rw [hs]
    have hsecond : (Unpickler.onlyIf (fun s => count s ≥ 2) ((Unpickler.field prev setPrev u).andThen
        (.onlyIf (fun s => count s ≥ 3) corrupted))).ScansWhere
        (fun s => count s = a) (·.lastError) PickleFlaw.mark fun input =>
          if a ≥ 2 then scanBytes n input >>= fun input =>
            if a ≥ 3 then .error .inconsistent else .ok input
          else .ok input :=
      (((scans_field hu hprev').scansWhere _).andThen
        (.field _ fun s a h => (hprev s a).trans h) hthird).onlyIf fun s hs => by rw [hs]
    have hfirst : (Unpickler.onlyIf (fun s => count s ≥ 1)
        ((Unpickler.field current setCurrent u).andThen
        (.onlyIf (fun s => count s ≥ 2) ((Unpickler.field prev setPrev u).andThen
        (.onlyIf (fun s => count s ≥ 3) corrupted))))).ScansWhere
        (fun s => count s = a) (·.lastError) PickleFlaw.mark fun input =>
          if a ≥ 1 then scanBytes n input >>= fun input =>
            if a ≥ 2 then scanBytes n input >>= fun input =>
              if a ≥ 3 then .error .inconsistent else .ok input
            else .ok input
          else .ok input :=
      (((scans_field hu hcurrent').scansWhere _).andThen
        (.field _ fun s a h => (hcurrent s a).trans h) hsecond).onlyIf fun s hs => by rw [hs]
    exact (hfirst (setCount s a) rest (hcount s a)).congr (hcount' s a)

theorem scans_unpicklePrekeys :
    unpicklePrekeys.Scans (·.lastError) PickleFlaw.mark (scanSlots 133) :=
  scans_slots consumes_unpicklePreKey (fun _ _ => rfl) (fun _ _ => rfl) (fun _ _ => rfl)
    (fun _ _ => rfl) (fun _ _ => rfl) fun _ _ => rfl

theorem scans_unpickleX3dh :
    unpickleX3dh.Scans (·.lastError) PickleFlaw.mark fun input =>
      scanSlots 133 input >>= scanBytes 12 := by
  refine scans_unpicklePrekeys.andThen ?_
  exact ((Unpickler.Consumes.field _ consumes_unpickleUInt32).andThen_skip
    (.field _ consumes_unpickleUInt64)).scans (fun _ => rfl) fun _ =>
    .andThen (.field _ fun _ _ h => h) (.field _ fun _ _ h => h)

theorem scans_unpickleFallbackKeys (version : UInt32) :
    (unpickleFallbackKeys version).Scans (·.lastError) PickleFlaw.mark
      (scanFallbackKeys version) := by
  unfold unpickleFallbackKeys scanFallbackKeys
  split
  · intro _ _
    exact ⟨rfl, rfl⟩
  · split
    · -- the number of keys is set at the end, and nothing more is read
      have hlast {f : Account → Account} :
          (unpicklePrevFallbackKey.andThen fun s input => (f s, some input)).Consumes
            (Unpickler.skip 69) := by
        have hset : Unpickler.Consumes (fun s input => (f s, some input)) some := fun _ _ => rfl
        have hprev : unpicklePrevFallbackKey.Consumes (Unpickler.skip 69) :=
          .field _ consumes_unpickleOneTimeKey
        intro s input
        exact (hprev.andThen hset s input).trans (bind_pure _)
      have hcurrent : unpickleCurrentFallbackKey.Consumes (Unpickler.skip 69) :=
        .field _ consumes_unpickleOneTimeKey
      exact (hcurrent.andThen_skip hlast).scans (fun _ => rfl) fun _ =>
        .andThen (.field _ fun _ _ h => h) (.andThen (.field _ fun _ _ h => h) fun _ _ h => h)
    · exact scans_slots consumes_unpickleOneTimeKey (fun _ _ => rfl) (fun _ _ => rfl)
        (fun _ _ => rfl) (fun _ _ => rfl) (fun _ _ => rfl) fun _ _ => rfl

theorem scans_unpickleBody (stale : ℕ → OneTimeKey) (version : UInt32) :
    (unpickleBody stale version).Scans (·.lastError) PickleFlaw.mark (scanBody version) := by
  have hlist := consumes_unpickleList (n := 100) consumes_unpickleOneTimeKey (by decide) stale
  unfold scanBody
  refine Unpickler.Scans.andThen (scans_field consumes_unpickleIdentityKeys ?_)
    (.andThen scans_unpickleX3dh.onlyIf (.andThen (scans_field hlist ?_)
    (.andThen (scans_unpickleFallbackKeys version) (scans_field consumes_unpickleUInt32 ?_))))
  · intro _ _
    exact rfl
  · intro _ _
    exact rfl
  · intro _ _
    exact rfl

theorem scans_unpickle (stale : ℕ → OneTimeKey) :
    (unpickle stale).Scans (·.lastError) PickleFlaw.mark scan :=
  scans_version (fun _ _ => rfl) fun version =>
    .ite (scans_unpickleBody stale version) (.ite (fun _ _ => ⟨rfl, rfl⟩) fun _ _ => ⟨rfl, rfl⟩)

end Account

/-! ## Every object -/

variable {hashes aes}

theorem Account.namesFlaw_iff (account : Account) (stale : ℕ → OneTimeKey) (key pickled : Bytes) :
    NamesFlaw (·.lastError) (account.olmUnpickleAccount hashes aes stale key pickled)
        (pickleFlaw hashes aes scan key pickled) ↔
      (pickleFlaw hashes aes scan key pickled = .ok (some .truncated) →
        account.lastError = .SUCCESS ∨ account.lastError = .CORRUPTED_PICKLE) :=
  namesFlaw_object_iff (fun account code => { account with lastError := code })
    (fun account => .ok (account, some pickled.length)) rfl (fun _ _ => rfl)
    (fun _ _ h => nomatch h) (scans_unpickle stale)

theorem Session.namesFlaw_iff (session : Session SharedKey) (stale : Ratchet.Stale)
    (key pickled : Bytes) :
    NamesFlaw (·.lastError) (session.olmUnpickleSession hashes aes stale key pickled)
        (pickleFlaw hashes aes scan key pickled) ↔
      (pickleFlaw hashes aes scan key pickled = .ok (some .truncated) →
        session.lastError = .SUCCESS ∨ session.lastError = .CORRUPTED_PICKLE) :=
  namesFlaw_object_iff (fun session code => { session with lastError := code })
    (fun session => .ok (session, some pickled.length)) rfl (fun _ _ => rfl)
    (fun _ _ h => nomatch h) (scans_unpickle stale)

/-- The end of `olm_unpickle_pk_decryption`. -/
def OlmPkDecryption.finishUnpickle (pickled : Bytes) (pubkey : Option Bytes)
    (decryption : OlmPkDecryption) : Checked (OlmPkDecryption × Option (Option Bytes × ℕ)) :=
  match pubkey with
  | none => .ok (decryption, some (none, pickled.length))
  | some pubkey => do
    let (pubkey, _) ← encodeBase64 (.object decryption.keyPair.publicKey.val)
      CURVE25519_KEY_LENGTH pubkey 0
    .ok (decryption, some (some pubkey, pickled.length))

/-- It unpickles like the other objects in C++, where there is room for the
public key. -/
theorem OlmPkDecryption.unpicklePkDecryption_eq {pubkey : Option Bytes}
    (h : ¬pubkey.any (fun pubkey => pubkey.length < pkKeyLength)) (decryption : OlmPkDecryption)
    (key pickled : Bytes) :
    decryption.unpicklePkDecryption hashes aes key pickled pubkey =
      unpickleText hashes aes (fun code => { decryption with lastError := code })
        (unpickleContents (·.lastError) (fun decryption code => { decryption with lastError := code })
          unpickle (finishUnpickle pickled pubkey) decryption) key pickled := by
  unfold unpicklePkDecryption
  rw [if_neg h]
  refine congrArg (encInput hashes aes key pickled >>= ·) (funext fun result => ?_)
  obtain ⟨input, code | rawLength⟩ := result
  · rfl
  · dsimp only
    unfold unpickleContents
    rcases unpickle decryption (input.take rawLength) with ⟨decryption, _ | _ | ⟨b, rest⟩⟩
    · rfl
    · rfl
    · rfl

theorem OlmPkDecryption.finishUnpickle_ne_none (pickled : Bytes) (pubkey : Option Bytes)
    (decryption object' : OlmPkDecryption) :
    finishUnpickle pickled pubkey decryption ≠ .ok (object', none) := by
  intro h
  cases pubkey with
  | none => cases h
  | some pubkey =>
    obtain ⟨_, -, h⟩ := Checked.bind_eq_ok.mp h
    cases h

theorem OlmPkDecryption.namesFlaw_iff (decryption : OlmPkDecryption) (key pickled : Bytes)
    (pubkey : Option Bytes) :
    NamesFlaw (·.lastError) (decryption.unpicklePkDecryption hashes aes key pickled pubkey)
        (keyFlaw hashes aes key pickled pubkey) ↔
      (keyFlaw hashes aes key pickled pubkey = .ok (some .truncated) →
        decryption.lastError = .SUCCESS ∨ decryption.lastError = .CORRUPTED_PICKLE) := by
  unfold keyFlaw
  split
  · rename_i hroom
    unfold unpicklePkDecryption
    rw [if_pos hroom]
    exact iff_of_true (namesFlaw_none.mpr rfl) fun h => nomatch h
  · rename_i hroom
    exact namesFlaw_object_iff (fun decryption code => { decryption with lastError := code })
      (finishUnpickle pickled pubkey) (unpicklePkDecryption_eq hroom decryption key pickled)
      (fun _ _ => rfl) (finishUnpickle_ne_none pickled pubkey) scans_unpickle

/-- What is wrong with contents that begin with a version. -/
theorem contentsFlaw_scanVersion (scan : UInt32 → Bytes → Except PickleFlaw Bytes) (raw : Bytes) :
    contentsFlaw (scanVersion scan) raw =
      match unpickleUInt32 0 raw with
      | (_, none) => some .truncated
      | (version, some input) => restFlaw (scan version input) := by
  unfold contentsFlaw scanVersion unpickleUInt32
  by_cases hlen : raw.length < 4
  · rw [if_pos hlen, if_pos hlen]
    rfl
  · rw [if_neg hlen, if_neg hlen]

theorem unpickleGroupSession_eq {σ : Type} (setError : σ → OlmErrorCode → σ)
    (unknown : UInt32 → Prop) [DecidablePred unknown] (unpickleFields : UInt32 → Unpickler σ)
    (session : σ) (key pickled : Bytes) :
    unpickleGroupSession hashes aes setError unknown unpickleFields session key pickled =
      unpickleText hashes aes (setError session)
        (unpickleGroupContents setError unknown unpickleFields session pickled.length) key pickled :=
  rfl

/-- **A group session always reports what is wrong.** -/
theorem namesFlaw_unpickleGroupSession {σ : Type} {lastError : σ → OlmErrorCode}
    {setError : σ → OlmErrorCode → σ} {unknown : UInt32 → Prop} [DecidablePred unknown]
    {unpickleFields : UInt32 → Unpickler σ} {n : UInt32 → ℕ}
    (hset : ∀ object code, lastError (setError object code) = code)
    (hfields : ∀ version, (unpickleFields version).Consumes (Unpickler.skip (n version)))
    (session : σ) (key pickled : Bytes) :
    NamesFlaw lastError
      (unpickleGroupSession hashes aes setError unknown unpickleFields session key pickled)
      (pickleFlaw hashes aes (scanVersion fun version input =>
        if unknown version then .error .unknownVersion else scanBytes (n version) input)
        key pickled) := by
  rw [unpickleGroupSession_eq, namesFlaw_iff _ (hset session)]
  intro buf rawLength _
  rw [unpickleGroupContents, contentsFlaw_scanVersion]
  rcases unpickleUInt32 0 (buf.take rawLength) with ⟨version, _ | input⟩
  · exact namesFlaw_none.mpr (hset session _)
  · dsimp only
    by_cases hunknown : unknown version
    · rw [if_pos hunknown, if_pos hunknown]
      exact namesFlaw_none.mpr (hset session _)
    · rw [if_neg hunknown, if_neg hunknown, scanBytes, ← hfields version session input]
      rcases unpickleFields version session input with ⟨session', _ | _ | ⟨b, rest⟩⟩
      · exact namesFlaw_none.mpr (hset session' _)
      · exact namesFlaw_some _ _ _
      · exact namesFlaw_none.mpr (hset session' _)

theorem Megolm.consumes_unpickle : Megolm.unpickle.Consumes (Unpickler.skip 132) :=
  (Unpickler.Consumes.field _ (consumes_unpickleBytes _)).andThen_skip
    (.field _ consumes_unpickleUInt32)

theorem OutboundGroupSession.consumes_unpickleFields :
    unpickleFields.Consumes (Unpickler.skip 228) :=
  (Unpickler.Consumes.field _ Megolm.consumes_unpickle).andThen_skip
    (.field _ consumes_unpickleEd25519KeyPair)

theorem InboundGroupSession.consumes_unpickleFields (version : UInt32) :
    (unpickleFields version).Consumes (Unpickler.skip (if version = 1 then 296 else 297)) := by
  unfold unpickleFields
  split
  · have hset : Unpickler.Consumes
        (fun (s : InboundGroupSession) input => ({ s with signingKeyVerified := true }, some input))
        (Unpickler.skip 0) := fun _ _ => rfl
    exact (Unpickler.Consumes.field _ Megolm.consumes_unpickle).andThen_skip
      ((Unpickler.Consumes.field _ Megolm.consumes_unpickle).andThen_skip
      ((Unpickler.Consumes.field _ (consumes_unpickleBytes _)).andThen_skip hset))
  · exact (Unpickler.Consumes.field _ Megolm.consumes_unpickle).andThen_skip
      ((Unpickler.Consumes.field _ Megolm.consumes_unpickle).andThen_skip
      ((Unpickler.Consumes.field _ (consumes_unpickleBytes _)).andThen_skip
      (.field _ consumes_unpickleBool)))

theorem OutboundGroupSession.namesFlaw (session : OutboundGroupSession) (key pickled : Bytes) :
    NamesFlaw (·.lastError) (session.unpickleOutboundGroupSession hashes aes key pickled)
      (pickleFlaw hashes aes scan key pickled) :=
  namesFlaw_unpickleGroupSession (fun _ _ => rfl) (fun _ => consumes_unpickleFields) session key
    pickled

theorem InboundGroupSession.namesFlaw (session : InboundGroupSession) (key pickled : Bytes) :
    NamesFlaw (·.lastError) (session.unpickleInboundGroupSession hashes aes key pickled)
      (pickleFlaw hashes aes scan key pickled) :=
  namesFlaw_unpickleGroupSession (fun _ _ => rfl) consumes_unpickleFields session key pickled

/-- Every call that unpickles an object, whatever it went through: it names
what is wrong with the pickle, but where the contents of one in C++ end too
early and `last_error` is not as it was at first. -/
structure UnpicklesNameFlaws (hashes : Hashes) (aes : Aes256) : Prop where
  account : ∀ (account : Account) stale key pickled,
    NamesFlaw (·.lastError) (account.olmUnpickleAccount hashes aes stale key pickled)
        (pickleFlaw hashes aes Account.scan key pickled) ↔
      (pickleFlaw hashes aes Account.scan key pickled = .ok (some .truncated) →
        account.lastError = .SUCCESS ∨ account.lastError = .CORRUPTED_PICKLE)
  session : ∀ (session : Session SharedKey) stale key pickled,
    NamesFlaw (·.lastError) (session.olmUnpickleSession hashes aes stale key pickled)
        (pickleFlaw hashes aes Session.scan key pickled) ↔
      (pickleFlaw hashes aes Session.scan key pickled = .ok (some .truncated) →
        session.lastError = .SUCCESS ∨ session.lastError = .CORRUPTED_PICKLE)
  decryption : ∀ (decryption : OlmPkDecryption) key pickled pubkey,
    NamesFlaw (·.lastError) (decryption.unpicklePkDecryption hashes aes key pickled pubkey)
        (OlmPkDecryption.keyFlaw hashes aes key pickled pubkey) ↔
      (OlmPkDecryption.keyFlaw hashes aes key pickled pubkey = .ok (some .truncated) →
        decryption.lastError = .SUCCESS ∨ decryption.lastError = .CORRUPTED_PICKLE)
  outbound : ∀ (session : OutboundGroupSession) key pickled,
    NamesFlaw (·.lastError) (session.unpickleOutboundGroupSession hashes aes key pickled)
      (pickleFlaw hashes aes OutboundGroupSession.scan key pickled)
  inbound : ∀ (session : InboundGroupSession) key pickled,
    NamesFlaw (·.lastError) (session.unpickleInboundGroupSession hashes aes key pickled)
      (pickleFlaw hashes aes InboundGroupSession.scan key pickled)

/-- **When a call that unpickles an object names what is wrong.** -/
theorem unpickles_nameFlaws (hashes : Hashes) (aes : Aes256) : UnpicklesNameFlaws hashes aes where
  account := Account.namesFlaw_iff
  session := Session.namesFlaw_iff
  decryption := OlmPkDecryption.namesFlaw_iff
  outbound := OutboundGroupSession.namesFlaw
  inbound := InboundGroupSession.namesFlaw

/-- A new session that was first given a single character, and then a pickle
that ends after its version. -/
theorem not_namesFlaw :
    ∃ session pickled,
      (Session.new (FixedBytes.zero _)).olmUnpickleSession .zero .identity .zero [] [65] =
        .ok (session, none) ∧
      ¬NamesFlaw (·.lastError) (session.olmUnpickleSession .zero .identity .zero [] pickled)
        (pickleFlaw .zero .identity Session.scan [] pickled) := by
  obtain ⟨rest, hinput⟩ := encInput_encText .zero Aes256.identity_inverts []
    (pickleUInt32 Session.SESSION_PICKLE_VERSION) (by decide)
  refine ⟨{ Session.new (FixedBytes.zero _) with lastError := .INVALID_BASE64 },
    encText .zero .identity [] (pickleUInt32 Session.SESSION_PICKLE_VERSION), rfl, ?_⟩
  rw [Session.namesFlaw_iff]
  intro h
  have hflaw : contentsFlaw Session.scan (pickleUInt32 Session.SESSION_PICKLE_VERSION) =
      some .truncated := by decide
  have herror := h (pickleFlaw_eq_truncated.mpr ⟨_, _, hinput, by rw [List.take_left, hflaw]⟩)
  simp at herror

end Olm
