import Olm.Group.Model
import Olm.Pickle
import Olm.PickleEncoding

/-!
# Pickles of group sessions

What `src/outbound_group_session.c` and `src/inbound_group_session.c` pickle
and unpickle. Unlike the objects in C++ these set `last_error` wherever a
pickle is cut off (`FAIL_ON_CORRUPTED_PICKLE`).
-/

namespace Olm

namespace Megolm

/-- The data of the ratchet, which is one array in memory. -/
def dataArray (m : Megolm) : FixedBytes MEGOLM_RATCHET_LENGTH := ⟨m.getData, m.getData_length⟩

theorem part_le (part : Fin MEGOLM_RATCHET_PARTS) :
    part.val * MEGOLM_RATCHET_PART_LENGTH + MEGOLM_RATCHET_PART_LENGTH ≤ MEGOLM_RATCHET_LENGTH := by
  rw [← Nat.succ_mul]
  exact Nat.mul_le_mul_right _ part.isLt

/-- The ratchet with other data. -/
def withData (m : Megolm) (data : FixedBytes MEGOLM_RATCHET_LENGTH) : Megolm where
  data part := data.slice (part.val * MEGOLM_RATCHET_PART_LENGTH) MEGOLM_RATCHET_PART_LENGTH
    (part_le part)
  counter := m.counter

/-- `megolm_pickle_length`. -/
def pickleLength (m : Megolm) : ℕ := MEGOLM_RATCHET_LENGTH + pickleLengthUInt32 m.counter

/-- `megolm_pickle`. -/
def pickle (m : Megolm) : Bytes := m.getData ++ pickleUInt32 m.counter

/-- `megolm_unpickle`. -/
def unpickle : Unpickler Megolm :=
  (Unpickler.field dataArray withData (unpickleBytes _)).andThen
  (.field (·.counter) (fun s a => { s with counter := a }) unpickleUInt32)

end Megolm

variable (hashes : Hashes) (aes : Aes256)

section Common

variable {σ : Type} (setError : σ → OlmErrorCode → σ) (unknown : UInt32 → Prop)
  [DecidablePred unknown] (unpickleFields : UInt32 → Unpickler σ)

/-- What both functions do that pickle a session, of which `raw` is the pickle
and `rawLength` its `raw_pickle_length`. -/
def pickleGroupSession (rawLength : ℕ) (raw : Bytes) (session : σ) (key pickled : Bytes) :
    Checked (σ × Option (Bytes × ℕ)) :=
  if pickled.length < encOutputLength rawLength then
    .ok (setError session .OUTPUT_BUFFER_TOO_SMALL, none)
  else do
    let pickled ← writeAt pickled (encOutputPos rawLength) raw
    let result ← encOutput hashes aes key pickled rawLength
    .ok (session, some result)

/-- What both functions make of a pickle that has been decrypted. They differ
in the versions they know and in what follows. -/
def unpickleGroupContents (session : σ) (pickledLength : ℕ) (raw : Bytes) :
    Checked (σ × Option ℕ) :=
  match unpickleUInt32 0 raw with
  | (_, none) => .ok (setError session .CORRUPTED_PICKLE, none)
  | (pickleVersion, some input) =>
    if unknown pickleVersion then .ok (setError session .UNKNOWN_PICKLE_VERSION, none)
    else
      match unpickleFields pickleVersion session input with
      | (session, none) => .ok (setError session .CORRUPTED_PICKLE, none)
      | (session, some (_ :: _)) => .ok (setError session .PICKLE_EXTRA_DATA, none)
      | (session, some []) => .ok (session, some pickledLength)

/-- The whole of it. -/
def unpickleGroupSession (session : σ) (key pickled : Bytes) : Checked (σ × Option ℕ) := do
  match ← encInput hashes aes key pickled with
  | (_, .error code) => .ok (setError session code, none)
  | (input, .ok rawLength) =>
    unpickleGroupContents setError unknown unpickleFields session pickled.length
      (input.take rawLength)

end Common

/-! ## The flag -/

/-- The bytes of an `int` that is a flag. -/
structure IntFlag where
  bytes : FixedBytes 4

namespace IntFlag

/-- The `int` is not 0. -/
def isSet (flag : IntFlag) : Bool := flag.bytes.val.any (· != 0)

/-- `_olm_unpickle_bool` stores through a `bool`, which is the first byte. -/
def storeBool (flag : IntFlag) (value : Bool) : IntFlag where
  bytes := ⟨(if value then 1 else 0) :: flag.bytes.val.tail, by
    rw [List.length_cons, List.length_tail, FixedBytes.length_val]⟩

/-- **The flag is what was stored**, if the `int` was cleared before. -/
theorem isSet_storeBool (value : Bool) : (storeBool ⟨FixedBytes.zero _⟩ value).isSet = value := by
  cases value with
  | true => rfl
  | false => rfl

end IntFlag

namespace OutboundGroupSession

/-- `PICKLE_VERSION`. -/
def PICKLE_VERSION : UInt32 := 1

/-- `raw_pickle_length`. -/
def rawPickleLength (session : OutboundGroupSession) : ℕ :=
  pickleLengthUInt32 PICKLE_VERSION + session.ratchet.pickleLength +
    pickleLengthEd25519KeyPair session.signingKey

/-- The pickle before it is encrypted. -/
def pickle (session : OutboundGroupSession) : Bytes :=
  pickleUInt32 PICKLE_VERSION ++
    (session.ratchet.pickle ++ pickleEd25519KeyPair session.signingKey)

/-- `olm_pickle_outbound_group_session_length`. -/
def pickleOutboundGroupSessionLength (session : OutboundGroupSession) : ℕ :=
  encOutputLength session.rawPickleLength

/-- `olm_pickle_outbound_group_session`: the buffer, and the length it
returns. -/
def pickleOutboundGroupSession (session : OutboundGroupSession) (key pickled : Bytes) :
    Checked (OutboundGroupSession × Option (Bytes × ℕ)) :=
  pickleGroupSession hashes aes (fun session code => { session with lastError := code })
    session.rawPickleLength session.pickle session key pickled

/-- What comes after the version. -/
def unpickleFields : Unpickler OutboundGroupSession :=
  (Unpickler.field (·.ratchet) (fun s a => { s with ratchet := a }) Megolm.unpickle).andThen
  (.field (·.signingKey) (fun s a => { s with signingKey := a }) unpickleEd25519KeyPair)

/-- `olm_unpickle_outbound_group_session`. -/
def unpickleOutboundGroupSession (session : OutboundGroupSession) (key pickled : Bytes) :
    Checked (OutboundGroupSession × Option ℕ) :=
  unpickleGroupSession hashes aes (fun session code => { session with lastError := code })
    (fun pickleVersion => pickleVersion ≠ PICKLE_VERSION) (fun _ => unpickleFields) session key
    pickled

end OutboundGroupSession

namespace InboundGroupSession

/-- `PICKLE_VERSION`. -/
def PICKLE_VERSION : UInt32 := 2

/-- `raw_pickle_length`. -/
def rawPickleLength (session : InboundGroupSession) : ℕ :=
  pickleLengthUInt32 PICKLE_VERSION + session.initialRatchet.pickleLength +
    session.latestRatchet.pickleLength + ED25519_PUBLIC_KEY_LENGTH +
    pickleLengthBool session.signingKeyVerified

/-- The pickle before it is encrypted. -/
def pickle (session : InboundGroupSession) : Bytes :=
  pickleUInt32 PICKLE_VERSION ++ (session.initialRatchet.pickle ++
    (session.latestRatchet.pickle ++ (session.signingKey.val ++
      pickleBool session.signingKeyVerified)))

/-- `olm_pickle_inbound_group_session_length`. -/
def pickleInboundGroupSessionLength (session : InboundGroupSession) : ℕ :=
  encOutputLength session.rawPickleLength

/-- `olm_pickle_inbound_group_session`: the buffer, and the length it
returns. -/
def pickleInboundGroupSession (session : InboundGroupSession) (key pickled : Bytes) :
    Checked (InboundGroupSession × Option (Bytes × ℕ)) :=
  pickleGroupSession hashes aes (fun session code => { session with lastError := code })
    session.rawPickleLength session.pickle session key pickled

/-- What comes after the version. Version 1 has no `signing_key_verified`. -/
def unpickleFields (pickleVersion : UInt32) : Unpickler InboundGroupSession :=
  (Unpickler.field (·.initialRatchet) (fun s a => { s with initialRatchet := a })
    Megolm.unpickle).andThen
  ((Unpickler.field (·.latestRatchet) (fun s a => { s with latestRatchet := a })
    Megolm.unpickle).andThen
  ((Unpickler.field (·.signingKey) (fun s a => { s with signingKey := a })
    (unpickleBytes _)).andThen
  (if pickleVersion = 1 then fun s input => ({ s with signingKeyVerified := true }, some input)
  else .field (·.signingKeyVerified) (fun s a => { s with signingKeyVerified := a })
    unpickleBool)))

/-- `olm_unpickle_inbound_group_session`. -/
def unpickleInboundGroupSession (session : InboundGroupSession) (key pickled : Bytes) :
    Checked (InboundGroupSession × Option ℕ) :=
  unpickleGroupSession hashes aes (fun session code => { session with lastError := code })
    (fun pickleVersion => pickleVersion < 1 ∨ pickleVersion > PICKLE_VERSION) unpickleFields
    session key pickled

end InboundGroupSession

end Olm
