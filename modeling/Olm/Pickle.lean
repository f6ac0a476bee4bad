import Olm.Common.BoundedList
import Olm.Common.Unpickler
import Olm.Crypto

/-!
# Pickles

`src/pickle.cpp` and `include/olm/pickle.hh`: integers in big-endian, byte
arrays as they are, lists after their length. An integer is cleared before
it is read, everything else keeps what it held where the bytes run out.
-/

namespace Olm

/-! ## Values -/

/-- `pickle` of a `std::uint64_t`. -/
def pickleUInt64 (value : UInt64) : Bytes := toBigEndian 8 value.toNat

/-- `unpickle` of a `std::uint64_t`. -/
def unpickleUInt64 : Unpickler UInt64 := fun _ input =>
  if input.length < 8 then (0, none)
  else (UInt64.ofNat (ofBigEndian (input.take 8)), some (input.drop 8))

/-- `pickle` of a `std::uint32_t`. -/
def pickleUInt32 (value : UInt32) : Bytes := toBigEndian 4 value.toNat

/-- `unpickle` of a `std::uint32_t`. -/
def unpickleUInt32 : Unpickler UInt32 := fun _ input =>
  if input.length < 4 then (0, none)
  else (UInt32.ofNat (ofBigEndian (input.take 4)), some (input.drop 4))

/-- `pickle` of a `std::uint8_t`. -/
def pickleUInt8 (value : UInt8) : Bytes := [value]

/-- `unpickle` of a `std::uint8_t`. -/
def unpickleUInt8 : Unpickler UInt8
  | value, [] => (value, none)
  | _, b :: rest => (b, some rest)

/-- `pickle` of a `bool`. -/
def pickleBool (value : Bool) : Bytes := [if value then 1 else 0]

/-- `unpickle` of a `bool`. -/
def unpickleBool : Unpickler Bool
  | value, [] => (value, none)
  | _, b :: rest => (b != 0, some rest)

/-- `unpickle_bytes`. -/
def unpickleBytes (n : ℕ) : Unpickler (FixedBytes n) := fun value input =>
  if h : n ≤ input.length then
    (⟨input.take n, by rw [List.length_take, Nat.min_eq_left h]⟩, some (input.drop n))
  else (value, none)

/-- `pickle` of a `_olm_curve25519_key_pair`. -/
def pickleCurve25519KeyPair (value : Curve25519KeyPair) : Bytes :=
  value.publicKey.val ++ value.privateKey.val

/-- `unpickle` of a `_olm_curve25519_key_pair`. -/
def unpickleCurve25519KeyPair : Unpickler Curve25519KeyPair :=
  (Unpickler.field (·.publicKey) (fun s a => { s with publicKey := a }) (unpickleBytes _)).andThen
  (.field (·.privateKey) (fun s a => { s with privateKey := a }) (unpickleBytes _))

/-- `_olm_pickle_ed25519_key_pair`. -/
def pickleEd25519KeyPair (value : Ed25519KeyPair) : Bytes :=
  value.publicKey.val ++ value.privateKey.val

/-- `_olm_unpickle_ed25519_key_pair`. -/
def unpickleEd25519KeyPair : Unpickler Ed25519KeyPair :=
  (Unpickler.field (·.publicKey) (fun s a => { s with publicKey := a }) (unpickleBytes _)).andThen
  (.field (·.privateKey) (fun s a => { s with privateKey := a }) (unpickleBytes _))

/-! ### Lengths -/

/-- `pickle_length` of a `std::uint64_t`. -/
def pickleLengthUInt64 (_value : UInt64) : ℕ := 8

/-- `pickle_length` of a `std::uint32_t`. -/
def pickleLengthUInt32 (_value : UInt32) : ℕ := 4

/-- `pickle_length` of a `std::uint8_t`. -/
def pickleLengthUInt8 (_value : UInt8) : ℕ := 1

/-- `pickle_length` of a `bool`. -/
def pickleLengthBool (_value : Bool) : ℕ := 1

/-- `pickle_length` of a `_olm_curve25519_public_key`. -/
def pickleLengthCurve25519PublicKey (_value : Curve25519PublicKey) : ℕ := CURVE25519_KEY_LENGTH

/-- `pickle_length` of a `_olm_curve25519_key_pair`. -/
def pickleLengthCurve25519KeyPair (_value : Curve25519KeyPair) : ℕ :=
  CURVE25519_KEY_LENGTH + CURVE25519_KEY_LENGTH

/-- `_olm_pickle_ed25519_key_pair_length`. -/
def pickleLengthEd25519KeyPair (_value : Ed25519KeyPair) : ℕ :=
  ED25519_PUBLIC_KEY_LENGTH + ED25519_PRIVATE_KEY_LENGTH

/-! ## Lists -/

section List

variable {α : Type} {n : ℕ}

/-- `pickle_length` of a `List`. -/
def pickleLengthList (pickleLengthValue : α → ℕ) (list : BoundedList α n) : ℕ :=
  pickleLengthUInt32 (UInt32.ofNat list.toList.length) + (list.toList.map pickleLengthValue).sum

/-- `pickle` of a `List`. -/
def pickleList (pickleValue : α → Bytes) (list : BoundedList α n) : Bytes :=
  pickleUInt32 (UInt32.ofNat list.toList.length) ++ (list.toList.map pickleValue).flatten

/-- The loop of `unpickle` of a `List`. `stale` is what the memory of the
list held: a value that fails to unpickle is in the list already. -/
def unpickleListLoop (unpickleValue : Unpickler α) (stale : ℕ → α) :
    (size : ℕ) → Unpickler (BoundedList α n)
  | 0, list, input => (list, some input)
  | size + 1, list, input =>
    if input = [] then (list, some input)
    else
      match unpickleValue (list.endSlot stale) input with
      | (value, some rest) =>
        unpickleListLoop unpickleValue stale size (list.insertEnd value) rest
      | (value, none) => (list.insertEnd value, none)

/-- `unpickle` of a `List`. -/
def unpickleList (unpickleValue : Unpickler α) (stale : ℕ → α) : Unpickler (BoundedList α n) :=
  fun list input =>
    match unpickleUInt32 0 input with
    | (size, some rest) => unpickleListLoop unpickleValue stale size.toNat list rest
    | (_, none) => (list, none)

end List

/-! ## As many bytes as the length says -/

theorem length_pickleUInt64 (value : UInt64) :
    (pickleUInt64 value).length = pickleLengthUInt64 value := toBigEndian_length 8 _

theorem length_pickleUInt32 (value : UInt32) :
    (pickleUInt32 value).length = pickleLengthUInt32 value := toBigEndian_length 4 _

theorem length_pickleUInt8 (value : UInt8) :
    (pickleUInt8 value).length = pickleLengthUInt8 value := rfl

theorem length_pickleBool (value : Bool) :
    (pickleBool value).length = pickleLengthBool value := rfl

theorem length_pickleCurve25519KeyPair (value : Curve25519KeyPair) :
    (pickleCurve25519KeyPair value).length = pickleLengthCurve25519KeyPair value := by
  rw [pickleCurve25519KeyPair, List.length_append, FixedBytes.length_val, FixedBytes.length_val]
  rfl

theorem length_pickleEd25519KeyPair (value : Ed25519KeyPair) :
    (pickleEd25519KeyPair value).length = pickleLengthEd25519KeyPair value := by
  rw [pickleEd25519KeyPair, List.length_append, FixedBytes.length_val, FixedBytes.length_val]
  rfl

theorem length_pickleList {α : Type} {n : ℕ} {pickleValue : α → Bytes} {pickleLengthValue : α → ℕ}
    (hvalue : ∀ value, (pickleValue value).length = pickleLengthValue value)
    (list : BoundedList α n) :
    (pickleList pickleValue list).length = pickleLengthList pickleLengthValue list := by
  have hvalues : (list.toList.map pickleValue).map List.length =
      list.toList.map pickleLengthValue := by
    rw [List.map_map]
    exact List.map_congr_left (fun value _ => hvalue value)
  rw [pickleList, pickleLengthList, List.length_append, length_pickleUInt32, List.length_flatten,
    hvalues]

/-! ## What was pickled is unpickled -/

theorem reads_unpickleUInt64 (old value : UInt64) :
    unpickleUInt64.Reads old (pickleUInt64 value) value := by
  intro rest
  have hlen : (pickleUInt64 value).length = 8 := toBigEndian_length 8 _
  have hlt := value.toNat_lt
  rw [unpickleUInt64, if_neg (by rw [List.length_append]; omega),
    List.take_left' hlen, List.drop_left' hlen, pickleUInt64, ofBigEndian_toBigEndian,
    Nat.mod_eq_of_lt (by omega), UInt64.ofNat_toNat]

theorem reads_unpickleUInt32 (old value : UInt32) :
    unpickleUInt32.Reads old (pickleUInt32 value) value := by
  intro rest
  have hlen : (pickleUInt32 value).length = 4 := toBigEndian_length 4 _
  have hlt := value.toNat_lt
  rw [unpickleUInt32, if_neg (by rw [List.length_append]; omega),
    List.take_left' hlen, List.drop_left' hlen, pickleUInt32, ofBigEndian_toBigEndian,
    Nat.mod_eq_of_lt (by omega), UInt32.ofNat_toNat]

theorem reads_unpickleUInt8 (old value : UInt8) :
    unpickleUInt8.Reads old (pickleUInt8 value) value := fun _ => rfl

theorem reads_unpickleBool (old value : Bool) :
    unpickleBool.Reads old (pickleBool value) value := by
  intro rest
  cases value <;> rfl

theorem reads_unpickleBytes {n : ℕ} (old value : FixedBytes n) :
    (unpickleBytes n).Reads old value.val value := by
  intro rest
  have hle : n ≤ (value.val ++ rest).length := by
    rw [List.length_append, FixedBytes.length_val]
    omega
  rw [unpickleBytes, dif_pos hle, List.drop_left' value.property]
  refine Prod.ext (Subtype.ext ?_) rfl
  exact List.take_left' value.property

theorem reads_unpickleCurve25519KeyPair (old value : Curve25519KeyPair) :
    unpickleCurve25519KeyPair.Reads old (pickleCurve25519KeyPair value) value :=
  (Unpickler.Reads.field _ (reads_unpickleBytes old.publicKey value.publicKey)).andThen
    (.field _ (reads_unpickleBytes _ value.privateKey))

theorem reads_unpickleEd25519KeyPair (old value : Ed25519KeyPair) :
    unpickleEd25519KeyPair.Reads old (pickleEd25519KeyPair value) value :=
  (Unpickler.Reads.field _ (reads_unpickleBytes old.publicKey value.publicKey)).andThen
    (.field _ (reads_unpickleBytes _ value.privateKey))

section List

variable {α : Type} {n : ℕ} {pickleValue : α → Bytes} {unpickleValue : Unpickler α}

theorem reads_unpickleListLoop (stale : ℕ → α) (hne : ∀ value, pickleValue value ≠ [])
    (values : List α)
    (hreads : ∀ value ∈ values, ∀ old, unpickleValue.Reads old (pickleValue value) value)
    (list : BoundedList α n) (h : (list.toList ++ values).length ≤ n) :
    (unpickleListLoop unpickleValue stale values.length).Reads list
      (values.map pickleValue).flatten ⟨list.toList ++ values, h⟩ := by
  induction values generalizing list with
  | nil =>
    intro rest
    refine Prod.ext (BoundedList.ext ?_) rfl
    exact (List.append_nil _).symm
  | cons value values ih =>
    intro rest
    have hlt : list.toList.length < n := by
      rw [List.length_append, List.length_cons] at h
      omega
    have hlist := BoundedList.toList_insertEnd hlt value
    have hne' : pickleValue value ++ ((values.map pickleValue).flatten ++ rest) ≠ [] := by
      intro heq
      exact hne value (List.append_eq_nil_iff.mp heq).1
    rw [List.length_cons, List.map_cons, List.flatten_cons, List.append_assoc, unpickleListLoop,
      if_neg hne', hreads value List.mem_cons_self]
    have hih := ih (fun v hv => hreads v (List.mem_cons_of_mem _ hv)) (list.insertEnd value)
      (by rw [hlist, List.append_assoc]; exact h) rest
    refine hih.trans (Prod.ext (BoundedList.ext ?_) rfl)
    simp only [hlist, List.append_assoc, List.cons_append, List.nil_append]

/-- **A list that was pickled is unpickled** into an empty one. -/
theorem reads_unpickleList (stale : ℕ → α) (hne : ∀ value, pickleValue value ≠ [])
    (hn : n < 2 ^ 32) (list : BoundedList α n)
    (hreads : ∀ value ∈ list.toList, ∀ old, unpickleValue.Reads old (pickleValue value) value) :
    (unpickleList unpickleValue stale).Reads .empty (pickleList pickleValue list) list := by
  intro rest
  have hsize : (UInt32.ofNat list.toList.length).toNat = list.toList.length := by
    have := list.length_le
    rw [UInt32.toNat_ofNat', Nat.mod_eq_of_lt (by omega)]
  rw [unpickleList, pickleList, List.append_assoc, reads_unpickleUInt32]
  simp only [hsize]
  exact reads_unpickleListLoop stale hne list.toList hreads .empty list.length_le rest

end List

/-! ## What unpickling leaves of the input -/

theorem consumes_unpickleUInt64 : unpickleUInt64.Consumes (Unpickler.skip 8) := by
  intro old input
  unfold unpickleUInt64 Unpickler.skip
  split
  · rw [if_neg (by omega)]
  · rw [if_pos (by omega)]

theorem consumes_unpickleUInt32 : unpickleUInt32.Consumes (Unpickler.skip 4) := by
  intro old input
  unfold unpickleUInt32 Unpickler.skip
  split
  · rw [if_neg (by omega)]
  · rw [if_pos (by omega)]

theorem consumes_unpickleBool : unpickleBool.Consumes (Unpickler.skip 1) := by
  intro old input
  cases input with
  | nil => rfl
  | cons b rest => exact (if_pos (Nat.le_add_left 1 rest.length)).symm

theorem consumes_unpickleBytes (n : ℕ) : (unpickleBytes n).Consumes (Unpickler.skip n) := by
  intro old input
  unfold unpickleBytes Unpickler.skip
  split
  · rfl
  · rfl

theorem consumes_unpickleCurve25519KeyPair :
    unpickleCurve25519KeyPair.Consumes
      (Unpickler.skip (CURVE25519_KEY_LENGTH + CURVE25519_KEY_LENGTH)) :=
  (Unpickler.Consumes.field _ (consumes_unpickleBytes _)).andThen_skip
    (.field _ (consumes_unpickleBytes _))

theorem consumes_unpickleEd25519KeyPair :
    unpickleEd25519KeyPair.Consumes
      (Unpickler.skip (ED25519_PUBLIC_KEY_LENGTH + ED25519_PRIVATE_KEY_LENGTH)) :=
  (Unpickler.Consumes.field _ (consumes_unpickleBytes _)).andThen_skip
    (.field _ (consumes_unpickleBytes _))

section List

variable {α : Type} {n m : ℕ} {unpickleValue : Unpickler α}

/-- What is left after the values of a list: it may be cut short after any
of them where the input ends. -/
def skipValues (m size : ℕ) (input : Bytes) : Option Bytes :=
  if m * size ≤ input.length then some (input.drop (m * size))
  else if m ∣ input.length then some [] else none

theorem skipValues_succ {input : Bytes} (size : ℕ) (h : m ≤ input.length) :
    skipValues m (size + 1) input = skipValues m size (input.drop m) := by
  have hmul : m * (size + 1) = m + m * size := by rw [Nat.mul_succ, Nat.add_comm]
  have hdvd : m ∣ input.length - m ↔ m ∣ input.length :=
    Nat.dvd_sub_iff_left h (Nat.dvd_refl m)
  unfold skipValues
  rw [hmul, List.drop_drop, List.length_drop]
  simp only [hdvd]
  by_cases hle : m + m * size ≤ input.length
  · rw [if_pos hle, if_pos (by omega)]
  · have hle' : ¬m * size ≤ input.length - m := by omega
    rw [if_neg hle, if_neg hle']

theorem skipValues_of_lt {input : Bytes} (size : ℕ) (hne : input ≠ []) (h : input.length < m) :
    skipValues m (size + 1) input = none := by
  have hmul : m ≤ m * (size + 1) := Nat.le_mul_of_pos_right m (Nat.succ_pos size)
  have hdvd : ¬m ∣ input.length := fun hdvd =>
    Nat.not_le_of_lt h (Nat.le_of_dvd (List.length_pos_iff.mpr hne) hdvd)
  rw [skipValues, if_neg (by omega), if_neg hdvd]

theorem consumes_unpickleListLoop (h : unpickleValue.Consumes (Unpickler.skip m)) (hm : 0 < m)
    (stale : ℕ → α) (size : ℕ) :
    (unpickleListLoop (n := n) unpickleValue stale size).Consumes (skipValues m size) := by
  intro list input
  induction size generalizing list input with
  | zero =>
    exact (if_pos (Nat.zero_le _)).symm
  | succ size ih =>
    have hvalue := h (list.endSlot stale) input
    rw [unpickleListLoop]
    split
    · rename_i hnil
      have hlt : ¬m * (size + 1) ≤ 0 := Nat.not_le_of_lt (Nat.mul_pos hm (Nat.succ_pos size))
      rw [hnil, skipValues, List.length_nil, if_neg hlt, if_pos (Nat.dvd_zero m)]
    · rename_i hne
      split
      · rename_i value rest hread
        rw [hread] at hvalue
        obtain ⟨hle, rfl⟩ := Unpickler.skip_eq_some.mp hvalue.symm
        rw [ih, skipValues_succ size hle]
      · rename_i value hread
        rw [hread] at hvalue
        refine (skipValues_of_lt size hne ?_).symm
        by_contra hle
        rw [Unpickler.skip, if_pos (by omega)] at hvalue
        cases hvalue

/-- What is left after a list. -/
def skipList (m : ℕ) (input : Bytes) : Option Bytes :=
  if 4 ≤ input.length then skipValues m (ofBigEndian (input.take 4)) (input.drop 4) else none

/-- Where something is left, no value was missing. -/
theorem skipList_eq_some_of_ne {input rest : Bytes} (hne : rest ≠ []) :
    skipList m input = some rest ↔
      4 + m * ofBigEndian (input.take 4) < input.length ∧
        rest = input.drop (4 + m * ofBigEndian (input.take 4)) := by
  unfold skipList skipValues
  rw [List.length_drop, List.drop_drop]
  constructor
  · intro h
    split at h
    · split at h
      · cases h
        rw [ne_eq, List.drop_eq_nil_iff] at hne
        exact ⟨by omega, rfl⟩
      · split at h
        · cases h
          exact absurd rfl hne
        · cases h
    · cases h
  · rintro ⟨hlt, rfl⟩
    rw [if_pos (by omega), if_pos (by omega)]

/-- Where nothing is left, values may be missing. -/
theorem skipList_eq_nil {input : Bytes} :
    skipList m input = some [] ↔
      ∃ j ≤ ofBigEndian (input.take 4), input.length = 4 + m * j := by
  generalize hsize : ofBigEndian (input.take 4) = size
  unfold skipList skipValues
  rw [List.length_drop, List.drop_drop, hsize]
  constructor
  · intro h
    split at h
    · split at h
      · rename_i hle
        have hall := List.drop_eq_nil_iff.mp (Option.some.inj h)
        exact ⟨size, Nat.le_refl size, by omega⟩
      · rename_i hlt
        split at h
        · rename_i hdvd
          obtain ⟨j, hj⟩ := hdvd
          refine ⟨j, ?_, by omega⟩
          have hlt' : m * j < m * size := by omega
          exact Nat.le_of_lt (Nat.lt_of_mul_lt_mul_left hlt')
        · cases h
    · cases h
  · rintro ⟨j, hle, hlen⟩
    have hmul : m * j ≤ m * size := Nat.mul_le_mul_left m hle
    rw [if_pos (by omega)]
    split
    · rename_i hge
      rw [List.drop_of_length_le (by omega)]
    · rw [if_pos ⟨j, by omega⟩]

theorem consumes_unpickleList (h : unpickleValue.Consumes (Unpickler.skip m)) (hm : 0 < m)
    (stale : ℕ → α) :
    (unpickleList (n := n) unpickleValue stale).Consumes (skipList m) := by
  intro list input
  unfold unpickleList unpickleUInt32 skipList
  by_cases hlen : input.length < 4
  · rw [if_pos hlen, if_neg (by omega)]
  · have hlt := ofBigEndian_lt (input.take 4)
    rw [List.length_take_of_le (by omega)] at hlt
    have hsize : (UInt32.ofNat (ofBigEndian (input.take 4))).toNat =
        ofBigEndian (input.take 4) := by
      rw [UInt32.toNat_ofNat', Nat.mod_eq_of_lt (by omega)]
    rw [if_neg hlen, if_pos (by omega)]
    simp only [hsize]
    exact consumes_unpickleListLoop h hm stale _ list (input.drop 4)

end List

/-! ## What was unpickled is pickled -/

theorem writesBack_unpickleUInt32 : unpickleUInt32.WritesBack pickleUInt32 := by
  intro old value input rest h
  unfold unpickleUInt32 at h
  split at h
  · cases h
  · rename_i hlen
    have htake : (input.take 4).length = 4 := List.length_take_of_le (by omega)
    have hlt := ofBigEndian_lt (input.take 4)
    rw [htake] at hlt
    cases h
    rw [pickleUInt32, UInt32.toNat_ofNat', Nat.mod_eq_of_lt (by omega),
      toBigEndian_ofBigEndian htake, List.take_append_drop]

theorem pickleUInt32_injective {value value' : UInt32}
    (h : pickleUInt32 value = pickleUInt32 value') : value = value' := by
  have hread := reads_unpickleUInt32 0 value []
  rw [h, reads_unpickleUInt32 0 value' []] at hread
  exact (congrArg Prod.fst hread).symm

theorem writesBack_unpickleBytes (n : ℕ) : (unpickleBytes n).WritesBack Subtype.val := by
  intro old value input rest h
  unfold unpickleBytes at h
  split at h
  · cases h
    exact (List.take_append_drop n input).symm
  · cases h

theorem writesBack_unpickleCurve25519KeyPair :
    unpickleCurve25519KeyPair.WritesBack pickleCurve25519KeyPair :=
  (Unpickler.WritesBack.field (writesBack_unpickleBytes _) fun _ _ => rfl).andThen
    (.field (writesBack_unpickleBytes _) fun _ _ => rfl) fun _ => .field _ fun _ _ h => h

section List

variable {α : Type} {n : ℕ} {pickleValue : α → Bytes} {unpickleValue : Unpickler α}

theorem unpickleListLoop_eq_some (hback : unpickleValue.WritesBack pickleValue) {stale : ℕ → α}
    {size : ℕ} {list list' : BoundedList α n} {input rest : Bytes}
    (h : unpickleListLoop unpickleValue stale size list input = (list', some rest)) :
    ∃ values : List α, values.length ≤ size ∧ (values.length < size → rest = []) ∧
      list' = values.foldl .insertEnd list ∧
      input = (values.map pickleValue).flatten ++ rest := by
  induction size generalizing list input with
  | zero =>
    cases h
    exact ⟨[], Nat.le_refl 0, fun hlt => absurd hlt (Nat.lt_irrefl 0), rfl, rfl⟩
  | succ size ih =>
    rw [unpickleListLoop] at h
    split at h
    · rename_i hnil
      cases h
      exact ⟨[], Nat.zero_le _, fun _ => hnil, rfl, rfl⟩
    · split at h
      · rename_i value rest' hread
        obtain ⟨values, hle, hend, hlist, hinput⟩ := ih h
        refine ⟨value :: values, Nat.succ_le_succ hle, ?_, hlist, ?_⟩
        · intro hlt
          exact hend (Nat.lt_of_succ_lt_succ hlt)
        · rw [hback _ _ _ _ hread, hinput, List.map_cons, List.flatten_cons, List.append_assoc]
      · cases h

/-- What a list was unpickled from. It may say that more values follow than
there are. -/
theorem unpickleList_eq_some (hback : unpickleValue.WritesBack pickleValue) {stale : ℕ → α}
    {list list' : BoundedList α n} {input rest : Bytes}
    (h : unpickleList unpickleValue stale list input = (list', some rest)) :
    ∃ (size : UInt32) (values : List α), values.length ≤ size.toNat ∧
      (values.length < size.toNat → rest = []) ∧ list' = values.foldl .insertEnd list ∧
      input = pickleUInt32 size ++ ((values.map pickleValue).flatten ++ rest) := by
  unfold unpickleList at h
  split at h
  · rename_i size rest' hread
    obtain ⟨values, hle, hend, hlist, hinput⟩ := unpickleListLoop_eq_some hback h
    refine ⟨size, values, hle, hend, hlist, ?_⟩
    rw [writesBack_unpickleUInt32 _ _ _ _ hread, hinput]
  · cases h

/-- **When a list is pickled as it was**: its length is that of the values
there were, and there was room for them. -/
theorem pickleList_append_eq_iff (hn : n < 2 ^ 32) {size : UInt32} {values : List α}
    (hle : values.length ≤ size.toNat) {rest rest' : Bytes} :
    pickleList pickleValue (values.foldl .insertEnd (.empty : BoundedList α n)) ++ rest =
        pickleUInt32 size ++ ((values.map pickleValue).flatten ++ rest') ↔
      size.toNat = values.length ∧ values.length ≤ n ∧ rest = rest' := by
  have hlength := BoundedList.length_foldl_insertEnd values (.empty : BoundedList α n)
  rw [BoundedList.toList_empty, List.length_nil, Nat.zero_add] at hlength
  rw [pickleList, List.append_assoc]
  constructor
  · intro h
    obtain ⟨hsize, htail⟩ := List.append_inj h (by
      rw [length_pickleUInt32, length_pickleUInt32]; rfl)
    -- the length that is written is below the one there was where values were lost
    have hnum := congrArg UInt32.toNat (pickleUInt32_injective hsize)
    rw [UInt32.toNat_ofNat', hlength, Nat.mod_eq_of_lt (by omega)] at hnum
    have hfits : values.length ≤ n := by omega
    rw [BoundedList.toList_foldl_insertEnd (by simpa using hfits)] at htail
    exact ⟨by omega, hfits, List.append_cancel_left htail⟩
  · rintro ⟨hsize, hfits, rfl⟩
    rw [BoundedList.toList_foldl_insertEnd (by simpa using hfits), BoundedList.toList_empty,
      List.nil_append, ← hsize, UInt32.ofNat_toNat]

end List

end Olm
