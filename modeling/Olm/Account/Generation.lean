import Olm.Account.Model
import Olm.Symbolic

/-!
# Generating one-time keys

`generate_one_time_keys` counts the keys with an `unsigned`, and checks for
the bytes it needs with a product of `size_t`. Where neither of the two
wraps around, it turns each 32 bytes of the random ones into a key.
-/

namespace Olm.Account

variable (curve : Curve25519)

/-- A one-time key for each slice of the random bytes, one after the other. -/
def addOneTimeKeys (account : Account) (slices : List (FixedBytes CURVE25519_KEY_LENGTH)) :
    Account :=
  slices.foldl (addOneTimeKey curve) account

/-- **What `generate_one_time_keys` is for**: it refuses, or it makes each of
the keys out of the next 32 of the random bytes. -/
def GeneratesKeys (account : Account) (numberOfKeys : ℕ) (random : Bytes) : Prop :=
  account.generateOneTimeKeys curve numberOfKeys random =
      .ok (account.fail .NOT_ENOUGH_RANDOM) ∨
    ∃ slices : List (FixedBytes CURVE25519_KEY_LENGTH),
      slices.length = numberOfKeys ∧ (slices.map Subtype.val).flatten <+: random ∧
        account.generateOneTimeKeys curve numberOfKeys random =
          .ok (account.addOneTimeKeys curve slices, some numberOfKeys)

variable {curve} {account account' : Account} {random : Bytes} {numberOfKeys : ℕ}

/-- The keys go in front of the list. -/
theorem eq_of_addOneTimeKeys (curve : Curve25519) (account : Account)
    (slices : List (FixedBytes CURVE25519_KEY_LENGTH)) :
    ∃ id keys, account.addOneTimeKeys curve slices =
        { account with nextOneTimeKeyId := id, oneTimeKeys := keys } ∧
      ∀ key ∈ keys.toList, (∃ old ∈ account.oneTimeKeys.toList, key.key = old.key) ∨
        ∃ random, key.key = curve.generateKey random := by
  induction slices generalizing account with
  | nil => exact ⟨_, _, rfl, fun key hkey => .inl ⟨key, hkey, rfl⟩⟩
  | cons slice slices ih =>
    obtain ⟨id, keys, heq, hkeys⟩ := ih (account.addOneTimeKey curve slice)
    refine ⟨id, keys, heq, ?_⟩
    intro key hkey
    rcases hkeys key hkey with ⟨old, hold, hsame⟩ | hgenerated
    · rcases BoundedList.mem_push hold with rfl | hold
      · exact .inr ⟨slice, hsame⟩
      · exact .inl ⟨old, hold, hsame⟩
    · exact .inr hgenerated

/-- Slices that follow one another are read one after the other. -/
theorem loadArray_of_slices {slice : FixedBytes CURVE25519_KEY_LENGTH}
    {slices : List (FixedBytes CURVE25519_KEY_LENGTH)} {pos : ℕ}
    (h : ((slice :: slices).map Subtype.val).flatten <+: random.drop pos) :
    loadArray CURVE25519_KEY_LENGTH random pos = .ok slice ∧
      (slices.map Subtype.val).flatten <+: random.drop (pos + CURVE25519_KEY_LENGTH) := by
  obtain ⟨post, hpost⟩ := h
  rw [List.map_cons, List.flatten_cons, List.append_assoc] at hpost
  refine ⟨loadArray_of_drop_eq_append hpost.symm, post, ?_⟩
  rw [← List.drop_drop, ← hpost, List.drop_left' slice.property]

/-! ## The loop -/

/-- The loop does nothing but add keys. -/
theorem eq_of_generateOneTimeKeysLoop {fuel pos : ℕ} {i : UInt32}
    (h : generateOneTimeKeysLoop curve random numberOfKeys fuel i pos account = .ok account') :
    ∃ slices, account' = account.addOneTimeKeys curve slices := by
  induction fuel generalizing i pos account with
  | zero =>
    rw [generateOneTimeKeysLoop] at h
    split at h
    · cases h
    · exact ⟨[], (Except.ok.inj h).symm⟩
  | succ fuel ih =>
    rw [generateOneTimeKeysLoop] at h
    split at h
    · obtain ⟨key, -, h⟩ := Checked.bind_eq_ok.mp h
      obtain ⟨slices, rfl⟩ := ih h
      exact ⟨key :: slices, rfl⟩
    · exact ⟨[], (Except.ok.inj h).symm⟩

/-- Where the counter reaches the number of keys and the bytes are there. -/
theorem generateOneTimeKeysLoop_of_le (curve : Curve25519) (account : Account) {fuel pos : ℕ}
    {i : UInt32} (hn : numberOfKeys < 2 ^ 32)
    (hi : i.toNat ≤ numberOfKeys) (hfuel : numberOfKeys - i.toNat ≤ fuel)
    (hlen : pos + CURVE25519_KEY_LENGTH * (numberOfKeys - i.toNat) ≤ random.length) :
    ∃ slices : List (FixedBytes CURVE25519_KEY_LENGTH), slices.length = numberOfKeys - i.toNat ∧
      (slices.map Subtype.val).flatten <+: random.drop pos ∧
      generateOneTimeKeysLoop curve random numberOfKeys fuel i pos account =
        .ok (account.addOneTimeKeys curve slices) := by
  induction fuel generalizing i pos account with
  | zero =>
    refine ⟨[], by simp only [List.length_nil]; omega, List.nil_prefix, ?_⟩
    rw [generateOneTimeKeysLoop, if_neg (by omega)]
    rfl
  | succ fuel ih =>
    rw [generateOneTimeKeysLoop]
    by_cases hlt : i.toNat < numberOfKeys
    · have hnext : (i + 1).toNat = i.toNat + 1 := by
        rw [UInt32.toNat_add, UInt32.toNat_one, Nat.mod_eq_of_lt (by omega)]
      have hrest : numberOfKeys - i.toNat = numberOfKeys - (i + 1).toNat + 1 := by omega
      rw [hrest, Nat.mul_succ] at hlen
      have hlater : pos + CURVE25519_KEY_LENGTH +
          CURVE25519_KEY_LENGTH * (numberOfKeys - (i + 1).toNat) ≤ random.length := by omega
      obtain ⟨key, hload, hkey⟩ := loadArray_of_le
        (show pos + CURVE25519_KEY_LENGTH ≤ random.length by omega)
      obtain ⟨slices, hcount, hslices, hloop⟩ := ih (account.addOneTimeKey curve key)
        (show (i + 1).toNat ≤ numberOfKeys by omega) (by omega) hlater
      refine ⟨key :: slices, by rw [List.length_cons, hcount, hrest], ?_, ?_⟩
      · have hsplit : random.drop pos =
            key.val ++ random.drop (pos + CURVE25519_KEY_LENGTH) := by
          rw [hkey, ← List.drop_drop, List.take_append_drop]
        rw [hsplit]
        exact (List.prefix_append_right_inj _).mpr hslices
      · rw [if_pos hlt, hload, Checked.ok_bind, hloop]
        rfl
    · rw [if_neg hlt]
      refine ⟨[], by simp only [List.length_nil]; omega, List.nil_prefix, rfl⟩

/-- An `unsigned` never reaches `2 ^ 32`, so the loop goes on past the end of
the random bytes. -/
theorem generateOneTimeKeysLoop_of_ge {fuel pos : ℕ} {i : UInt32} (hn : 2 ^ 32 ≤ numberOfKeys)
    (hpos : pos ≤ random.length) (hfuel : random.length < pos + CURVE25519_KEY_LENGTH * fuel) :
    generateOneTimeKeysLoop curve random numberOfKeys fuel i pos account =
      .error .outOfBounds := by
  induction fuel generalizing i pos account with
  | zero => omega
  | succ fuel ih =>
    have hlt : i.toNat < numberOfKeys := Nat.lt_of_lt_of_le i.toNat_lt hn
    rw [generateOneTimeKeysLoop, if_pos hlt]
    rcases Nat.lt_or_ge random.length (pos + CURVE25519_KEY_LENGTH) with hend | hend
    · rw [loadArray_of_lt hend (by decide)]
      rfl
    · obtain ⟨key, hload, -⟩ := loadArray_of_le hend
      rw [hload, Checked.ok_bind]
      exact ih hend (by rw [Nat.mul_succ] at hfuel; omega)

/-! ## The call -/

/-- With too many keys for the counter, there is no result but an error. -/
theorem generateOneTimeKeys_of_ge (hn : 2 ^ 32 ≤ numberOfKeys) :
    account.generateOneTimeKeys curve numberOfKeys random =
      if random.length < generateOneTimeKeysRandomLength numberOfKeys then
        .ok (account.fail .NOT_ENOUGH_RANDOM)
      else .error .outOfBounds := by
  unfold generateOneTimeKeys
  split
  · rfl
  · rw [generateOneTimeKeysLoop_of_ge hn (Nat.zero_le _)]
    · rfl
    · have := Nat.lt_mul_div_succ random.length (show 0 < CURVE25519_KEY_LENGTH by decide)
      rw [Nat.zero_add]
      exact this

/-- With a number of keys that the counter can reach, nothing wraps. -/
theorem generateOneTimeKeys_of_lt (curve : Curve25519) (account : Account) (random : Bytes)
    (hn : numberOfKeys < 2 ^ 32) :
    GeneratesKeys curve account numberOfKeys random := by
  have hrequired : generateOneTimeKeysRandomLength numberOfKeys =
      CURVE25519_KEY_LENGTH * numberOfKeys := by
    unfold generateOneTimeKeysRandomLength CURVE25519_KEY_LENGTH
    omega
  unfold GeneratesKeys generateOneTimeKeys
  rw [hrequired]
  by_cases hlen : random.length < CURVE25519_KEY_LENGTH * numberOfKeys
  · rw [if_pos hlen]
    exact .inl rfl
  · have hrounds : numberOfKeys ≤ random.length / CURVE25519_KEY_LENGTH := by
      rw [Nat.le_div_iff_mul_le (by decide), Nat.mul_comm]
      exact Nat.le_of_not_lt hlen
    have hbytes : 0 + CURVE25519_KEY_LENGTH * (numberOfKeys - (0 : UInt32).toNat) ≤
        random.length := by
      rw [UInt32.toNat_zero, Nat.sub_zero]
      omega
    have hfuel : numberOfKeys - (0 : UInt32).toNat ≤
        random.length / CURVE25519_KEY_LENGTH + 1 := by
      rw [UInt32.toNat_zero]
      omega
    obtain ⟨slices, hcount, hslices, hloop⟩ :=
      generateOneTimeKeysLoop_of_le curve account hn (Nat.zero_le _) hfuel hbytes
    rw [if_neg hlen, hloop]
    exact .inr ⟨slices, hcount, hslices, rfl⟩

/-- **The exits of `generate_one_time_keys`.** -/
theorem generateOneTimeKeys_exits {result : Option ℕ}
    (h : account.generateOneTimeKeys curve numberOfKeys random = .ok (account', result)) :
    (∃ code, account' = { account with lastError := code } ∧ result = none) ∨
    ∃ slices : List (FixedBytes CURVE25519_KEY_LENGTH), slices.length = numberOfKeys ∧
      (slices.map Subtype.val).flatten <+: random ∧
      account' = account.addOneTimeKeys curve slices ∧ result = some numberOfKeys := by
  rcases Nat.lt_or_ge numberOfKeys (2 ^ 32) with hn | hn
  · rcases generateOneTimeKeys_of_lt curve account random hn with
      hfail | ⟨slices, hcount, hslices, hok⟩
    · obtain ⟨rfl, rfl⟩ := Prod.mk.inj (Except.ok.inj (hfail.symm.trans h))
      exact .inl ⟨_, rfl, rfl⟩
    · obtain ⟨rfl, rfl⟩ := Prod.mk.inj (Except.ok.inj (hok.symm.trans h))
      exact .inr ⟨slices, hcount, hslices, rfl, rfl⟩
  · rw [generateOneTimeKeys_of_ge hn] at h
    split at h
    · obtain ⟨rfl, rfl⟩ := Prod.mk.inj (Except.ok.inj h)
      exact .inl ⟨_, rfl, rfl⟩
    · cases h

/-- **When it does what it is for.** More keys than the counter can count are
refused only where the product that wrapped around still asks for more bytes
than there are. -/
theorem generatesKeys_iff :
    GeneratesKeys curve account numberOfKeys random ↔
      ¬(2 ^ 32 ≤ numberOfKeys ∧ CURVE25519_KEY_LENGTH * numberOfKeys % 2 ^ 64 ≤ random.length) := by
  constructor
  · rintro h ⟨hn, hlen⟩
    have hfault : account.generateOneTimeKeys curve numberOfKeys random = .error .outOfBounds := by
      rw [generateOneTimeKeys_of_ge hn]
      exact if_neg (Nat.not_lt_of_le hlen)
    rcases h with hfail | ⟨slices, -, -, hok⟩
    · cases hfault.symm.trans hfail
    · cases hfault.symm.trans hok
  · intro h
    rcases Nat.lt_or_ge numberOfKeys (2 ^ 32) with hn | hn
    · exact generateOneTimeKeys_of_lt curve account random hn
    · have hlen : random.length < generateOneTimeKeysRandomLength numberOfKeys :=
        Nat.lt_of_not_le fun hle => h ⟨hn, hle⟩
      refine .inl ?_
      rw [generateOneTimeKeys_of_ge hn, if_pos hlen]

/-- 32 times `2 ^ 59` is 0, so without any random bytes the first key is read
out of bounds. -/
theorem not_generatesKeys :
    ¬GeneratesKeys Curve25519.clamped Account.new (2 ^ 59) [] := by
  have hfault : Account.new.generateOneTimeKeys Curve25519.clamped (2 ^ 59) [] =
      .error .outOfBounds := by decide +kernel
  rintro (hfail | ⟨slices, -, -, hok⟩)
  · cases hfault.symm.trans hfail
  · cases hfault.symm.trans hok

end Olm.Account
