import Mathlib.Data.List.Perm.Subperm
import Olm.Account.Reload
import Olm.Common.Run

/-!
# The ids of the keys

One-time keys and fallback keys take their ids from one counter. As long as
it does not wrap around, each key has an id of its own for good: also after
it was pushed out of the list or removed, and in an account that comes from
a pickle.
-/

namespace Olm.Account

/-- The fallback keys that are in use. -/
def liveFallbackKeys (account : Account) : List OneTimeKey :=
  [account.currentFallbackKey, account.prevFallbackKey].take account.numFallbackKeys.toNat

/-- The one-time keys and the fallback keys that are in use. -/
def liveKeys (account : Account) : List OneTimeKey :=
  account.oneTimeKeys.toList ++ account.liveFallbackKeys

/-- **The ids of an account**: those of the one-time keys decrease from the
front, and none is there twice or is still to come. -/
structure OrderedIds (account : Account) : Prop where
  length_le : account.oneTimeKeys.toList.length ≤ 100
  decreasing : account.oneTimeKeys.toList.Pairwise (fun newer older => older.id < newer.id)
  nodup : (account.liveKeys.map (·.id)).Nodup
  le_next : ∀ key ∈ account.liveKeys, key.id ≤ account.nextOneTimeKeyId

/-! ## What is issued -/

/-- An account, and the ids it issued so far with their keys, the last
first. -/
structure Ledger where
  account : Account
  issued : List (UInt32 × Curve25519KeyPair)

namespace Ledger

/-- What happens to an account. -/
inductive Event where
  | call (request : Call)
  /-- The account is pickled and read into a new one. -/
  | reload (stale : ℕ → OneTimeKey)

variable (curve : Curve25519) (ed25519 : Ed25519)

/-- The ids after `id`, with the keys of the random bytes from `pos` on. -/
def issuedFrom (random : Bytes) :
    (numberOfKeys pos : ℕ) → (id : UInt32) → Checked (List (UInt32 × Curve25519KeyPair))
  | 0, _, _ => .ok []
  | numberOfKeys + 1, pos, id => do
    let key ← loadArray CURVE25519_KEY_LENGTH random pos
    let later ← issuedFrom random numberOfKeys (pos + CURVE25519_KEY_LENGTH) (id + 1)
    .ok (later ++ [(id + 1, curve.generateKey key)])

/-- What a call issues where it succeeds. -/
def issuedBy (account : Account) : Call → Checked (List (UInt32 × Curve25519KeyPair))
  | .generateOneTimeKeys numberOfKeys random =>
    issuedFrom curve random numberOfKeys 0 account.nextOneTimeKeyId
  | .generateFallbackKey random => issuedFrom curve random 1 0 account.nextOneTimeKeyId
  | _ => .ok []

/-- One call, and what goes on record of it. -/
def step (s : Ledger) : Event → Checked Ledger
  | .call request => do
    let (account, reply) ← s.account.call curve ed25519 request
    match reply with
    | .error _ => .ok { s with account := account }
    | .ok _ =>
      let keys ← issuedBy curve s.account request
      .ok { account := account, issued := keys ++ s.issued }
  | .reload stale =>
    .ok { s with account := (Account.new.unpickleAccount stale s.account.pickle).1 }

/-- A new account. -/
def Starts (start : Ledger) : Prop :=
  ∃ random, Account.new.newAccount curve ed25519 random = .ok (start.account, some 0) ∧
    start.issued = []

/-- **Each id is issued once**, and the keys that the account has are those
that were issued with their ids. -/
structure IssuesOnce (s : Ledger) : Prop where
  ids : s.account.OrderedIds
  nodup : (s.issued.map Prod.fst).Nodup
  live : ∀ key ∈ s.account.liveKeys, (key.id, key.key) ∈ s.issued

/-! ## The counter -/

/-- The counter says how many ids were issued, and they are those up to it. -/
structure Counts (s : Ledger) : Prop where
  counted : s.account.Counted
  next : s.account.nextOneTimeKeyId.toNat = s.issued.length
  issued_decreasing : s.issued.Pairwise (fun newer older => older.1 < newer.1)
  issued_le : ∀ entry ∈ s.issued, entry.1 ≤ s.account.nextOneTimeKeyId
  decreasing : s.account.oneTimeKeys.toList.Pairwise (fun newer older => older.id < newer.id)
  nodup : (s.account.liveKeys.map (·.id)).Nodup
  live : ∀ key ∈ s.account.liveKeys, (key.id, key.key) ∈ s.issued

variable {curve ed25519} {s s' start : Ledger} {account : Account}

theorem Counts.issuesOnce (h : s.Counts) : s.IssuesOnce where
  ids :=
    { length_le := s.account.oneTimeKeys.length_le
      decreasing := h.decreasing
      nodup := h.nodup
      le_next := fun key hkey => h.issued_le _ (h.live key hkey) }
  nodup := by
    rw [List.Nodup, List.pairwise_map]
    exact h.issued_decreasing.imp fun hlt heq => absurd heq (UInt32.ne_of_lt hlt).symm
  live := h.live

/-- An account with the same counter, and no keys but with ids and keys that
are there. -/
theorem Counts.of_sublist (h : s.Counts) (hcounted : account.Counted)
    (hnext : account.nextOneTimeKeyId = s.account.nextOneTimeKeyId)
    (honeTime : (account.oneTimeKeys.toList.map fun key => (key.id, key.key)).Sublist
      (s.account.oneTimeKeys.toList.map fun key => (key.id, key.key)))
    (hfallback : (account.liveFallbackKeys.map fun key => (key.id, key.key)).Sublist
      (s.account.liveFallbackKeys.map fun key => (key.id, key.key))) :
    Counts { s with account := account } := by
  have hlive : (account.liveKeys.map fun key => (key.id, key.key)).Sublist
      (s.account.liveKeys.map fun key => (key.id, key.key)) := by
    unfold liveKeys
    rw [List.map_append, List.map_append]
    exact honeTime.append hfallback
  have hids : ∀ keys : List OneTimeKey,
      keys.map (·.id) = (keys.map fun key => (key.id, key.key)).map Prod.fst := by
    intro keys
    rw [List.map_map]
    rfl
  refine ⟨hcounted, ?_, h.issued_decreasing, ?_, ?_, ?_, ?_⟩
  · simp only [hnext, h.next]
  · intro entry hentry
    simp only [hnext]
    exact h.issued_le entry hentry
  · have hdecreasing := h.decreasing
    rw [← List.pairwise_map (R := fun newer older : UInt32 => older < newer), hids] at hdecreasing ⊢
    exact hdecreasing.sublist (honeTime.map _)
  · have hnodup := h.nodup
    rw [hids] at hnodup ⊢
    exact hnodup.sublist (hlive.map _)
  · intro key hkey
    have hmem := hlive.subset (List.mem_map_of_mem (f := fun key => (key.id, key.key)) hkey)
    obtain ⟨old, hold, heq⟩ := List.mem_map.mp hmem
    rw [← heq]
    exact h.live old hold

/-- The next id is a new one. -/
theorem Counts.lt_next (h : s.Counts) (hlt : s.issued.length + 1 < 2 ^ 32) :
    (s.account.nextOneTimeKeyId + 1).toNat = s.issued.length + 1 ∧
      ∀ id, id ≤ s.account.nextOneTimeKeyId → id < s.account.nextOneTimeKeyId + 1 := by
  have hnext : (s.account.nextOneTimeKeyId + 1).toNat = s.issued.length + 1 := by
    rw [UInt32.toNat_add, UInt32.toNat_one, h.next, Nat.mod_eq_of_lt hlt]
  refine ⟨hnext, fun id hid => ?_⟩
  rw [UInt32.le_iff_toNat_le, h.next] at hid
  rw [UInt32.lt_iff_toNat_lt, hnext]
  omega

/-- **A key with the next id**, where the keys of the account are those that
were there and the new one, or some of them. -/
theorem Counts.issue (h : s.Counts) (hlt : s.issued.length + 1 < 2 ^ 32)
    {key : OneTimeKey} (hid : key.id = s.account.nextOneTimeKeyId + 1)
    (hcounted : account.Counted)
    (hnext : account.nextOneTimeKeyId = s.account.nextOneTimeKeyId + 1)
    (hdecreasing : account.oneTimeKeys.toList.Sublist (key :: s.account.oneTimeKeys.toList))
    (hlive : account.liveKeys.Subperm (key :: s.account.liveKeys)) :
    Counts { account := account, issued := (key.id, key.key) :: s.issued } := by
  obtain ⟨hcount, hnew⟩ := h.lt_next hlt
  have hfresh : ∀ old ∈ s.account.liveKeys, old.id < key.id := by
    intro old hold
    rw [hid]
    exact hnew _ (h.issued_le _ (h.live old hold))
  refine ⟨hcounted, ?_, ?_, ?_, ?_, ?_, ?_⟩
  · simp only [hnext, hcount, List.length_cons]
  · refine List.pairwise_cons.mpr ⟨?_, h.issued_decreasing⟩
    intro entry hentry
    simp only [hid]
    exact hnew _ (h.issued_le entry hentry)
  · intro entry hentry
    simp only [hnext]
    rcases List.mem_cons.mp hentry with rfl | hentry
    · exact UInt32.le_of_eq hid
    · exact UInt32.le_of_lt (hnew _ (h.issued_le entry hentry))
  · refine List.Pairwise.sublist hdecreasing (List.pairwise_cons.mpr ⟨?_, h.decreasing⟩)
    intro old hold
    exact hfresh old (List.mem_append_left _ hold)
  · have hnodup : ((key :: s.account.liveKeys).map (·.id)).Nodup := by
      rw [List.map_cons, List.nodup_cons]
      refine ⟨fun hmem => ?_, h.nodup⟩
      obtain ⟨old, hold, heq⟩ := List.mem_map.mp hmem
      exact UInt32.ne_of_lt (hfresh old hold) heq
    obtain ⟨some', hperm, hsub⟩ := hlive
    exact ((hperm.map _).nodup_iff).mp (hnodup.sublist (hsub.map _))
  · intro old hold
    rcases List.mem_cons.mp (List.Subperm.subset hlive hold) with rfl | hold
    · exact List.mem_cons_self
    · exact List.mem_cons_of_mem _ (h.live old hold)

/-! ## What the calls do to the ids -/

/-- A generated one-time key is in front of the others, which may push out
the last of them. -/
theorem Counts.addOneTimeKey (h : s.Counts) (hlt : s.issued.length + 1 < 2 ^ 32)
    (random : FixedBytes CURVE25519_KEY_LENGTH) :
    Counts
      { account := s.account.addOneTimeKey curve random
        issued := (s.account.nextOneTimeKeyId + 1, curve.generateKey random) :: s.issued } := by
  have hkeys : (s.account.addOneTimeKey curve random).oneTimeKeys.toList.Sublist
      ({ id := s.account.nextOneTimeKeyId + 1, published := false
         key := curve.generateKey random } :: s.account.oneTimeKeys.toList) :=
    List.take_sublist _ _
  have hlive : (s.account.addOneTimeKey curve random).liveKeys.Subperm
      ({ id := s.account.nextOneTimeKeyId + 1, published := false
         key := curve.generateKey random } :: s.account.liveKeys) :=
    (hkeys.append_right s.account.liveFallbackKeys).subperm
  have hcounted : (s.account.addOneTimeKey curve random).Counted :=
    ⟨h.counted.prekeys, h.counted.fallbackKeys⟩
  exact h.issue hlt rfl hcounted rfl hkeys hlive

theorem Counts.addOneTimeKeys {random : Bytes} {slices : List (FixedBytes CURVE25519_KEY_LENGTH)}
    {pos : ℕ} {keys : List (UInt32 × Curve25519KeyPair)} (h : s.Counts)
    (hslices : (slices.map Subtype.val).flatten <+: random.drop pos)
    (hkeys : issuedFrom curve random slices.length pos s.account.nextOneTimeKeyId = .ok keys)
    (hlt : (keys ++ s.issued).length < 2 ^ 32) :
    Counts { account := s.account.addOneTimeKeys curve slices, issued := keys ++ s.issued } := by
  induction slices generalizing pos s keys with
  | nil =>
    obtain rfl := Except.ok.inj hkeys
    exact h
  | cons slice slices ih =>
    obtain ⟨hload, hrest⟩ := loadArray_of_slices hslices
    rw [List.length_cons, issuedFrom, hload, Checked.ok_bind] at hkeys
    obtain ⟨later, hlater, hkeys⟩ := Checked.bind_eq_ok.mp hkeys
    obtain rfl := Except.ok.inj hkeys
    rw [List.append_assoc] at hlt ⊢
    have hlt' : s.issued.length + 1 < 2 ^ 32 := by
      rw [List.length_append, List.singleton_append, List.length_cons] at hlt
      omega
    exact ih (h.addOneTimeKey hlt' slice) hrest hlater hlt

/-- A generated fallback key takes the current slot. -/
theorem Counts.generateFallbackKey (h : s.Counts) (hlt : s.issued.length + 1 < 2 ^ 32)
    {key : OneTimeKey} (hid : key.id = s.account.nextOneTimeKeyId + 1)
    (hcounted : account.Counted)
    (hnext : account.nextOneTimeKeyId = s.account.nextOneTimeKeyId + 1)
    (honeTime : account.oneTimeKeys = s.account.oneTimeKeys)
    (hfallback : account.liveFallbackKeys = (key :: s.account.liveFallbackKeys).take 2) :
    Counts { account := account, issued := (key.id, key.key) :: s.issued } := by
  refine h.issue hlt hid hcounted hnext ?_ ?_
  · rw [honeTime]
    exact List.sublist_cons_self _ _
  · unfold liveKeys
    rw [honeTime, hfallback]
    have hsub := (List.Sublist.refl s.account.oneTimeKeys.toList).append
      (List.take_sublist 2 (key :: s.account.liveFallbackKeys))
    exact hsub.subperm.trans List.perm_middle.subperm

/-- What does not touch the keys that are in use. -/
theorem Counts.congr (h : s.Counts) (hcounted : account.Counted)
    (hnext : account.nextOneTimeKeyId = s.account.nextOneTimeKeyId)
    (honeTime : account.oneTimeKeys = s.account.oneTimeKeys)
    (hfallback : account.liveFallbackKeys = s.account.liveFallbackKeys) :
    Counts { s with account := account } :=
  h.of_sublist hcounted hnext (by rw [honeTime]) (by rw [hfallback])

theorem liveFallbackKeys_restored (h : account.Counted) :
    (account.restoredOver .new).liveFallbackKeys = account.liveFallbackKeys := by
  rw [h.restoredOver_new]
  unfold liveFallbackKeys replaced
  rcases h.fallbackKeys with hnum | hnum | hnum
  · simp only [hnum, UInt8.toNat_zero, List.take_zero]
  · have hone : (1 : UInt8) ≥ 1 := by decide
    simp only [hnum, hone, if_true]
    rfl
  · have hone : (2 : UInt8) ≥ 1 := by decide
    have htwo : (2 : UInt8) ≥ 2 := by decide
    simp only [hnum, hone, htwo, if_true]

theorem Counts.removeKey (h : s.Counts) (publicKey : Curve25519PublicKey)
    (hcounted : (s.account.removeKey publicKey).1.Counted) :
    Counts { s with account := (s.account.removeKey publicKey).1 } := by
  unfold Account.removeKey at hcounted ⊢
  split
  · rename_i place hplace
    simp only [hplace] at hcounted
    refine h.of_sublist hcounted rfl ?_ (List.Sublist.refl _)
    exact (List.eraseIdx_sublist _ _).map _
  · split
    · exact h
    · split
      · exact h
      · exact h

theorem Counts.forgetOldFallbackKey (h : s.Counts)
    (hcounted : s.account.forgetOldFallbackKey.Counted) :
    Counts { s with account := s.account.forgetOldFallbackKey } := by
  unfold Account.forgetOldFallbackKey at hcounted ⊢
  by_cases htwo : s.account.numFallbackKeys ≥ 2
  · rw [if_pos htwo] at hcounted ⊢
    refine h.of_sublist hcounted rfl (List.Sublist.refl _) ?_
    have hnum : s.account.numFallbackKeys = 2 :=
      UInt8.le_antisymm h.counted.numFallbackKeys_le htwo
    unfold liveFallbackKeys
    simp only [hnum]
    exact (List.take_sublist 1 [s.account.currentFallbackKey, s.account.prevFallbackKey]).map _
  · rw [if_neg htwo]
    exact h

/-- Publishing changes no id and no key. -/
theorem Counts.markKeysAsPublished (h : s.Counts)
    (hcounted : s.account.markKeysAsPublished.1.Counted) :
    Counts { s with account := s.account.markKeysAsPublished.1 } := by
  refine h.of_sublist hcounted rfl ?_ ?_
  · simp only [Account.markKeysAsPublished, List.map_map]
    exact List.Sublist.refl _
  · simp only [liveFallbackKeys, Account.markKeysAsPublished, List.map_take]
    exact List.Sublist.refl _

/-- A call that issues nothing. -/
theorem Counts.call (h : s.Counts) {request : Call} {reply : Except OlmErrorCode Reply}
    (hcall : s.account.call curve ed25519 request = .ok (account, reply))
    (honeTime : ∀ numberOfKeys random, request ≠ .generateOneTimeKeys numberOfKeys random)
    (hfallback : ∀ random, request ≠ .generateFallbackKey random) :
    Counts { s with account := account } := by
  have hcounted := h.counted.effect (call_effect hcall)
  cases request with
  | generateOneTimeKeys numberOfKeys random => exact absurd rfl (honeTime _ _)
  | generateFallbackKey random => exact absurd rfl (hfallback _)
  | generatePrekey random =>
    obtain ⟨result, hrun⟩ := report_eq_ok hcall
    rcases generatePrekey_exits hrun with ⟨code, rfl, -⟩ | ⟨key, -, -, rfl⟩
    · exact h.congr hcounted rfl rfl rfl
    · exact h.congr hcounted rfl rfl rfl
  | forgetOldPrekey =>
    obtain ⟨rfl, -⟩ := Prod.mk.inj (Except.ok.inj hcall)
    refine h.congr hcounted ?_ ?_ ?_
    all_goals
      unfold forgetOldPrekey
      split
      · rfl
      · rfl
  | markPrekeyAsPublished now =>
    obtain ⟨rfl, -⟩ := Prod.mk.inj (Except.ok.inj hcall)
    refine h.congr hcounted ?_ ?_ ?_
    all_goals
      unfold markPrekeyAsPublished
      split
      · rfl
      · rfl
  | markKeysAsPublished =>
    obtain ⟨rfl, -⟩ := Prod.mk.inj (Except.ok.inj hcall)
    exact h.markKeysAsPublished hcounted
  | removeKey publicKey =>
    obtain ⟨rfl, -⟩ := Prod.mk.inj (Except.ok.inj hcall)
    exact h.removeKey publicKey hcounted
  | forgetOldFallbackKey =>
    obtain ⟨rfl, -⟩ := Prod.mk.inj (Except.ok.inj hcall)
    exact h.forgetOldFallbackKey hcounted
  | lookupKey | lookupPrekey | sign | getLastPrekeyPublishTime | getPrekeySignature
      | getIdentityJson | getUnpublishedPrekeyJson | getOneTimeKeysJson | getPrekeyJson
      | getFallbackKeyJson | getUnpublishedFallbackKeyJson =>
    obtain ⟨code, rfl⟩ := eq_of_getter hcall trivial
    exact h.congr hcounted rfl rfl rfl

/-- **One step**, as long as there are ids left. -/
theorem Counts.step (h : s.Counts) {e : Event} (hlt : s'.issued.length < 2 ^ 32)
    (hrun : Ledger.step curve ed25519 s e = .ok s') : s'.Counts := by
  cases e with
  | reload stale =>
    obtain rfl := Except.ok.inj hrun
    have hread := unpickleAccount_pickle stale (show Account.new.oneTimeKeys = .empty from rfl)
      h.counted.numPrekeys_le h.counted.numFallbackKeys_le
    simp only [hread]
    refine h.congr ?_ rfl rfl (liveFallbackKeys_restored h.counted)
    rw [h.counted.restoredOver_new]
    exact ⟨h.counted.prekeys, h.counted.fallbackKeys⟩
  | call request =>
    obtain ⟨⟨account, reply⟩, hcall, hrun⟩ := Checked.bind_eq_ok.mp hrun
    have hcounted := h.counted.effect (call_effect hcall)
    by_cases hother : (∀ numberOfKeys random, request ≠ .generateOneTimeKeys numberOfKeys random) ∧
        ∀ random, request ≠ .generateFallbackKey random
    · have hcounts := h.call hcall hother.1 hother.2
      cases reply with
      | error code =>
        obtain rfl := Except.ok.inj hrun
        exact hcounts
      | ok reply =>
        obtain ⟨keys, hkeys, hrun⟩ := Checked.bind_eq_ok.mp hrun
        obtain rfl := Except.ok.inj hrun
        have hnone : keys = [] := by
          cases request with
          | generateOneTimeKeys numberOfKeys random => exact absurd rfl (hother.1 _ _)
          | generateFallbackKey random => exact absurd rfl (hother.2 _)
          | _ => exact (Except.ok.inj hkeys).symm
        subst hnone
        exact hcounts
    · cases request with
      | generateOneTimeKeys numberOfKeys random =>
        rcases report_cases hcall with ⟨hgenerate, rfl⟩ | ⟨number, hgenerate, rfl⟩
        · obtain rfl := Except.ok.inj hrun
          rcases generateOneTimeKeys_exits hgenerate with ⟨code, rfl, -⟩ | ⟨_, _, _, _, hresult⟩
          · exact h.congr hcounted rfl rfl rfl
          · cases hresult
        · obtain ⟨keys, hkeys, hrun⟩ := Checked.bind_eq_ok.mp hrun
          obtain rfl := Except.ok.inj hrun
          rcases generateOneTimeKeys_exits hgenerate with
            ⟨_, _, hresult⟩ | ⟨slices, rfl, hslices, rfl, -⟩
          · cases hresult
          · rw [← List.drop_zero (l := random)] at hslices
            exact h.addOneTimeKeys hslices hkeys hlt
      | generateFallbackKey random =>
        rcases report_cases hcall with ⟨hgenerate, rfl⟩ | ⟨number, hgenerate, rfl⟩
        · obtain rfl := Except.ok.inj hrun
          rcases generateFallbackKey_exits hgenerate with ⟨code, rfl, -⟩ | ⟨_, _, hresult, _⟩
          · exact h.congr hcounted rfl rfl rfl
          · cases hresult
        · obtain ⟨keys, hkeys, hrun⟩ := Checked.bind_eq_ok.mp hrun
          obtain rfl := Except.ok.inj hrun
          rcases generateFallbackKey_exits hgenerate with ⟨_, _, hresult⟩ | ⟨key, hkey, -, rfl⟩
          · cases hresult
          · rw [issuedBy, issuedFrom, hkey, Checked.ok_bind] at hkeys
            obtain rfl := Except.ok.inj hkeys
            exact h.generateFallbackKey hlt rfl hcounted rfl rfl
              (take_slots_generate h.counted.fallbackKeys)
      | _ => exact absurd ⟨nofun, nofun⟩ hother

/-! ## Over whole runs -/

/-- What is on record stays there. -/
theorem issued_suffix {e : Event} (hrun : Ledger.step curve ed25519 s e = .ok s') :
    s.issued <:+ s'.issued := by
  cases e with
  | reload stale =>
    obtain rfl := Except.ok.inj hrun
    exact List.suffix_refl _
  | call request =>
    obtain ⟨⟨account, reply⟩, -, hrun⟩ := Checked.bind_eq_ok.mp hrun
    cases reply with
    | error code =>
      obtain rfl := Except.ok.inj hrun
      exact List.suffix_refl _
    | ok reply =>
      obtain ⟨keys, -, hrun⟩ := Checked.bind_eq_ok.mp hrun
      obtain rfl := Except.ok.inj hrun
      exact List.suffix_append _ _

theorem Starts.counts (h : Starts curve ed25519 start) : start.Counts := by
  obtain ⟨random, hnew, hissued⟩ := h
  have hcounted := (Created.newAccount hnew).counted
  obtain ⟨signing, identity, prekey, haccount⟩ := newAccount_eq_some hnew
  have hnone : start.account.liveKeys = [] := by
    rw [haccount]
    rfl
  refine ⟨hcounted, ?_, ?_, ?_, ?_, ?_, ?_⟩
  · rw [hissued, haccount]
    rfl
  · rw [hissued]
    exact .nil
  · rw [hissued]
    exact nofun
  · rw [haccount]
    exact .nil
  · rw [hnone]
    exact .nil
  · rw [hnone]
    exact nofun

/-- **No id is issued twice**, in any run of the calls on an account and of
pickling it, with fewer than `2 ^ 32` keys generated. -/
theorem issuesOnce_of_run (hstart : Starts curve ed25519 start)
    (hrun : Run (step curve ed25519) (fun _ _ => True) start s)
    (hlt : s.issued.length < 2 ^ 32) : s.IssuesOnce := by
  have hcounts : s.issued.length < 2 ^ 32 → s.Counts := by
    refine hrun.invariant (P := fun s => s.issued.length < 2 ^ 32 → s.Counts)
      (fun _ => hstart.counts) ?_
    intro s e s' hs _ hstep hlt'
    have hle := (issued_suffix hstep).length_le
    exact (hs (by omega)).step hlt' hstep
  exact (hcounts hlt).issuesOnce

/-- The account made of bytes that are all 7, before it has issued anything. -/
def sevens : Ledger := { account := Account.sevens, issued := [] }

/-- One one-time key too many, so that the first is pushed out, and one that is
removed; three fallback keys, of which two are kept; a pickle, and another key. -/
def pushedOut : List (Ledger → Event) :=
  (List.range 101).map (fun i _ =>
      .call (.generateOneTimeKeys 1 (List.replicate 32 (UInt8.ofNat i)))) ++
    [fun _ => .call (.removeKey (Curve25519.xor.generateKey ⟨List.replicate 32 50, rfl⟩).publicKey),
      fun _ => .call (.generateFallbackKey (List.replicate 32 201)),
      fun _ => .call (.generateFallbackKey (List.replicate 32 202)),
      fun _ => .call (.generateFallbackKey (List.replicate 32 203)),
      fun _ => .reload fun _ => .zero,
      fun _ => .call (.generateOneTimeKeys 1 (List.replicate 32 204))]

/-- Key 1 is pushed out, key 51 removed, and key 102 the fallback key that was
replaced twice. -/
theorem pushedOut_evaluates :
    Run.Plays (step .xor .accepting) (fun _ _ => True) pushedOut sevens ∧
    (Run.play (step .xor .accepting) pushedOut sevens).issued.length = 105 ∧
    (Run.play (step .xor .accepting) pushedOut sevens).account.liveKeys.map (·.id.toNat) =
      105 :: (List.range' 52 50).reverse ++ (List.range' 2 49).reverse ++ [104, 103] := by
  decide +kernel

/-- The ids of a run in which keys are pushed out, removed and read back. -/
theorem issuesOnce_of_run_pushedOut : ∃ s : Ledger, s.IssuesOnce ∧
    s.account.liveKeys.map (·.id.toNat) =
      105 :: (List.range' 52 50).reverse ++ (List.range' 2 49).reverse ++ [104, 103] := by
  obtain ⟨hplays, hissued, hlive⟩ := pushedOut_evaluates
  have hstart : Starts .xor .accepting sevens := ⟨List.replicate 96 7, Account.newAccount_sevens, rfl⟩
  refine ⟨_, issuesOnce_of_run hstart (hplays.run (fun _ _ _ => trivial) .start) ?_, hlive⟩
  rw [hissued]
  decide

end Ledger

end Olm.Account
