import Olm.Common.CascadeTerms
import Olm.Group.Views

/-!
# What captured group ratchets give away

The parts of a Megolm ratchet as terms of the parts that the sender started
with. Someone who captures any of the ratchets that are in the memory of the
network, the sender's among them, derives the parts of the messages from the
first of these on, and of no message before.
-/

namespace Olm

open Cascade GroupConversation

namespace Megolm

/-- The parts of the ratchet `k` steps on, as terms. -/
def partTerms (start : Megolm) (k : ℕ) : Fin MEGOLM_RATCHET_PARTS → Term (Fin MEGOLM_RATCHET_PARTS) :=
  terms level start.counter.toNat k

/-- They are what the code computes. -/
theorem data_eq_eval (hmac : Bytes → Bytes → FixedBytes SHA256_OUTPUT_LENGTH) (start : Megolm)
    (k : ℕ) (part : Fin MEGOLM_RATCHET_PARTS) :
    ((advance hmac)^[k] start).data part =
      (partTerms start k part).eval (partHash hmac) start.data := by
  rw [iterate_advance]
  exact (eval_terms _ _ k part).symm

/-- How many steps a ratchet is from the start, by its counter. -/
def stepsFrom (start m : Megolm) : ℕ := (m.counter - start.counter).toNat

/-- What the parts of some ratchets are, as terms. -/
def heldTerms (start : Megolm) (captured : Set Megolm) : Set (Term (Fin MEGOLM_RATCHET_PARTS)) :=
  {t | ∃ m ∈ captured, ∃ part, t = partTerms start (stepsFrom start m) part}

/-- **Some ratchets expose another**, if all its parts can be derived from
theirs. -/
def Exposes (start : Megolm) (captured : Set Megolm) (k : ℕ) : Prop :=
  ∀ part, Derivable Term.Leads (heldTerms start captured) (partTerms start k part)

/-- The first of them and all that come after it. -/
theorem exposes_iff (start : Megolm) (captured : Set Megolm) (k : ℕ) :
    start.Exposes captured k ↔ ∃ m ∈ captured, stepsFrom start m ≤ k := by
  have hheld : start.heldTerms captured =
      held level start.counter.toNat {steps | ∃ m ∈ captured, steps = stepsFrom start m} := by
    ext t
    constructor
    · rintro ⟨m, hm, part, rfl⟩
      exact ⟨_, ⟨m, hm, rfl⟩, part, rfl⟩
    · rintro ⟨_, ⟨m, hm, rfl⟩, part, rfl⟩
      exact ⟨m, hm, part, rfl⟩
  have htop : ∀ part : Fin MEGOLM_RATCHET_PARTS, part ≤ 3 := by decide
  rw [Exposes, hheld]
  refine (derivable_all_iff htop).trans ?_
  constructor
  · rintro ⟨_, ⟨m, hm, rfl⟩, hle⟩
    exact ⟨m, hm, hle⟩
  · rintro ⟨m, hm, hle⟩
    exact ⟨_, ⟨m, hm, rfl⟩, hle⟩

end Megolm

namespace GroupNetwork

variable {prims : GroupPrimitives} {start : OutboundGroupSession} {n : GroupNetwork}

/-- The ratchets in the memory of the sender and the receivers. -/
def ratchets (n : GroupNetwork) : Set Megolm :=
  {m | m = n.outbound.ratchet ∨
    ∃ holder ∈ n.holders, m = holder.session.initialRatchet ∨ m = holder.session.latestRatchet}

/-- Each is some way on from where the sender started. -/
theorem Follows.eq_ratchetAfter (h : n.Follows prims start) {m : Megolm} (hm : m ∈ n.ratchets) :
    ∃ k < 2 ^ 31, m = ratchetAfter prims start k := by
  rcases hm with rfl | ⟨holder, hmem, hratchet⟩
  · exact ⟨_, h.few, h.ratchet⟩
  · obtain ⟨first, -, hholds⟩ := h.holders holder hmem
    rcases hratchet with rfl | rfl
    · exact ⟨first, hholds.lt, hholds.initial⟩
    · obtain ⟨l, -, hl, hlatest⟩ := hholds.latest
      exact ⟨l, hl, hlatest⟩

theorem stepsFrom_ratchetAfter {k : ℕ} (hk : k < 2 ^ 31) :
    Megolm.stepsFrom start.ratchet (ratchetAfter prims start k) = k := by
  rw [Megolm.stepsFrom, counter_ratchetAfter, UInt32.add_comm, UInt32.add_sub_cancel,
    UInt32.toNat_ofNat']
  omega

/-- **What captured memory exposes of a group.** In every run, for any of the
ratchets in memory: they hold what their terms stand for, and expose a
message that was sent if one of them is not past it. The sender's own
ratchet is past every message it sent. -/
theorem exposes_iff_of_run (haes : prims.aes.Inverts) (haccepts : prims.ed25519.Accepts)
    (hsigning : ∃ random, start.signingKey = prims.ed25519.generateKey random)
    (hrun : Run (GroupNetwork.step prims) (Assumed prims start) (alone start) n)
    {captured : Set Megolm} (hcaptured : captured ⊆ n.ratchets) :
    (∀ m ∈ captured, ∀ part, m.data part =
      (start.ratchet.partTerms (Megolm.stepsFrom start.ratchet m) part).eval
        (Megolm.partHash prims.hashes.hmacSha256) start.ratchet.data) ∧
    ∀ k sent, n.sent[k]? = some sent →
      (∃ m, GroupSealed prims start.signingKey.publicKey m sent.plaintext sent.message ∧
        ∀ part, m.data part = (start.ratchet.partTerms k part).eval
          (Megolm.partHash prims.hashes.hmacSha256) start.ratchet.data) ∧
      (start.ratchet.Exposes captured k ↔
        ∃ m ∈ captured, Megolm.stepsFrom start.ratchet m ≤ k) ∧
      k < Megolm.stepsFrom start.ratchet n.outbound.ratchet := by
  have hfollows := follows_of_run haes haccepts hsigning hrun
  refine ⟨fun m hm part => ?_, fun k sent hsent => ⟨?_, Megolm.exposes_iff _ _ _, ?_⟩⟩
  · obtain ⟨k, hk, rfl⟩ := hfollows.eq_ratchetAfter (hcaptured hm)
    rw [stepsFrom_ratchetAfter hk]
    exact Megolm.data_eq_eval _ _ k part
  · exact ⟨_, hfollows.sealed k sent hsent, Megolm.data_eq_eval _ _ k⟩
  · rw [hfollows.ratchet, stepsFrom_ratchetAfter hfollows.few]
    exact (List.getElem?_eq_some_iff.mp hsent).1

/-- After that run no memory exposes the first message, and Bob's exposes the second. -/
theorem exposes_iff_of_run_passedOn : ∃ (start : OutboundGroupSession) (n : GroupNetwork),
    n.sent.map (·.plaintext) = [[1], [2], [3], [4]] ∧
    ¬ start.ratchet.Exposes n.ratchets 0 ∧ start.ratchet.Exposes n.ratchets 1 := by
  obtain ⟨start, n, hinit, -, hrun, hshows⟩ := exists_passedOn
  obtain ⟨first, hfirst, -⟩ := List.exists_getElem?_of_map hshows.plaintexts (i := 0) rfl
  obtain ⟨second, hsecond, -⟩ := List.exists_getElem?_of_map hshows.plaintexts (i := 1) rfl
  obtain ⟨-, hexposes⟩ := exposes_iff_of_run Aes256.identity_inverts Ed25519.accepting_accepts
    (OutboundGroupSession.signingKey_of_init hinit) hrun
    (show n.ratchets ⊆ n.ratchets from subset_rfl)
  obtain ⟨-, hzero, hsender⟩ := hexposes 0 first hfirst
  obtain ⟨-, hone, -⟩ := hexposes 1 second hsecond
  refine ⟨start, n, hshows.plaintexts, ?_, ?_⟩
  · rw [hzero]
    rintro ⟨m, rfl | ⟨holder, hmem, hratchet⟩, hle⟩
    · omega
    · -- no receiver goes back behind the second message
      obtain ⟨i, hi⟩ := List.getElem?_of_mem hmem
      obtain ⟨reach, hreach, -, hholds⟩ := hshows.holders.exists_getElem? hi
      have hfrom : 1 ≤ reach.first := by
        have hreach := List.mem_of_getElem? hreach
        rcases List.mem_pair.mp hreach with rfl | rfl
        · decide
        · decide
      obtain ⟨l, hl, hlt, hlatest⟩ := hholds.latest
      rcases hratchet with rfl | rfl
      · rw [hholds.initial, stepsFrom_ratchetAfter hholds.lt] at hle
        omega
      · rw [hlatest, stepsFrom_ratchetAfter hlt] at hle
        omega
  · obtain ⟨bob, hbob, -, hholds⟩ := hshows.holders.flip.exists_getElem? (i := 0) rfl
    rw [hone]
    refine ⟨_, .inr ⟨bob, List.mem_of_getElem? hbob, .inl rfl⟩, ?_⟩
    rw [hholds.initial, stepsFrom_ratchetAfter (by decide)]

end GroupNetwork

end Olm
