import Olm.Sas.Calls
import Olm.Symbolic

/-!
# Two parties and their short strings

What an object answers is fixed by its history: it derives bytes and codes
from the secret of the latest key that was set since the object was last
initialised, cleared or created, and refuses if there is none
(`History.answers`). Two objects that were given each other's public keys
answer alike, in whatever order the calls came.
-/

namespace Olm

open Base64

namespace OlmSAS

variable {curve : Curve25519} {hashes : Hashes} {sas sas' : OlmSAS}

/-! ## Histories -/

/-- A call that was made, with the object it found and the reply it got. -/
structure Step where
  before : OlmSAS
  call : Call
  reply : Except OlmErrorCode Bytes

/-- The object was initialised, cleared or created by the step. -/
def Step.Resets (step : Step) : Prop :=
  match step.call with
  | .olmSas | .clearSas => True
  | .createSas _ => step.reply = .ok []
  | _ => False

/-- The step set a key of the peer. -/
def Step.Sets (step : Step) : Prop :=
  match step.call with
  | .setTheirKey _ => step.reply = .ok []
  | _ => False

/-- The calls made on an object since it was first initialised, the latest
first, and what they left. -/
inductive History (curve : Curve25519) (hashes : Hashes) : List Step → OlmSAS → Prop
  | olmSas : History curve hashes [] olmSas
  | step {steps : List Step} {sas sas' : OlmSAS} {request : Call}
      {reply : Except OlmErrorCode Bytes} : History curve hashes steps sas →
      sas.call curve hashes request = .ok (sas', reply) →
      History curve hashes (⟨sas, request, reply⟩ :: steps) sas'

/-- `set` is the latest step that set a key, and the object was not reset
after it. -/
def Latest (steps : List Step) (set : Step) : Prop :=
  ∃ since earlier, steps = since ++ set :: earlier ∧ set.Sets ∧
    ∀ step ∈ since, ¬ step.Resets ∧ ¬ step.Sets

/-- The secret that a step computed when it set a key: of the key pair that
it found, and of the first bytes that the text decodes to. -/
def Step.Computes (curve : Curve25519) (set : Step) (secret : Curve25519SharedSecret) : Prop :=
  ∃ (theirKey : Bytes) (theirs : Curve25519PublicKey), set.call = .setTheirKey theirKey ∧
    theirs.val = (decode theirKey).take CURVE25519_KEY_LENGTH ∧
    secret = curve.sharedSecret set.before.curve25519Key theirs

theorem not_latest_nil {set : Step} : ¬ Latest [] set := by
  rintro ⟨since, earlier, h, -⟩
  simp at h

theorem latest_cons {step set : Step} {steps : List Step} :
    Latest (step :: steps) set ↔
      set = step ∧ step.Sets ∨ ¬ step.Resets ∧ ¬ step.Sets ∧ Latest steps set := by
  constructor
  · rintro ⟨since, earlier, h, hsets, hsince⟩
    cases since with
    | nil =>
      cases h
      exact .inl ⟨rfl, hsets⟩
    | cons first since =>
      cases h
      have hfirst := hsince _ List.mem_cons_self
      exact .inr ⟨hfirst.1, hfirst.2, since, earlier, rfl, hsets,
        fun step hstep => hsince step (List.mem_cons_of_mem _ hstep)⟩
  · rintro (⟨rfl, hsets⟩ | ⟨hresets, hsets, since, earlier, rfl, hset, hsince⟩)
    · exact ⟨[], steps, rfl, hsets, by simp⟩
    · refine ⟨step :: since, earlier, rfl, hset, fun step' hstep' => ?_⟩
      obtain rfl | hmem := List.mem_cons.mp hstep'
      · exact ⟨hresets, hsets⟩
      · exact hsince step' hmem

/-- **The flag and the secret**: there is a secret exactly when a key was set
after the last reset, and it is that of the latest. -/
theorem History.set_iff {steps : List Step} (h : History curve hashes steps sas) :
    (sas.theirKeySet = true ↔ ∃ set, Latest steps set) ∧
      ∀ set, Latest steps set → set.Computes curve sas.secret := by
  induction h with
  | olmSas =>
    exact ⟨by simp [not_latest_nil, OlmSAS.olmSas, unset],
      fun set hset => (not_latest_nil hset).elim⟩
  | step _ hcall ih =>
    simp only [latest_cons]
    cases call_effect hcall with
    | olmSas => simp [Step.Resets, Step.Sets, unset]
    | clearSas => simp [Step.Resets, Step.Sets, unset]
    | createSas a ha => simp [Step.Resets, Step.Sets]
    | setTheirKey theirs htheirs =>
      refine ⟨by simp [Step.Resets, Step.Sets], ?_⟩
      rintro set (⟨rfl, -⟩ | ⟨-, hsets, -⟩)
      · exact ⟨_, theirs, rfl, htheirs, rfl⟩
      · exact (hsets rfl).elim
    | getPubkey => simpa [Step.Resets, Step.Sets] using ih
    | generateBytes => simpa [Step.Resets, Step.Sets] using ih
    | calculateMac => simpa [Step.Resets, Step.Sets] using ih
    | fail code hrequest =>
      rename_i request _
      cases request with
      | olmSas => exact (hrequest.1 rfl).elim
      | clearSas => exact (hrequest.2 rfl).elim
      | _ => simpa [Step.Resets, Step.Sets] using ih

/-! ## Exchanging keys -/

/-- The object was last created with `random`, and `since` are the calls
after that. -/
structure Created (steps : List Step) (random : Bytes) (since : List Step) : Prop where
  split : ∃ create earlier, steps = since ++ create :: earlier ∧
    create.call = .createSas random ∧ create.reply = .ok []
  kept : ∀ step ∈ since, ¬ step.Resets

/-- The key that the object handed out after it was created with `random`:
what `olm_sas_get_pubkey` put at the front of some buffer. -/
def Published (steps : List Step) (random pubkey : Bytes) : Prop :=
  ∃ since, Created steps random since ∧ ∃ step ∈ since, ∃ room out,
    step.call = .getPubkey room ∧ step.reply = .ok out ∧ pubkey = out.take pubkeyLength

theorem created_cons {step : Step} {steps since : List Step} {random : Bytes}
    (h : Created (step :: steps) random since) :
    since = [] ∧ step.call = .createSas random ∧ step.reply = .ok [] ∨
      ∃ rest, since = step :: rest ∧ ¬ step.Resets ∧ Created steps random rest := by
  obtain ⟨⟨create, earlier, hsplit, hcall, hreply⟩, hkept⟩ := h
  cases since with
  | nil =>
    cases hsplit
    exact .inl ⟨rfl, hcall, hreply⟩
  | cons first since =>
    cases hsplit
    exact .inr ⟨since, rfl, hkept _ List.mem_cons_self, ⟨⟨create, earlier, rfl, hcall, hreply⟩,
      fun step hstep => hkept step (List.mem_cons_of_mem _ hstep)⟩⟩

/-- **The key pair of a created object** is the one generated from its random
bytes, in every call since. -/
theorem History.key_of_created {steps since : List Step} {random : Bytes}
    (h : History curve hashes steps sas) (hcreated : Created steps random since) :
    ∃ a : FixedBytes CURVE25519_KEY_LENGTH, a.val = random.take CURVE25519_KEY_LENGTH ∧
      sas.curve25519Key = curve.generateKey a ∧
      ∀ step ∈ since, step.before.curve25519Key = curve.generateKey a := by
  induction h generalizing since with
  | olmSas =>
    obtain ⟨create, earlier, hsplit, -⟩ := hcreated.split
    simp at hsplit
  | step _ hcall ih =>
    obtain ⟨rfl, hcreate, hreply⟩ | ⟨rest, rfl, hresets, hrest⟩ := created_cons hcreated
    · subst hcreate hreply
      cases call_effect hcall with
      | createSas a ha => exact ⟨a, ha, rfl, by simp⟩
    · obtain ⟨a, ha, hkey, hsince⟩ := ih hrest
      refine ⟨a, ha, ?_, ?_⟩
      · cases call_effect hcall with
        | olmSas => exact (hresets trivial).elim
        | clearSas => exact (hresets trivial).elim
        | createSas => exact (hresets rfl).elim
        | _ => exact hkey
      · intro step hstep
        obtain rfl | hmem := List.mem_cons.mp hstep
        · exact hkey
        · exact hsince step hmem

/-- What is handed out is the code of the key pair's public key. -/
theorem History.reply_of_getPubkey {steps : List Step} {step : Step} {room out : Bytes}
    (h : History curve hashes steps sas) (hmem : step ∈ steps) (hcall : step.call = .getPubkey room)
    (hreply : step.reply = .ok out) :
    out.take pubkeyLength = encode step.before.curve25519Key.publicKey.val := by
  induction h with
  | olmSas => simp at hmem
  | step _ hrun ih =>
    obtain rfl | hmem := List.mem_cons.mp hmem
    · subst hcall hreply
      cases call_effect hrun with
      | getPubkey => exact take_pubkey _ _
    · exact ih hmem

theorem History.published_eq {steps : List Step} {random pubkey : Bytes}
    (h : History curve hashes steps sas) (hpub : Published steps random pubkey) :
    ∃ a : FixedBytes CURVE25519_KEY_LENGTH, a.val = random.take CURVE25519_KEY_LENGTH ∧
      sas.curve25519Key = curve.generateKey a ∧
      pubkey = encode (curve.generateKey a).publicKey.val := by
  obtain ⟨since, hcreated, step, hstep, room, out, hcall, hreply, rfl⟩ := hpub
  obtain ⟨a, ha, hkey, hsince⟩ := h.key_of_created hcreated
  obtain ⟨create, earlier, hsplit, -⟩ := hcreated.split
  have hmem : step ∈ steps := by
    rw [hsplit]
    exact List.mem_append_left _ hstep
  exact ⟨a, ha, hkey, by rw [h.reply_of_getPubkey hmem hcall hreply, hsince step hstep]⟩

/-- A key is set after the object was created. -/
theorem Created.mem_of_latest {steps since : List Step} {random : Bytes} {set : Step}
    (h : Created steps random since) (hset : Latest steps set) : set ∈ since := by
  induction steps generalizing since with
  | nil => exact (not_latest_nil hset).elim
  | cons step steps ih =>
    obtain ⟨rfl, hcall, hreply⟩ | ⟨rest, rfl, hresets, hrest⟩ := created_cons h
    · obtain ⟨rfl, hsets⟩ | ⟨hresets, -⟩ := latest_cons.mp hset
      · simp [Step.Sets, hcall] at hsets
      · simp [Step.Resets, hcall, hreply] at hresets
    · obtain ⟨rfl, -⟩ | ⟨-, -, hset⟩ := latest_cons.mp hset
      · exact List.mem_cons_self
      · exact List.mem_cons_of_mem _ (ih hrest hset)

/-- The key that a step set. -/
theorem Step.Computes.eq {set : Step} {secret : Curve25519SharedSecret}
    {theirs : Curve25519PublicKey} (h : set.Computes curve secret)
    (hcall : set.call = .setTheirKey (encode theirs.val)) :
    secret = curve.sharedSecret set.before.curve25519Key theirs := by
  obtain ⟨theirKey, theirs', hset, hval, hsecret⟩ := h
  rw [hcall, Call.setTheirKey.injEq] at hset
  rw [← hset, decode_encode, List.take_of_length_le (by simp)] at hval
  rw [hsecret, Subtype.ext hval]

/-! ## The law -/

/-- The object answers with what is derived from `secret`. -/
structure Answers (hashes : Hashes) (sas : OlmSAS) (secret : Curve25519SharedSecret) : Prop where
  generateBytes : ∀ info n, sas.generateBytes hashes info n =
    .ok (sas, some (hashes.hkdfSha256 secret.val none info n).val)
  calculateMac : ∀ (mac : MacFunction) input info room, macLength ≤ room.length →
    ∃ out, mac.calculate hashes sas input info room = .ok (sas, some out) ∧
      out.take macLength = mac.code hashes secret input info

/-- The object has no secret to answer with. -/
structure Refuses (hashes : Hashes) (sas : OlmSAS) : Prop where
  generateBytes : ∀ info n, sas.generateBytes hashes info n = sas.fail .SAS_THEIR_KEY_NOT_SET
  calculateMac : ∀ (mac : MacFunction) input info room, macLength ≤ room.length →
    mac.calculate hashes sas input info room = sas.fail .SAS_THEIR_KEY_NOT_SET

/-- **What an object answers is fixed by its history.** -/
theorem History.answers {steps : List Step} (h : History curve hashes steps sas) :
    (∀ set, Latest steps set → ∃ secret, set.Computes curve secret ∧ sas.Answers hashes secret) ∧
      ((¬ ∃ set, Latest steps set) → sas.Refuses hashes) := by
  obtain ⟨hflag, hsecret⟩ := h.set_iff
  constructor
  · intro set hset
    have htrue := hflag.mpr ⟨set, hset⟩
    exact ⟨sas.secret, hsecret set hset, fun _ _ => generateBytes_of_set htrue,
      fun mac _ _ _ hroom => calculate_of_set mac htrue hroom⟩
  · intro hnone
    have hfalse : sas.theirKeySet = false := by
      rw [← Bool.not_eq_true, hflag]
      exact hnone
    exact ⟨fun _ _ => generateBytes_of_unset hfalse,
      fun mac _ _ _ hroom => calculate_of_unset mac hfalse hroom⟩

/-- **Two objects that were given each other's keys** have one secret. -/
theorem History.agree (hcomm : curve.Commutes) {steps steps' : List Step} {set set' : Step}
    {random random' pubkey pubkey' : Bytes} (h : History curve hashes steps sas)
    (h' : History curve hashes steps' sas') (hpub : Published steps random pubkey)
    (hpub' : Published steps' random' pubkey') (hset : Latest steps set)
    (hset' : Latest steps' set') (hcall : set.call = .setTheirKey pubkey')
    (hcall' : set'.call = .setTheirKey pubkey) :
    ∃ secret, sas.Answers hashes secret ∧ sas'.Answers hashes secret := by
  obtain ⟨secret, hsecret, hanswers⟩ := h.answers.1 set hset
  obtain ⟨secret', hsecret', hanswers'⟩ := h'.answers.1 set' hset'
  have hkey {steps : List Step} {sas : OlmSAS} {set : Step} {random pubkey : Bytes}
      (h : History curve hashes steps sas) (hpub : Published steps random pubkey)
      (hset : Latest steps set) :
      ∃ a, set.before.curve25519Key = curve.generateKey a ∧
        pubkey = encode (curve.generateKey a).publicKey.val := by
    obtain ⟨a, -, hkey, hpubkey⟩ := h.published_eq hpub
    obtain ⟨since, hcreated, -⟩ := hpub
    obtain ⟨a', -, hkey', hsince⟩ := h.key_of_created hcreated
    refine ⟨a, ?_, hpubkey⟩
    rw [hsince set (hcreated.mem_of_latest hset), ← hkey', hkey]
  obtain ⟨a, ha, rfl⟩ := hkey h hpub hset
  obtain ⟨b, hb, rfl⟩ := hkey h' hpub' hset'
  have hsame : secret = secret' := by
    rw [hsecret.eq hcall, hsecret'.eq hcall', ha, hb]
    exact hcomm a b
  subst hsame
  exact ⟨secret, hanswers, hanswers'⟩

/-- A party that creates an object, hands out its key and sets the other's. -/
theorem exists_exchange (curve : Curve25519) (hashes : Hashes) {random : Bytes}
    (h : createSasRandomLength ≤ random.length) :
    ∃ a, ∀ theirs : Curve25519PublicKey, ∃ steps sas set, History curve hashes steps sas ∧
      Published steps random (encode (curve.generateKey a).publicKey.val) ∧ Latest steps set ∧
      set.call = .setTheirKey (encode theirs.val) := by
  obtain ⟨a, -, hcreate⟩ := unset.createSas_of_le curve h
  refine ⟨a, fun theirs => ?_⟩
  let created : OlmSAS :=
    { unset with curve25519Key := curve.generateKey a, theirKeySet := false }
  let room : Bytes := List.replicate pubkeyLength 0
  have hroom : pubkeyLength ≤ room.length := List.length_replicate.ge
  have hcreated : unset.call curve hashes (.createSas random) = .ok (created, .ok []) := by
    rw [call, hcreate, report_some]
  have hpublished : created.call curve hashes (.getPubkey room) = .ok (created,
      .ok (encode created.curve25519Key.publicKey.val ++ room.drop pubkeyLength)) := by
    rw [call, getPubkey_of_le created hroom, report_some]
    rfl
  have hset : created.call curve hashes (.setTheirKey (encode theirs.val)) =
      .ok ({ created with secret := curve.sharedSecret created.curve25519Key theirs,
                          theirKeySet := true }, .ok []) := by
    rw [call, setTheirKey_encode created theirs, report_some]
  refine ⟨_, _, _, .step (.step (.step .olmSas hcreated) hpublished) hset,
    ⟨[_, _], ⟨⟨_, [], rfl, rfl, rfl⟩, ?_⟩, _, List.mem_cons_of_mem _ List.mem_cons_self, room, _,
      rfl, rfl, (take_pubkey created _).symm⟩,
    latest_cons.mpr (.inl ⟨rfl, rfl⟩), rfl⟩
  simp [Step.Resets]

/-- **The law of short authentication strings.** Two objects that were created
and given each other's public keys answer alike; an object answers exactly
when a key was set since its last reset, from the secret of the latest; and
a key that is refused leaves the object as it was but for the error. -/
theorem sas_answers (hashes : Hashes) (hcomm : curve.Commutes) :
    (∀ steps steps' sas sas' set set' random random' pubkey pubkey',
      History curve hashes steps sas → History curve hashes steps' sas' →
      Published steps random pubkey → Published steps' random' pubkey' →
      Latest steps set → Latest steps' set' →
      set.call = .setTheirKey pubkey' → set'.call = .setTheirKey pubkey →
      (∀ info n, ∃ out, sas.generateBytes hashes info n = .ok (sas, some out) ∧
        sas'.generateBytes hashes info n = .ok (sas', some out)) ∧
      ∀ (mac : MacFunction) input info room room', macLength ≤ room.length →
        macLength ≤ room'.length → ∃ out out',
          mac.calculate hashes sas input info room = .ok (sas, some out) ∧
          mac.calculate hashes sas' input info room' = .ok (sas', some out') ∧
          out.take macLength = out'.take macLength) ∧
    (∀ (sas : OlmSAS) random, createSasRandomLength ≤ random.length →
      ∃ sas', sas.createSas curve random = .ok (sas', some ())) ∧
    (∀ (sas : OlmSAS) room, pubkeyLength ≤ room.length →
      ∃ out, sas.getPubkey room = .ok (sas, some out)) ∧
    (∀ steps sas random pubkey, History curve hashes steps sas → Published steps random pubkey →
      ∀ peer : OlmSAS, ∃ peer', peer.setTheirKey curve pubkey = .ok (peer', some ())) ∧
    (∀ steps sas, History curve hashes steps sas →
      (∀ set, Latest steps set →
        ∃ secret, set.Computes curve secret ∧ sas.Answers hashes secret) ∧
      ((¬ ∃ set, Latest steps set) → sas.Refuses hashes)) ∧
    ∀ (sas : OlmSAS) theirKey, ∃ sas' result,
      sas.setTheirKey curve theirKey = .ok (sas', result) ∧
        (result = none → ∃ code, sas' = { sas with lastError := code }) := by
  refine ⟨?_, ?_, ?_, ?_, fun steps sas h => h.answers, ?_⟩
  · intro steps steps' sas sas' set set' random random' pubkey pubkey' h h' hpub hpub' hset hset'
      hcall hcall'
    obtain ⟨secret, hanswers, hanswers'⟩ := h.agree hcomm h' hpub hpub' hset hset' hcall hcall'
    refine ⟨fun info n => ⟨_, hanswers.generateBytes info n, hanswers'.generateBytes info n⟩, ?_⟩
    intro mac input info room room' hroom hroom'
    obtain ⟨out, hout, htake⟩ := hanswers.calculateMac mac input info room hroom
    obtain ⟨out', hout', htake'⟩ := hanswers'.calculateMac mac input info room' hroom'
    exact ⟨out, out', hout, hout', htake.trans htake'.symm⟩
  · intro sas random hlen
    obtain ⟨a, -, hcreate⟩ := sas.createSas_of_le curve hlen
    exact ⟨_, hcreate⟩
  · intro sas room hroom
    exact ⟨_, getPubkey_of_le sas hroom⟩
  · intro steps sas random pubkey h hpub peer
    obtain ⟨a, -, -, rfl⟩ := h.published_eq hpub
    exact ⟨_, setTheirKey_encode peer _⟩
  · intro sas theirKey
    obtain ⟨code, hfail⟩ | ⟨theirs, -, hset⟩ := sas.setTheirKey_outcome curve theirKey
    · exact ⟨_, none, hfail, fun _ => ⟨code, rfl⟩⟩
    · exact ⟨_, some (), hset, nofun⟩

/-- Two parties with exclusive or for Diffie–Hellman. -/
theorem sas_answers_symbolic :
    ∃ steps steps' sas sas' set set' pubkey pubkey',
      History Curve25519.xor Hashes.echoing steps sas ∧
      History Curve25519.xor Hashes.echoing steps' sas' ∧
      Latest steps set ∧ Latest steps' set' ∧ set.call = .setTheirKey pubkey' ∧
      set'.call = .setTheirKey pubkey ∧
      ∃ out, sas.generateBytes Hashes.echoing [1, 2, 3] 6 = .ok (sas, some out) ∧
        sas'.generateBytes Hashes.echoing [1, 2, 3] 6 = .ok (sas', some out) := by
  have hlen (b : UInt8) : createSasRandomLength ≤ (List.replicate 32 b).length :=
    List.length_replicate.ge
  obtain ⟨a, ha⟩ := exists_exchange Curve25519.xor Hashes.echoing (hlen 7)
  obtain ⟨b, hb⟩ := exists_exchange Curve25519.xor Hashes.echoing (hlen 8)
  obtain ⟨steps, sas, set, h, hpub, hset, hcall⟩ := ha (Curve25519.xor.generateKey b).publicKey
  obtain ⟨steps', sas', set', h', hpub', hset', hcall'⟩ :=
    hb (Curve25519.xor.generateKey a).publicKey
  have hagree := (sas_answers Hashes.echoing Curve25519.xor_commutes).1 steps steps' sas
    sas' set set' _ _ _ _ h h' hpub hpub' hset hset' hcall hcall'
  exact ⟨steps, steps', sas, sas', set, set', _, _, h, h', hset, hset', hcall, hcall',
    hagree.1 [1, 2, 3] 6⟩

end OlmSAS

end Olm
