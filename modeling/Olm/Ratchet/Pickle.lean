import Olm.Pickle
import Olm.Ratchet.Sealed

/-!
# Pickling a ratchet

The middle of `src/ratchet.cpp`. The indices of chains and message keys are
`std::uint32_t`, so a ratchet is pickled in full as long as they are below
`2 ^ 32` (`Ratchet.Numbered`), which every call on a ratchet keeps.
-/

namespace Olm

/-! ## The parts -/

/-- `pickle` of an index, a `std::uint32_t`. -/
def pickleIndex (index : ℕ) : Bytes := pickleUInt32 (UInt32.ofNat index)

/-- `unpickle` of an index. -/
def unpickleIndex : Unpickler ℕ :=
  .field UInt32.ofNat (fun _ a => a.toNat) unpickleUInt32

/-- `pickle_length` of a `SharedKey`. -/
def pickleLengthSharedKey (_value : SharedKey) : ℕ := OLM_SHARED_KEY_LENGTH

/-- `pickle_length` of an index. -/
def pickleLengthIndex (index : ℕ) : ℕ := pickleLengthUInt32 (UInt32.ofNat index)

/-- `pickle_length` of a `SenderChain`. -/
def pickleLengthSenderChain (value : SenderChain SharedKey) : ℕ :=
  pickleLengthCurve25519KeyPair value.ratchetKey + pickleLengthSharedKey value.chainKey.key +
    pickleLengthIndex value.chainKey.index

/-- `pickle` of a `SenderChain`. -/
def pickleSenderChain (value : SenderChain SharedKey) : Bytes :=
  pickleCurve25519KeyPair value.ratchetKey ++
    (value.chainKey.key.val ++ pickleIndex value.chainKey.index)

/-- `unpickle` of a `SenderChain`. -/
def unpickleSenderChain : Unpickler (SenderChain SharedKey) :=
  (Unpickler.field (·.ratchetKey) (fun s a => { s with ratchetKey := a })
    unpickleCurve25519KeyPair).andThen
  ((Unpickler.field (·.chainKey.key) (fun s a => { s with chainKey.key := a })
    (unpickleBytes _)).andThen
  (.field (·.chainKey.index) (fun s a => { s with chainKey.index := a }) unpickleIndex))

/-- `pickle_length` of a `ReceiverChain`. -/
def pickleLengthReceiverChain (value : ReceiverChain SharedKey) : ℕ :=
  pickleLengthCurve25519PublicKey value.ratchetKey + pickleLengthSharedKey value.chainKey.key +
    pickleLengthIndex value.chainKey.index

/-- `pickle` of a `ReceiverChain`. -/
def pickleReceiverChain (value : ReceiverChain SharedKey) : Bytes :=
  value.ratchetKey.val ++ (value.chainKey.key.val ++ pickleIndex value.chainKey.index)

/-- `unpickle` of a `ReceiverChain`. -/
def unpickleReceiverChain : Unpickler (ReceiverChain SharedKey) :=
  (Unpickler.field (·.ratchetKey) (fun s a => { s with ratchetKey := a })
    (unpickleBytes _)).andThen
  ((Unpickler.field (·.chainKey.key) (fun s a => { s with chainKey.key := a })
    (unpickleBytes _)).andThen
  (.field (·.chainKey.index) (fun s a => { s with chainKey.index := a }) unpickleIndex))

/-- `pickle_length` of a `SkippedMessageKey`. -/
def pickleLengthSkippedMessageKey (value : SkippedMessageKey SharedKey) : ℕ :=
  pickleLengthCurve25519PublicKey value.ratchetKey + pickleLengthSharedKey value.messageKey.key +
    pickleLengthIndex value.messageKey.index

/-- `pickle` of a `SkippedMessageKey`. -/
def pickleSkippedMessageKey (value : SkippedMessageKey SharedKey) : Bytes :=
  value.ratchetKey.val ++ (value.messageKey.key.val ++ pickleIndex value.messageKey.index)

/-- `unpickle` of a `SkippedMessageKey`. -/
def unpickleSkippedMessageKey : Unpickler (SkippedMessageKey SharedKey) :=
  (Unpickler.field (·.ratchetKey) (fun s a => { s with ratchetKey := a })
    (unpickleBytes _)).andThen
  ((Unpickler.field (·.messageKey.key) (fun s a => { s with messageKey.key := a })
    (unpickleBytes _)).andThen
  (.field (·.messageKey.index) (fun s a => { s with messageKey.index := a }) unpickleIndex))

namespace Ratchet

/-! ## The ratchet -/

/-- `pickle_length`. -/
def pickleLength (ratchet : Ratchet SharedKey) : ℕ :=
  OLM_SHARED_KEY_LENGTH + pickleLengthList pickleLengthSenderChain ratchet.senderChain +
    pickleLengthList pickleLengthReceiverChain ratchet.receiverChains +
    pickleLengthList pickleLengthSkippedMessageKey ratchet.skippedMessageKeys

/-- `pickle`. -/
def pickle (ratchet : Ratchet SharedKey) : Bytes :=
  ratchet.rootKey.val ++ (pickleList pickleSenderChain ratchet.senderChain ++
    (pickleList pickleReceiverChain ratchet.receiverChains ++
    pickleList pickleSkippedMessageKey ratchet.skippedMessageKeys))

/-- What the memory of the lists of a ratchet held past their ends. -/
structure Stale where
  senderChain : ℕ → SenderChain SharedKey
  receiverChains : ℕ → ReceiverChain SharedKey
  skippedMessageKeys : ℕ → SkippedMessageKey SharedKey

/-- `unpickle`. A chain index behind the lists is read and dropped. -/
def unpickle (stale : Stale) (includesChainIndex : Bool) : Unpickler (Ratchet SharedKey) :=
  (Unpickler.field (·.rootKey) (fun s a => { s with rootKey := a }) (unpickleBytes _)).andThen
  ((Unpickler.field (·.senderChain) (fun s a => { s with senderChain := a })
    (unpickleList unpickleSenderChain stale.senderChain)).andThen
  ((Unpickler.field (·.receiverChains) (fun s a => { s with receiverChains := a })
    (unpickleList unpickleReceiverChain stale.receiverChains)).andThen
  ((Unpickler.field (·.skippedMessageKeys) (fun s a => { s with skippedMessageKeys := a })
    (unpickleList unpickleSkippedMessageKey stale.skippedMessageKeys)).andThen
  (.onlyIf (fun _ => includesChainIndex) (.field (fun _ => 0) (fun s _ => s) unpickleUInt32)))))

/-- Memory that was zeroed. -/
def Stale.zero : Stale where
  senderChain _ :=
    { ratchetKey := { publicKey := FixedBytes.zero _, privateKey := FixedBytes.zero _ }
      chainKey := { index := 0, key := FixedBytes.zero _ } }
  receiverChains _ :=
    { ratchetKey := FixedBytes.zero _, chainKey := { index := 0, key := FixedBytes.zero _ } }
  skippedMessageKeys _ :=
    { ratchetKey := FixedBytes.zero _, messageKey := { index := 0, key := FixedBytes.zero _ } }

end Ratchet

/-! ## As many bytes as the length says -/

theorem length_pickleIndex (index : ℕ) : (pickleIndex index).length = pickleLengthIndex index :=
  length_pickleUInt32 _

theorem length_pickleSenderChain (value : SenderChain SharedKey) :
    (pickleSenderChain value).length = pickleLengthSenderChain value := by
  rw [pickleSenderChain, List.length_append, List.length_append, length_pickleCurve25519KeyPair,
    FixedBytes.length_val, length_pickleIndex, ← Nat.add_assoc]
  rfl

theorem length_pickleReceiverChain (value : ReceiverChain SharedKey) :
    (pickleReceiverChain value).length = pickleLengthReceiverChain value := by
  rw [pickleReceiverChain, List.length_append, List.length_append, FixedBytes.length_val,
    FixedBytes.length_val, length_pickleIndex, ← Nat.add_assoc]
  rfl

theorem length_pickleSkippedMessageKey (value : SkippedMessageKey SharedKey) :
    (pickleSkippedMessageKey value).length = pickleLengthSkippedMessageKey value := by
  rw [pickleSkippedMessageKey, List.length_append, List.length_append, FixedBytes.length_val,
    FixedBytes.length_val, length_pickleIndex, ← Nat.add_assoc]
  rfl

theorem Ratchet.length_pickle (ratchet : Ratchet SharedKey) :
    ratchet.pickle.length = ratchet.pickleLength := by
  rw [pickle, pickleLength, List.length_append, List.length_append, List.length_append,
    FixedBytes.length_val, length_pickleList length_pickleSenderChain,
    length_pickleList length_pickleReceiverChain, length_pickleList length_pickleSkippedMessageKey]
  omega

/-! ## What was pickled is unpickled -/

theorem reads_unpickleIndex (old : ℕ) {index : ℕ} (h : index < 2 ^ 32) :
    unpickleIndex.Reads old (pickleIndex index) index := by
  have hreads : unpickleIndex.Reads old (pickleIndex index) (UInt32.ofNat index).toNat :=
    .field _ (reads_unpickleUInt32 _ _)
  rw [UInt32.toNat_ofNat', Nat.mod_eq_of_lt h] at hreads
  exact hreads

theorem reads_unpickleSenderChain (old : SenderChain SharedKey) {value : SenderChain SharedKey}
    (h : value.chainKey.index < 2 ^ 32) :
    unpickleSenderChain.Reads old (pickleSenderChain value) value :=
  (Unpickler.Reads.field _ (reads_unpickleCurve25519KeyPair _ value.ratchetKey)).andThen
    ((Unpickler.Reads.field _ (reads_unpickleBytes _ value.chainKey.key)).andThen
    (.field _ (reads_unpickleIndex _ h)))

theorem reads_unpickleReceiverChain (old : ReceiverChain SharedKey)
    {value : ReceiverChain SharedKey} (h : value.chainKey.index < 2 ^ 32) :
    unpickleReceiverChain.Reads old (pickleReceiverChain value) value :=
  (Unpickler.Reads.field _ (reads_unpickleBytes _ value.ratchetKey)).andThen
    ((Unpickler.Reads.field _ (reads_unpickleBytes _ value.chainKey.key)).andThen
    (.field _ (reads_unpickleIndex _ h)))

theorem reads_unpickleSkippedMessageKey (old : SkippedMessageKey SharedKey)
    {value : SkippedMessageKey SharedKey} (h : value.messageKey.index < 2 ^ 32) :
    unpickleSkippedMessageKey.Reads old (pickleSkippedMessageKey value) value :=
  (Unpickler.Reads.field _ (reads_unpickleBytes _ value.ratchetKey)).andThen
    ((Unpickler.Reads.field _ (reads_unpickleBytes _ value.messageKey.key)).andThen
    (.field _ (reads_unpickleIndex _ h)))

theorem pickleSenderChain_ne_nil (value : SenderChain SharedKey) :
    pickleSenderChain value ≠ [] := by
  refine List.length_pos_iff.mp ?_
  rw [length_pickleSenderChain]
  exact Nat.zero_lt_succ _

theorem pickleReceiverChain_ne_nil (value : ReceiverChain SharedKey) :
    pickleReceiverChain value ≠ [] := by
  refine List.length_pos_iff.mp ?_
  rw [length_pickleReceiverChain]
  exact Nat.zero_lt_succ _

theorem pickleSkippedMessageKey_ne_nil (value : SkippedMessageKey SharedKey) :
    pickleSkippedMessageKey value ≠ [] := by
  refine List.length_pos_iff.mp ?_
  rw [length_pickleSkippedMessageKey]
  exact Nat.zero_lt_succ _

namespace Ratchet

variable {K : Type} {config : RatchetConfig K} {ratchet ratchet' : Ratchet K}

/-- The indices a ratchet holds are `std::uint32_t`. -/
structure Numbered (ratchet : Ratchet K) : Prop where
  senderChain : ∀ chain ∈ ratchet.senderChain.toList, chain.chainKey.index < 2 ^ 32
  receiverChains : ∀ chain ∈ ratchet.receiverChains.toList, chain.chainKey.index < 2 ^ 32
  skippedMessageKeys :
    ∀ skipped ∈ ratchet.skippedMessageKeys.toList, skipped.messageKey.index < 2 ^ 32

/-- **A ratchet that was pickled is unpickled**, over one without chains and
keys. -/
theorem reads_unpickle (stale : Stale) (target : Ratchet SharedKey) {ratchet : Ratchet SharedKey}
    (hsender : target.senderChain = .empty) (hreceivers : target.receiverChains = .empty)
    (hskipped : target.skippedMessageKeys = .empty) (h : ratchet.Numbered) :
    (unpickle stale false).Reads target ratchet.pickle
      { ratchet with lastError := target.lastError } := by
  have hlist : (unpickleList unpickleSkippedMessageKey stale.skippedMessageKeys).Reads
      target.skippedMessageKeys (pickleList pickleSkippedMessageKey ratchet.skippedMessageKeys)
      ratchet.skippedMessageKeys := by
    rw [hskipped]
    exact reads_unpickleList _ pickleSkippedMessageKey_ne_nil (by decide) _
      (fun value hvalue old => reads_unpickleSkippedMessageKey old (h.skippedMessageKeys _ hvalue))
  refine .andThen (.field _ (reads_unpickleBytes _ ratchet.rootKey))
    (.andThen (.field _ (a := ratchet.senderChain) ?_)
    (.andThen (.field _ (a := ratchet.receiverChains) ?_) ?_))
  · rw [hsender]
    exact reads_unpickleList _ pickleSenderChain_ne_nil (by decide) _
      (fun value hvalue old => reads_unpickleSenderChain old (h.senderChain _ hvalue))
  · rw [hreceivers]
    exact reads_unpickleList _ pickleReceiverChain_ne_nil (by decide) _
      (fun value hvalue old => reads_unpickleReceiverChain old (h.receiverChains _ hvalue))
  · -- no chain index follows
    rw [← List.append_nil (pickleList pickleSkippedMessageKey ratchet.skippedMessageKeys)]
    exact .andThen (.field _ hlist) (Unpickler.reads_onlyIf_nil rfl)

end Ratchet

/-! ## What unpickling leaves of the input -/

theorem consumes_unpickleIndex : unpickleIndex.Consumes (Unpickler.skip 4) :=
  .field _ consumes_unpickleUInt32

theorem consumes_unpickleSenderChain : unpickleSenderChain.Consumes (Unpickler.skip 100) :=
  (Unpickler.Consumes.field _ consumes_unpickleCurve25519KeyPair).andThen_skip
    ((Unpickler.Consumes.field _ (consumes_unpickleBytes _)).andThen_skip
    (.field _ consumes_unpickleIndex))

theorem consumes_unpickleReceiverChain : unpickleReceiverChain.Consumes (Unpickler.skip 68) :=
  (Unpickler.Consumes.field _ (consumes_unpickleBytes _)).andThen_skip
    ((Unpickler.Consumes.field _ (consumes_unpickleBytes _)).andThen_skip
    (.field _ consumes_unpickleIndex))

theorem consumes_unpickleSkippedMessageKey :
    unpickleSkippedMessageKey.Consumes (Unpickler.skip 68) :=
  (Unpickler.Consumes.field _ (consumes_unpickleBytes _)).andThen_skip
    ((Unpickler.Consumes.field _ (consumes_unpickleBytes _)).andThen_skip
    (.field _ consumes_unpickleIndex))

/-- What is left after the lists of a ratchet. -/
def skipLists (input : Bytes) : Option Bytes :=
  skipList 100 input >>= fun input => skipList 68 input >>= skipList 68

theorem Ratchet.consumes_unpickle (stale : Stale) :
    (unpickle stale false).Consumes fun input =>
      Unpickler.skip OLM_SHARED_KEY_LENGTH input >>= skipLists :=
  .andThen (.field _ (consumes_unpickleBytes _))
    (.andThen (.field _ (consumes_unpickleList consumes_unpickleSenderChain (by decide) _))
    (.andThen (.field _ (consumes_unpickleList consumes_unpickleReceiverChain (by decide) _))
    (.andThen_onlyIf_false
      (.field _ (consumes_unpickleList consumes_unpickleSkippedMessageKey (by decide) _)))))

/-- With a chain index behind the lists. -/
theorem Ratchet.consumes_unpickle_chainIndex (stale : Stale) :
    (unpickle stale true).Consumes fun input =>
      Unpickler.skip OLM_SHARED_KEY_LENGTH input >>= fun input =>
        skipLists input >>= Unpickler.skip 4 := by
  have hconsumes : (unpickle stale true).Consumes _ :=
    .andThen (.field _ (consumes_unpickleBytes _))
      (.andThen (.field _ (consumes_unpickleList consumes_unpickleSenderChain (by decide) _))
      (.andThen (.field _ (consumes_unpickleList consumes_unpickleReceiverChain (by decide) _))
      (.andThen (.field _ (consumes_unpickleList consumes_unpickleSkippedMessageKey (by decide) _))
      (.onlyIf_true (.field _ consumes_unpickleUInt32)))))
  intro ratchet input
  refine (hconsumes ratchet input).trans ?_
  simp only [skipLists, bind_assoc]

/-! ## What was unpickled is pickled -/

theorem writesBack_unpickleIndex : unpickleIndex.WritesBack pickleIndex :=
  .field writesBack_unpickleUInt32 fun _ _ => UInt32.ofNat_toNat

theorem writesBack_unpickleSenderChain : unpickleSenderChain.WritesBack pickleSenderChain :=
  (Unpickler.WritesBack.field writesBack_unpickleCurve25519KeyPair fun _ _ => rfl).andThen
    ((Unpickler.WritesBack.field (writesBack_unpickleBytes _) fun _ _ => rfl).andThen
    (.field writesBack_unpickleIndex fun _ _ => rfl) fun _ => .field _ fun _ _ h => h)
    fun _ => .andThen (.field _ fun _ _ h => h) (.field _ fun _ _ h => h)

theorem writesBack_unpickleReceiverChain :
    unpickleReceiverChain.WritesBack pickleReceiverChain :=
  (Unpickler.WritesBack.field (writesBack_unpickleBytes _) fun _ _ => rfl).andThen
    ((Unpickler.WritesBack.field (writesBack_unpickleBytes _) fun _ _ => rfl).andThen
    (.field writesBack_unpickleIndex fun _ _ => rfl) fun _ => .field _ fun _ _ h => h)
    fun _ => .andThen (.field _ fun _ _ h => h) (.field _ fun _ _ h => h)

theorem writesBack_unpickleSkippedMessageKey :
    unpickleSkippedMessageKey.WritesBack pickleSkippedMessageKey :=
  (Unpickler.WritesBack.field (writesBack_unpickleBytes _) fun _ _ => rfl).andThen
    ((Unpickler.WritesBack.field (writesBack_unpickleBytes _) fun _ _ => rfl).andThen
    (.field writesBack_unpickleIndex fun _ _ => rfl) fun _ => .field _ fun _ _ h => h)
    fun _ => .andThen (.field _ fun _ _ h => h) (.field _ fun _ _ h => h)

namespace Ratchet

variable {K : Type} {config : RatchetConfig K} {ratchet ratchet' : Ratchet K}

/-! ## Calls keep the indices in range -/

theorem numbered_new (zeroKey : K) : (Ratchet.new zeroKey).Numbered where
  senderChain _ h := nomatch h
  receiverChains _ h := nomatch h
  skippedMessageKeys _ h := nomatch h

/-- It depends on the chains and the skipped keys only. -/
theorem Numbered.congr (h : ratchet.Numbered) (hsender : ratchet'.senderChain = ratchet.senderChain)
    (hreceivers : ratchet'.receiverChains = ratchet.receiverChains)
    (hskipped : ratchet'.skippedMessageKeys = ratchet.skippedMessageKeys) : ratchet'.Numbered where
  senderChain := by rw [hsender]; exact h.senderChain
  receiverChains := by rw [hreceivers]; exact h.receiverChains
  skippedMessageKeys := by rw [hskipped]; exact h.skippedMessageKeys

theorem Numbered.initialiseAsAlice (h : ratchet.Numbered) (sharedSecret : Bytes)
    (ourRatchetKey : Curve25519KeyPair) :
    (ratchet.initialiseAsAlice config sharedSecret ourRatchetKey).Numbered := by
  refine ⟨?_, h.receiverChains, h.skippedMessageKeys⟩
  intro chain hchain
  rcases BoundedList.mem_push hchain with rfl | hold
  · exact Nat.two_pow_pos 32
  · exact h.senderChain chain hold

theorem Numbered.initialiseAsBob (h : ratchet.Numbered) (sharedSecret : Bytes)
    (theirRatchetKey : Curve25519PublicKey) :
    (ratchet.initialiseAsBob config sharedSecret theirRatchetKey).Numbered := by
  refine ⟨h.senderChain, ?_, h.skippedMessageKeys⟩
  intro chain hchain
  rcases BoundedList.mem_push hchain with rfl | hold
  · exact Nat.two_pow_pos 32
  · exact h.receiverChains chain hold

theorem advanceChainKey_index_lt (chainKey : ChainKey K) :
    (advanceChainKey config chainKey).index < 2 ^ 32 := Nat.mod_lt _ (Nat.two_pow_pos 32)

theorem Numbered.encrypt {plaintext random buf : Bytes} {output maxOutputLength : ℕ}
    {result : Option (Bytes × ℕ)} (h : ratchet.Numbered)
    (hrun : ratchet.encrypt config plaintext random buf output maxOutputLength =
      .ok (ratchet', result)) : ratchet'.Numbered := by
  obtain ⟨hreceivers, hskipped, -⟩ := frame_of_encrypt hrun
  refine ⟨?_, by rw [hreceivers]; exact h.receiverChains,
    by rw [hskipped]; exact h.skippedMessageKeys⟩
  rcases encrypt_exits hrun with ⟨-, code, -, rfl⟩ | ⟨started, senderChain, _, hstart, rfl, -, -⟩
  · exact h.senderChain
  · intro chain hchain
    rcases List.mem_or_eq_of_mem_set hchain with hold | rfl
    · rcases startSenderChain_exits hstart with ⟨-, -, rfl⟩ | ⟨-, hindex, rootKey, rfl⟩
      · exact h.senderChain chain hold
      · rcases BoundedList.mem_push hold with rfl | hold
        · rw [hindex]
          exact Nat.two_pow_pos 32
        · exact h.senderChain chain hold
    · exact advanceChainKey_index_lt _

/-- The loop that stores skipped keys. -/
theorem storeSkippedMessageKeys_lt {ratchetKey : Curve25519PublicKey} {counter rounds : ℕ}
    {chainKey : ChainKey K} {skipped : BoundedList (SkippedMessageKey K) MAX_SKIPPED_MESSAGE_KEYS}
    (hindex : chainKey.index < 2 ^ 32)
    (hskipped : ∀ key ∈ skipped.toList, key.messageKey.index < 2 ^ 32) :
    ∀ key ∈ (storeSkippedMessageKeys config ratchetKey counter rounds chainKey skipped).2.toList,
      key.messageKey.index < 2 ^ 32 := by
  induction rounds generalizing chainKey skipped with
  | zero => exact hskipped
  | succ rounds ih =>
    unfold storeSkippedMessageKeys
    split
    · refine ih (advanceChainKey_index_lt _) ?_
      intro key hkey
      rcases BoundedList.mem_push hkey with rfl | hold
      · exact hindex
      · exact hskipped key hold
    · exact hskipped

theorem Numbered.advanceReceiverChain (h : ratchet.Numbered) (place : ℕ) {chain : ReceiverChain K}
    (hchain : chain.chainKey.index < 2 ^ 32) (counter : ℕ) :
    (ratchet.advanceReceiverChain config place chain counter).Numbered := by
  refine ⟨h.senderChain, ?_, storeSkippedMessageKeys_lt hchain h.skippedMessageKeys⟩
  intro other hother
  rcases List.mem_or_eq_of_mem_set hother with hold | rfl
  · exact h.receiverChains other hold
  · exact advanceChainKey_index_lt _

theorem Numbered.startReceiverChain (h : ratchet.Numbered) (senderChain : SenderChain K)
    (ratchetKey : Curve25519PublicKey) :
    (ratchet.startReceiverChain config senderChain ratchetKey).1.Numbered := by
  refine ⟨?_, ?_, h.skippedMessageKeys⟩
  · intro chain hchain
    exact h.senderChain chain (List.mem_of_mem_eraseIdx hchain)
  · intro chain hchain
    rcases BoundedList.mem_push hchain with rfl | hold
    · exact Nat.two_pow_pos 32
    · exact h.receiverChains chain hold

theorem Numbered.decrypt {buf : Bytes} {input inputLength maxPlaintextLength : ℕ}
    {isSequential : Bool} {result : Option Bytes} (h : ratchet.Numbered)
    (hrun : ratchet.decrypt config buf input inputLength maxPlaintextLength isSequential =
      .ok (ratchet', result)) : ratchet'.Numbered := by
  rcases decrypt_outcome hrun with ⟨-, hsame⟩ | ⟨reader, ratchetKey, -, -, houtcome⟩
  · rw [hsame]
    exact h.congr rfl rfl rfl
  · cases houtcome with
    | notAcknowledged | newChainGap | newChainMac | outOfOrder | alreadyDecrypted | existingGap |
        existingMac => exact h.congr rfl rfl rfl
    | newChain senderChain rest plaintext hnew hsender hgap hverify =>
      exact (h.startReceiverChain senderChain ratchetKey).advanceReceiverChain 0
        (Nat.two_pow_pos 32) _
    | skipped place chain keyPlace plaintext hplace hkey hbehind hskipped =>
      refine ⟨h.senderChain, h.receiverChains, ?_⟩
      intro key hmem
      exact h.skippedMessageKeys key (List.mem_of_mem_eraseIdx hmem)
    | existing place chain plaintext hplace hkey hsequential hahead hgap hverify =>
      exact h.advanceReceiverChain place
        (h.receiverChains chain (List.mem_of_getElem? hplace)) _

end Ratchet

end Olm
