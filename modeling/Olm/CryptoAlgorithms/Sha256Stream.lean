import Olm.Common.Blocks
import Olm.CryptoAlgorithms.Sha256

/-!
# What a SHA-256 context computes

A context that was given some bytes, in whatever pieces, represents their
concatenation (`Ctx.Represents`): the blocks that are complete have gone
through `sha256_transform`, and the rest waits at the front of `data`. So
`sha256_final` gives the hash of the padded concatenation. All this is for
pieces of less than `2 ^ 32` bytes: `sha256_update` does not return from a
longer one.
-/

namespace Olm

namespace Sha256

open Blocks

/-- The state and the rest of a block, after some bytes. -/
def tray (data : Bytes) : Tray State UInt8 := feed 64 transform { state := initialState, waiting := [] } data

/-- The padding of a message of `length` bytes. -/
def padding (length : ℕ) : Bytes :=
  0x80 :: List.replicate ((119 - length % 64) % 64) 0 ++ lengthBytes (UInt64.ofNat (8 * length))

/-- **SHA-256**: the padded message goes through the block function. -/
def hash (data : Bytes) : FixedBytes SHA256_OUTPUT_LENGTH :=
  hashBytes (tray (data ++ padding data.length)).state

@[simp] theorem lengthBytes_length (bitlen : UInt64) : (lengthBytes bitlen).length = 8 := by
  simp [lengthBytes]

theorem tray_append (data data' : Bytes) : tray (data ++ data') = feed 64 transform (tray data) data' :=
  feed_append _ _

theorem tray_waiting_length (data : Bytes) : (tray data).waiting.length = data.length % 64 :=
  feed_waiting (by omega) _ _

/-- **The padded message is whole blocks**, and they are hashed in order. -/
theorem hash_eq_foldl {data : Bytes} {blocks : List Bytes} (hblocks : ∀ block ∈ blocks, block.length = 64)
    (hdata : blocks.flatten = data ++ padding data.length) :
    hash data = hashBytes (blocks.foldl transform initialState) := by
  rw [hash, ← hdata, tray, feed_flatten (by omega) _ hblocks]

/-! ## Contexts -/

/-- **What a context stands for.** -/
structure Ctx.Represents (ctx : Ctx) (data : Bytes) : Prop where
  state : ctx.state = (tray data).state
  waiting : ctx.data.val.take ctx.datalen.toNat = (tray data).waiting
  datalen : ctx.datalen.toNat = data.length % 64
  bitlen : ctx.bitlen.toNat = 512 * (data.length / 64) % 2 ^ 64

theorem init_represents (ctx : Ctx) : (init ctx).Represents [] := ⟨rfl, rfl, rfl, rfl⟩

variable {ctx : Ctx} {data : Bytes}

/-- A write into the array replaces what it covers. -/
theorem writeData_append (ctx : Ctx) {pre old post : Bytes} (new : Bytes)
    (hdata : ctx.data.val = pre ++ (old ++ post)) (hlength : new.length = old.length) :
    ∃ data', writeData ctx pre.length new = .ok data' ∧ data'.val = pre ++ (new ++ post) := by
  have hall : (pre ++ (new ++ post)).length = 64 := by
    rw [← ctx.data.property, hdata, List.length_append, List.length_append, List.length_append,
      List.length_append, hlength]
  refine ⟨⟨_, hall⟩, ?_, rfl⟩
  rw [writeData, hdata, writeAt_append _ _ hlength, Checked.ok_bind]
  exact loadArray_val (⟨_, hall⟩ : FixedBytes 64)

section Represents

variable (h : ctx.Represents data)

include h

theorem Ctx.Represents.datalen_lt : ctx.datalen.toNat < 64 := by
  rw [h.datalen]
  omega

/-- The array begins with what waits. -/
theorem Ctx.Represents.data_eq :
    ctx.data.val = (tray data).waiting ++ ctx.data.val.drop ctx.datalen.toNat := by
  rw [← h.waiting, List.take_append_drop]

theorem Ctx.Represents.waiting_length : (tray data).waiting.length = ctx.datalen.toNat := by
  rw [tray_waiting_length, h.datalen]

/-- A write behind what waits. -/
theorem Ctx.Represents.writeData_waiting (new : Bytes)
    (hroom : ctx.datalen.toNat + new.length ≤ 64) :
    ∃ data', writeData ctx ctx.datalen.toNat new = .ok data' ∧
      data'.val = (tray data).waiting ++ (new ++ ctx.data.val.drop (ctx.datalen.toNat + new.length)) := by
  have hsplit : ctx.data.val = (tray data).waiting ++
      ((ctx.data.val.drop ctx.datalen.toNat).take new.length ++
        ctx.data.val.drop (ctx.datalen.toNat + new.length)) := by
    rw [← List.drop_drop, List.take_append_drop]
    exact h.data_eq
  rw [← h.waiting_length]
  rw [← h.waiting_length] at hsplit hroom
  refine writeData_append ctx new hsplit ?_
  rw [List.length_take, List.length_drop, ctx.data.property]
  omega

/-! ## Updates -/

/-- **One byte more.** -/
theorem Ctx.Represents.put (byte : UInt8) :
    ∃ block, writeData ctx ctx.datalen.toNat [byte] = .ok block ∧
      Ctx.Represents
        (if ctx.datalen + 1 = 64 then
          { data := block, datalen := 0, bitlen := ctx.bitlen + 512
            state := transform ctx.state block.val }
        else { ctx with data := block, datalen := ctx.datalen + 1 }) (data ++ [byte]) := by
  have hlt := h.datalen_lt
  obtain ⟨block, hwrite, hblock⟩ := h.writeData_waiting [byte]
    (by rw [List.length_singleton]; omega)
  refine ⟨block, hwrite, ?_⟩
  have hput : tray (data ++ [byte]) = Blocks.put 64 transform (tray data) byte := tray_append _ _
  have hnext : (ctx.datalen + 1).toNat = ctx.datalen.toNat + 1 := by
    rw [UInt32.toNat_add, show (1 : UInt32).toNat = 1 from rfl]
    omega
  have hfull : ctx.datalen + 1 = 64 ↔ (tray data).waiting.length + 1 = 64 := by
    rw [h.waiting_length, ← hnext, ← UInt32.toNat_inj]
    rfl
  have hdatalen := h.datalen
  rw [Blocks.put] at hput
  by_cases hlast : ctx.datalen + 1 = 64
  · rw [if_pos (hfull.mp hlast)] at hput
    rw [if_pos hlast]
    have hwaiting := hfull.mp hlast
    rw [h.waiting_length] at hwaiting
    have hwhole : (data.length + 1) % 64 = 0 := by omega
    -- the block is complete
    have hnone : ctx.data.val.drop (ctx.datalen.toNat + [byte].length) = [] :=
      List.drop_eq_nil_of_le (by rw [ctx.data.property, List.length_singleton]; omega)
    rw [hnone, List.append_nil] at hblock
    refine ⟨?_, ?_, ?_, ?_⟩
    · rw [hput, h.state, hblock]
    · rw [hput]
      exact List.take_zero
    · rw [List.length_append, List.length_singleton, hwhole]
      rfl
    · rw [UInt64.toNat_add, h.bitlen, List.length_append, List.length_singleton,
        show (512 : UInt64).toNat = 512 from rfl]
      omega
  · rw [if_neg (fun heq => hlast (hfull.mpr heq))] at hput
    rw [if_neg hlast]
    have hwaiting : ¬ ctx.datalen.toNat + 1 = 64 := by
      rw [← h.waiting_length]
      exact fun heq => hlast (hfull.mpr heq)
    refine ⟨?_, ?_, ?_, ?_⟩
    · rw [hput]
      exact h.state
    · rw [hput]
      show block.val.take (ctx.datalen + 1).toNat = _
      rw [hnext, hblock, ← List.append_assoc, List.take_left']
      rw [List.length_append, h.waiting_length, List.length_singleton]
    · rw [List.length_append, List.length_singleton]
      show (ctx.datalen + 1).toNat = _
      omega
    · rw [List.length_append, List.length_singleton]
      show ctx.bitlen.toNat = _
      rw [h.bitlen]
      omega

/-- **The loop goes over all the bytes**, if its counter does not wrap around. -/
theorem Ctx.Represents.updateLoop (pre post : Bytes) (hlength : (pre ++ post).length < 2 ^ 32) :
    ∃ ctx', Sha256.updateLoop (pre ++ post) post.length (UInt32.ofNat pre.length) ctx = .ok ctx' ∧
      ctx'.Represents (data ++ post) := by
  induction post generalizing ctx data pre with
  | nil =>
    rw [List.length_append] at hlength
    refine ⟨ctx, ?_, by rwa [List.append_nil]⟩
    rw [List.append_nil, List.length_nil, Sha256.updateLoop,
      UInt32.toNat_ofNat_of_lt' (by rw [UInt32.size]; omega), if_neg (lt_irrefl _)]
  | cons byte post ih =>
    have hpre : pre.length < 2 ^ 32 := by
      rw [List.length_append] at hlength
      omega
    have hi : (UInt32.ofNat pre.length).toNat = pre.length :=
      UInt32.toNat_ofNat_of_lt' (by rw [UInt32.size]; omega)
    have hin : pre.length < (pre ++ byte :: post).length := by
      rw [List.length_append, List.length_cons]
      omega
    obtain ⟨block, hwrite, hput⟩ := h.put byte
    have hread : readByte (pre ++ byte :: post) pre.length = .ok byte := by
      rw [readByte_of_lt hin]
      congr 1
      simp
    have hsame : pre ++ byte :: post = (pre ++ [byte]) ++ post := by simp
    obtain ⟨ctx', hrest, hctx'⟩ := ih hput (pre ++ [byte]) (hsame ▸ hlength)
    rw [← hsame, List.length_append, List.length_singleton, UInt32.ofNat_add] at hrest
    refine ⟨ctx', ?_, by rwa [List.append_assoc] at hctx'⟩
    rw [List.length_cons, Sha256.updateLoop, hi, if_pos hin, hread, Checked.ok_bind, hwrite,
      Checked.ok_bind]
    exact hrest

/-- **`sha256_update` takes in a piece**, of less than `2 ^ 32` bytes. -/
theorem Ctx.Represents.update {piece : Bytes} (hlength : piece.length < 2 ^ 32) :
    ∃ ctx', Sha256.update ctx piece = .ok ctx' ∧ ctx'.Represents (data ++ piece) :=
  h.updateLoop [] piece hlength

/-- From a longer one it does not return, however long it goes on. -/
theorem Ctx.Represents.updateLoop_diverges {piece : Bytes} (hlength : 2 ^ 32 ≤ piece.length)
    (fuel : ℕ) (i : UInt32) :
    Sha256.updateLoop piece fuel i ctx = .error .diverges := by
  have hi : ∀ i : UInt32, i.toNat < piece.length := fun i => lt_of_lt_of_le i.toNat_lt hlength
  induction fuel generalizing ctx data i with
  | zero => rw [Sha256.updateLoop, if_pos (hi i)]
  | succ fuel ih =>
    have hin := hi i
    obtain ⟨block, hwrite, hput⟩ := h.put piece[i.toNat]
    rw [Sha256.updateLoop, if_pos hin, readByte_of_lt hin, Checked.ok_bind, hwrite,
      Checked.ok_bind]
    exact ih hput _

/-! ## The end -/

/-- The length in bits that `sha256_final` arrives at. -/
theorem Ctx.Represents.bitlen_eq :
    ctx.bitlen + (ctx.datalen * 8).toUInt64 = UInt64.ofNat (8 * data.length) := by
  have hdatalen := h.datalen
  have hlt := h.datalen_lt
  apply UInt64.toNat_inj.mp
  rw [UInt64.toNat_add, h.bitlen, UInt32.toNat_toUInt64, UInt32.toNat_mul,
    show (8 : UInt32).toNat = 8 from rfl, UInt64.toNat_ofNat']
  omega

/-- **`sha256_final` gives the hash** of all that was taken in. -/
theorem Ctx.Represents.final : ∃ ctx', Sha256.final ctx = .ok (ctx', hash data) := by
  have hlt := h.datalen_lt
  have hdatalen := h.datalen
  have hwaiting := h.waiting_length
  have hbranch : ctx.datalen < 56 ↔ ctx.datalen.toNat < 56 := UInt32.lt_iff_toNat_lt
  have hmarked : ∀ n, (0x80 :: List.replicate n (0 : UInt8)).length = n + 1 := fun n => by
    rw [List.length_cons, List.length_replicate]
  rw [hash, tray_append, Sha256.final, pad]
  by_cases hfits : ctx.datalen.toNat < 56
  · -- the length goes into the block that was begun
    obtain ⟨mark, hmark⟩ : ∃ mark : Bytes,
      mark = 0x80 :: List.replicate (56 - (ctx.datalen.toNat + 1)) 0 := ⟨_, rfl⟩
    have hmarkLength : ctx.datalen.toNat + mark.length = 56 := by
      rw [hmark, hmarked]
      omega
    have hpadding : padding data.length = mark ++ lengthBytes (UInt64.ofNat (8 * data.length)) := by
      rw [padding, hmark, ← hdatalen]
      congr 3
      omega
    obtain ⟨block, hwrite, hblock⟩ := h.writeData_waiting mark (by omega)
    rw [← List.append_assoc, ← List.append_nil (List.drop _ _)] at hblock
    obtain ⟨last, hlast, hval⟩ := writeData_append { ctx with data := block }
      (lengthBytes (UInt64.ofNat (8 * data.length))) hblock
      (by rw [lengthBytes_length, List.length_drop, ctx.data.property]; omega)
    rw [List.length_append, hwaiting, hmarkLength] at hlast
    rw [if_pos (hbranch.mpr hfits), ← hmark, hwrite, Checked.ok_bind, Checked.ok_bind]
    dsimp only
    rw [h.bitlen_eq, hlast, Checked.ok_bind]
    have hstate : transform ctx.state last.val =
        (feed 64 transform (tray data) (padding data.length)).state := by
      rw [hval, List.append_nil, hpadding, List.append_assoc, feed_of_eq, h.state]
      · rw [List.length_append, lengthBytes_length]
        omega
      · exact List.ne_nil_of_length_pos (by rw [List.length_append, lengthBytes_length]; omega)
    rw [← hstate]
    exact ⟨_, rfl⟩
  · -- the block that was begun is filled, and the length goes into one more
    obtain ⟨mark, hmark⟩ : ∃ mark : Bytes,
      mark = 0x80 :: List.replicate (64 - (ctx.datalen.toNat + 1)) 0 := ⟨_, rfl⟩
    obtain ⟨zeros, hzeros⟩ : ∃ zeros : Bytes, zeros = List.replicate 56 0 := ⟨_, rfl⟩
    have hmarkLength : ctx.datalen.toNat + mark.length = 64 := by
      rw [hmark, hmarked]
      omega
    have hzerosLength : zeros.length = 56 := by rw [hzeros, List.length_replicate]
    have hpadding : padding data.length =
        mark ++ (zeros ++ lengthBytes (UInt64.ofNat (8 * data.length))) := by
      have hcount : (119 - ctx.datalen.toNat) % 64 = 64 - (ctx.datalen.toNat + 1) + 56 := by omega
      rw [padding, hmark, hzeros, ← hdatalen, hcount, List.replicate_add, List.cons_append,
        List.cons_append, List.append_assoc]
    obtain ⟨block, hwrite, hblock⟩ := h.writeData_waiting mark (by omega)
    rw [hmarkLength, List.drop_eq_nil_of_le (by rw [ctx.data.property]), List.append_nil] at hblock
    have hfront : block.val = [] ++ (block.val.take 56 ++ block.val.drop 56) := by
      rw [List.nil_append, List.take_append_drop]
    obtain ⟨blank, hblank, hblankVal⟩ := writeData_append
      { ctx with data := block, state := transform ctx.state block.val } zeros hfront
      (by rw [hzerosLength, List.length_take, block.property]; omega)
    rw [List.nil_append, ← List.append_nil (List.drop _ _)] at hblankVal
    obtain ⟨last, hlast, hval⟩ := writeData_append
      { ctx with data := blank, state := transform ctx.state block.val }
      (lengthBytes (UInt64.ofNat (8 * data.length))) hblankVal
      (by rw [lengthBytes_length, List.length_drop, block.property])
    rw [hzerosLength] at hlast
    rw [List.length_nil] at hblank
    rw [if_neg (fun hlt => hfits (hbranch.mp hlt)), ← hmark, hwrite, Checked.ok_bind]
    dsimp only
    rw [← hzeros, hblank, Checked.ok_bind, Checked.ok_bind]
    dsimp only
    rw [h.bitlen_eq, hlast, Checked.ok_bind]
    have hstate : transform (transform ctx.state block.val) last.val =
        (feed 64 transform (tray data) (padding data.length)).state := by
      have hfull : feed 64 transform (tray data) mark =
          { state := transform (tray data).state ((tray data).waiting ++ mark), waiting := [] } :=
        feed_of_eq (by omega) (List.ne_nil_of_length_pos (by omega))
      rw [hval, List.append_nil, hpadding, feed_append, hfull, feed_of_eq, hblock, h.state,
        List.nil_append]
      · rw [List.length_nil, List.length_append, lengthBytes_length, hzerosLength]
      · exact List.ne_nil_of_length_pos (by rw [List.length_append, lengthBytes_length]; omega)
    rw [← hstate]
    exact ⟨_, rfl⟩

end Represents

/-! ## Streams -/

/-- Pieces given to a context one after another. -/
def updates (ctx : Ctx) (pieces : List Bytes) : Checked Ctx := pieces.foldlM update ctx

theorem updates_cons (ctx : Ctx) (piece : Bytes) (pieces : List Bytes) :
    updates ctx (piece :: pieces) = update ctx piece >>= fun ctx => updates ctx pieces := rfl

/-- **Where the pieces are cut makes no difference**: any of them, each of
less than `2 ^ 32` bytes, and the context stands for all of them together. -/
theorem Ctx.Represents.updates (h : ctx.Represents data) {pieces : List Bytes}
    (hpieces : ∀ piece ∈ pieces, piece.length < 2 ^ 32) :
    ∃ ctx', Sha256.updates ctx pieces = .ok ctx' ∧ ctx'.Represents (data ++ pieces.flatten) := by
  induction pieces generalizing ctx data with
  | nil => exact ⟨ctx, rfl, by rwa [List.flatten_nil, List.append_nil]⟩
  | cons piece pieces ih =>
    obtain ⟨ctx', hupdate, hctx'⟩ := h.update (hpieces piece List.mem_cons_self)
    obtain ⟨ctx'', hupdates, hctx''⟩ := ih hctx' fun other hother =>
      hpieces other (List.mem_cons_of_mem _ hother)
    refine ⟨ctx'', ?_, by rwa [List.append_assoc] at hctx''⟩
    rw [updates_cons, hupdate, Checked.ok_bind, hupdates]

/-- A context that returned from a piece stands for it too. -/
theorem Ctx.Represents.length_of_update (h : ctx.Represents data) {piece : Bytes} {ctx' : Ctx}
    (hupdate : Sha256.update ctx piece = .ok ctx') : piece.length < 2 ^ 32 := by
  by_contra hlong
  rw [Sha256.update, h.updateLoop_diverges (by omega)] at hupdate
  cases hupdate

/-- So it has returned from short ones only. -/
theorem Ctx.Represents.length_of_updates (h : ctx.Represents data) {pieces : List Bytes} {ctx' : Ctx}
    (hupdates : Sha256.updates ctx pieces = .ok ctx') : ∀ piece ∈ pieces, piece.length < 2 ^ 32 := by
  induction pieces generalizing ctx data with
  | nil =>
    intro piece hmem
    cases hmem
  | cons piece pieces ih =>
    rw [updates_cons] at hupdates
    obtain ⟨ctx₁, hupdate, hrest⟩ := Checked.bind_eq_ok.mp hupdates
    have hpiece := h.length_of_update hupdate
    obtain ⟨ctx₂, hupdate', hctx₂⟩ := h.update hpiece
    obtain rfl := Except.ok.inj (hupdate.symm.trans hupdate')
    intro other hother
    rcases List.mem_cons.mp hother with rfl | hother
    · exact hpiece
    · exact ih hctx₂ hrest other hother

/-- **What comes of a context, in whatever pieces it is given what it hashes**:
the hash of all of them together, if each is of less than `2 ^ 32` bytes, and
nothing otherwise. -/
theorem hash_of_updates (memory : Ctx) (pieces : List Bytes)
    (output : FixedBytes SHA256_OUTPUT_LENGTH) :
    (∃ ctx ctx', updates (init memory) pieces = .ok ctx ∧ final ctx = .ok (ctx', output)) ↔
      (∀ piece ∈ pieces, piece.length < 2 ^ 32) ∧ output = hash pieces.flatten := by
  have hinit := init_represents memory
  constructor
  · rintro ⟨ctx, ctx', hupdates, hfinal⟩
    have hpieces := hinit.length_of_updates hupdates
    obtain ⟨ctx₁, hupdates', hctx₁⟩ := hinit.updates hpieces
    obtain rfl := Except.ok.inj (hupdates.symm.trans hupdates')
    obtain ⟨ctx₂, hfinal'⟩ := hctx₁.final
    rw [hfinal', List.nil_append] at hfinal
    exact ⟨hpieces, (Prod.mk.inj (Except.ok.inj hfinal)).2.symm⟩
  · rintro ⟨hpieces, rfl⟩
    obtain ⟨ctx, hupdates, hctx⟩ := hinit.updates hpieces
    obtain ⟨ctx', hfinal⟩ := hctx.final
    rw [List.nil_append] at hfinal
    exact ⟨ctx, ctx', hupdates, hfinal⟩

/-- The hash of the three letters of the alphabet that the standard gives. -/
example : (hash [0x61, 0x62, 0x63]).val =
    [0xba, 0x78, 0x16, 0xbf, 0x8f, 0x01, 0xcf, 0xea, 0x41, 0x41, 0x40, 0xde, 0x5d, 0xae, 0x22, 0x23,
     0xb0, 0x03, 0x61, 0xa3, 0x96, 0x17, 0x7a, 0x9c, 0xb4, 0x10, 0xff, 0x61, 0xf2, 0x00, 0x15, 0xad] := by
  decide +kernel

end Sha256

end Olm
