import OpenRecovery.MtdReading
import Mathlib

/-!
# What the writer of a raw partition leaves

On a device without faults every write session fills the good blocks of the
partition one after the other.  The theorems below give this for a whole
session, together with every state that a power cut between two block
operations can leave: a prefix of the blocks has been replaced, and the next
one may have been erased.
-/

namespace OpenRecovery.Mtd

open Effects

variable {partition : MtdPartition}

/-- The good blocks from `pos` to the end of the partition. -/
def Flash.goodFrom (flash : Flash partition) (pos : Nat) : List Nat :=
  (List.range' pos (partition.blockCount - pos)).filter fun block => !flash.bad block

/-- Replace the blocks at the given positions. -/
def Flash.place : List Nat → List (Block partition) → Flash partition → Flash partition
  | pos :: positions, data :: blocks, flash =>
      Flash.place positions blocks (flash.setBlock pos data)
  | _, _, flash => flash

theorem place_cons
    (pos : Nat) (positions : List Nat) (data : Block partition) (blocks : List (Block partition))
    (flash : Flash partition) :
    flash.place (pos :: positions) (data :: blocks) =
      (flash.setBlock pos data).place positions blocks := rfl

@[simp] theorem setBlock_bad
    (flash : Flash partition) (pos : Nat) (data : Block partition) :
    (flash.setBlock pos data).bad = flash.bad := rfl

@[simp] theorem setBlock_block_self
    (flash : Flash partition) (pos : Nat) (data : Block partition) :
    (flash.setBlock pos data).block pos = data := by
  simp [Flash.setBlock]

theorem setBlock_block_ne
    (flash : Flash partition) {pos other : Nat} (data : Block partition)
    (hne : other ≠ pos) :
    (flash.setBlock pos data).block other = flash.block other := by
  simp [Flash.setBlock, hne]

@[simp] theorem setBlock_setBlock
    (flash : Flash partition) (pos : Nat) (first second : Block partition) :
    (flash.setBlock pos first).setBlock pos second = flash.setBlock pos second := by
  simp [Flash.setBlock]

theorem goodFrom_congr
    {flash flash' : Flash partition} (hbad : flash'.bad = flash.bad) (pos : Nat) :
    flash'.goodFrom pos = flash.goodFrom pos := by
  simp [Flash.goodFrom, hbad]

theorem goodFrom_cons
    {flash : Flash partition} {pos found : Nat} {rest : List Nat}
    (hfound : flash.goodFrom pos = found :: rest) :
    pos ≤ found ∧ found < partition.blockCount ∧ flash.bad found = false ∧
      flash.goodFrom (found + 1) = rest := by
  obtain ⟨hle, hlt, hgood, hrest⟩ := filter_range'_cons hfound
  refine ⟨hle, by omega, by simpa using hgood, ?_⟩
  unfold Flash.goodFrom
  rw [show pos + (partition.blockCount - pos) = partition.blockCount by omega] at hrest
  exact hrest

theorem goodFrom_nodup (flash : Flash partition) (pos : Nat) :
    (flash.goodFrom pos).Nodup :=
  (List.nodup_range' ..).filter _

theorem sampleFlash_goodFrom : sampleFlash.goodFrom 0 = [0, 1] := by decide

@[simp] theorem place_bad
    (positions : List Nat) (blocks : List (Block partition)) (flash : Flash partition) :
    (flash.place positions blocks).bad = flash.bad := by
  induction positions generalizing blocks flash with
  | nil => rfl
  | cons pos positions ih =>
      cases blocks with
      | nil => rfl
      | cons data blocks => rw [place_cons, ih, setBlock_bad]

@[simp] theorem place_nil (positions : List Nat) (flash : Flash partition) :
    flash.place positions [] = flash := by
  cases positions <;> rfl

/-- The next block goes to the first position not used so far. -/
theorem place_concat
    {positions rest : List Nat} {blocks : List (Block partition)} {pos : Nat}
    (flash : Flash partition) (data : Block partition)
    (hrest : positions.drop blocks.length = pos :: rest) :
    flash.place positions (blocks ++ [data]) =
      (flash.place positions blocks).setBlock pos data := by
  induction blocks generalizing positions flash with
  | nil =>
      rw [List.length_nil, List.drop_zero] at hrest
      rw [hrest, List.nil_append, place_cons, place_nil, place_nil]
  | cons block blocks ih =>
      cases positions with
      | nil => simp at hrest
      | cons head positions =>
          rw [List.length_cons, List.drop_succ_cons] at hrest
          rw [List.cons_append, place_cons, place_cons, ih (flash.setBlock head block) hrest]

theorem place_block_of_notMem
    {positions : List Nat} {pos : Nat} (blocks : List (Block partition))
    (flash : Flash partition) (hmem : pos ∉ positions) :
    (flash.place positions blocks).block pos = flash.block pos := by
  induction positions generalizing blocks flash with
  | nil => rfl
  | cons head positions ih =>
      rw [List.mem_cons, not_or] at hmem
      cases blocks with
      | nil => rfl
      | cons data blocks =>
          rw [place_cons, ih blocks _ hmem.2, setBlock_block_ne _ _ hmem.1]

/-- Distinct positions end up holding the blocks written to them. -/
theorem place_map_block
    {positions : List Nat} {blocks : List (Block partition)}
    (flash : Flash partition) (hnodup : positions.Nodup)
    (hlength : blocks.length ≤ positions.length) :
    (positions.take blocks.length).map (flash.place positions blocks).block = blocks := by
  induction positions generalizing blocks flash with
  | nil =>
      have hnil : blocks = [] := by simpa using hlength
      simp [hnil]
  | cons head positions ih =>
      cases blocks with
      | nil => simp
      | cons data blocks =>
          rw [List.nodup_cons] at hnodup
          rw [List.length_cons, List.take_succ_cons, List.map_cons, place_cons,
            place_block_of_notMem blocks _ hnodup.1, setBlock_block_self,
            ih _ hnodup.2 (Nat.le_of_succ_le_succ hlength)]

theorem place_setBlock_comm
    {positions : List Nat} {pos : Nat} (blocks : List (Block partition))
    (flash : Flash partition) (data : Block partition) (hmem : pos ∉ positions) :
    (flash.place positions blocks).setBlock pos data =
      (flash.setBlock pos data).place positions blocks := by
  induction positions generalizing blocks flash with
  | nil => rfl
  | cons head positions ih =>
      rw [List.mem_cons, not_or] at hmem
      cases blocks with
      | nil => rfl
      | cons block blocks =>
          rw [place_cons, place_cons, ih blocks _ hmem.2]
          congr 1
          simp only [Flash.setBlock]
          rw [Function.update_comm hmem.1]

/-- A second session overwrites the blocks it reaches and keeps the rest of
the first. -/
theorem place_place
    {positions : List Nat} {first second : List (Block partition)}
    (flash : Flash partition) (hnodup : positions.Nodup)
    (hlength : second.length ≤ first.length) :
    (flash.place positions first).place positions second =
      flash.place positions (second ++ first.drop second.length) := by
  induction positions generalizing first second flash with
  | nil => rfl
  | cons head positions ih =>
      rw [List.nodup_cons] at hnodup
      cases second with
      | nil => simp
      | cons data second =>
          cases first with
          | nil => simp at hlength
          | cons block first =>
              rw [List.length_cons, List.drop_succ_cons, List.cons_append, place_cons, place_cons,
                place_cons, place_setBlock_comm _ _ _ hnodup.1, setBlock_setBlock,
                ih _ hnodup.2 (by simpa using hlength)]

/-! ## One block -/

section Device

variable {flash : Flash partition} {data : Block partition}
variable {ctx : MtdWriteContext} {crash : Flash partition → Prop}
variable {α : Type} {post : α → Flash partition → Prop}

theorem safe_readAt_bind (pos : Nat) (rest : Option Bytes → MtdProg α) :
    (readAt pos >>= rest).Safe (Machine.atomic Flash.handle) post crash flash ↔
      crash flash ∧
        (rest (if pos < partition.blockCount then some (flash.block pos).val
          else none)).Safe (Machine.atomic Flash.handle) post crash flash :=
  Prog.safe_request_atomic ..

theorem safe_memGetBadBlock_bind (pos : Nat) (rest : Int → MtdProg α) :
    (memGetBadBlock pos >>= rest).Safe (Machine.atomic Flash.handle) post crash flash ↔
      crash flash ∧
        (rest (if flash.bad pos then 1 else 0)).Safe
          (Machine.atomic Flash.handle) post crash flash :=
  Prog.safe_request_atomic ..

theorem safe_memErase_bind (pos : Nat) (rest : Bool → MtdProg α) :
    (memErase pos >>= rest).Safe (Machine.atomic Flash.handle) post crash flash ↔
      crash flash ∧
        (rest true).Safe (Machine.atomic Flash.handle) post crash
          (flash.setBlock pos (erasedBlock partition)) :=
  Prog.safe_request_atomic ..

theorem safe_writeAt_bind (pos : Nat) (rest : Bool → MtdProg α) :
    (writeAt pos data.val >>= rest).Safe (Machine.atomic Flash.handle) post crash flash ↔
      crash flash ∧
        (rest true).Safe (Machine.atomic Flash.handle) post crash
          (flash.setBlock pos data) := by
  have hhandle : Flash.handle (.write pos data.val) flash =
      (true, flash.setBlock pos data) := run_writeAt flash pos data
  have hrequest := @Prog.safe_request_atomic _ _ _ _ post crash Flash.handle
      (.write pos data.val) rest flash
  rw [hhandle] at hrequest
  exact hrequest

/-- On a working device the first of the two attempts succeeds. -/
theorem tryBlock_safe
    {pos : Nat} (offset : Nat) {post : Bool × Nat → Flash partition → Prop}
    (hpos : pos < partition.blockCount) (hbefore : crash flash)
    (herased : crash (flash.setBlock pos (erasedBlock partition)))
    (hwritten : crash (flash.setBlock pos data))
    (hpost : post (true, pos + 1) (flash.setBlock pos data)) :
    (tryBlock pos data.val 2 offset).Safe (Machine.atomic Flash.handle)
      post crash flash := by
  rw [tryBlock, safe_memErase_bind]
  refine ⟨hbefore, ?_⟩
  rw [if_pos rfl, safe_writeAt_bind]
  refine ⟨herased, ?_⟩
  rw [safe_readAt_bind, setBlock_setBlock, setBlock_block_self, if_pos hpos]
  refine ⟨hwritten, ?_⟩
  simpa using ⟨hpost, hwritten⟩

/-- The loop of `write_block` passes over the bad blocks and writes the first
good one. -/
theorem writeBlockLoop_safe
    {left pos found : Nat} {rest : List Nat}
    {post : Int × MtdWriteContext → Flash partition → Prop}
    (hleft : pos + left ≤ partition.blockCount)
    (hfound : ((List.range' pos left).filter fun block => !flash.bad block) =
      found :: rest)
    (hbefore : crash flash)
    (herased : crash (flash.setBlock found (erasedBlock partition)))
    (hwritten : crash (flash.setBlock found data))
    (hpost : ∀ offsets, post (0, ⟨ctx.stored, found + 1, offsets⟩)
      (flash.setBlock found data)) :
    (writeBlockLoop data.val left pos ctx).Safe (Machine.atomic Flash.handle)
      post crash flash := by
  induction left generalizing pos ctx with
  | zero => simp at hfound
  | succ left ih =>
      rw [List.range'_succ, List.filter_cons] at hfound
      rw [writeBlockLoop, safe_memGetBadBlock_bind]
      refine ⟨hbefore, ?_⟩
      cases hbad : flash.bad pos with
      | true =>
          rw [hbad] at hfound
          exact @ih (addBadBlockOffset ctx pos) _ (by omega) hfound hpost
      | false =>
          simp only [hbad, Bool.not_false, if_true, List.cons.injEq] at hfound
          obtain ⟨rfl, -⟩ := hfound
          simp only [Bool.false_eq_true, if_false, lt_self_iff_false]
          rw [Prog.safe_bind]
          apply tryBlock_safe _ (by omega) hbefore herased hwritten
          exact ⟨hpost _, hwritten⟩

theorem writeBlock_safe
    {found : Nat} {rest : List Nat}
    {post : Int × MtdWriteContext → Flash partition → Prop}
    (hfound : flash.goodFrom ctx.pos = found :: rest)
    (hbefore : crash flash)
    (herased : crash (flash.setBlock found (erasedBlock partition)))
    (hwritten : crash (flash.setBlock found data))
    (hpost : ∀ offsets, post (0, ⟨ctx.stored, found + 1, offsets⟩)
      (flash.setBlock found data)) :
    (writeBlock partition ctx data.val).Safe (Machine.atomic Flash.handle)
      post crash flash := by
  have hcons := goodFrom_cons hfound
  exact writeBlockLoop_safe (by omega) hfound hbefore herased hwritten hpost

end Device

/-! ## A session -/

/-- The bytes of a list of blocks. -/
def blockBytes (blocks : List (Block partition)) : Bytes :=
  (blocks.map Subtype.val).flatten

@[simp] theorem blockBytes_nil : blockBytes ([] : List (Block partition)) = [] := rfl

@[simp] theorem blockBytes_cons
    (data : Block partition) (blocks : List (Block partition)) :
    blockBytes (data :: blocks) = data.val ++ blockBytes blocks := rfl

theorem blockBytes_length (blocks : List (Block partition)) :
    (blockBytes blocks).length = blocks.length * partition.eraseSize := by
  induction blocks with
  | nil => simp
  | cons data blocks ih =>
      rw [blockBytes_cons, List.length_append, ih, data.property, List.length_cons,
        Nat.succ_mul, Nat.add_comm]

@[simp] theorem blockBytes_append (first second : List (Block partition)) :
    blockBytes (first ++ second) = blockBytes first ++ blockBytes second := by
  simp [blockBytes]

theorem blockBytes_take (blocks : List (Block partition)) (count : Nat) :
    blockBytes (blocks.take count) =
      (blockBytes blocks).take (count * partition.eraseSize) := by
  induction blocks generalizing count with
  | nil => simp
  | cons data blocks ih =>
      cases count with
      | zero => simp
      | succ count =>
          have htake := @List.take_length_add_append _ data.val (blockBytes blocks)
              (count * partition.eraseSize)
          rw [data.property] at htake
          rw [List.take_succ_cons, blockBytes_cons, blockBytes_cons, ih, Nat.succ_mul,
            Nat.add_comm, htake]

theorem blockBytes_drop (blocks : List (Block partition)) (count : Nat) :
    blockBytes (blocks.drop count) =
      (blockBytes blocks).drop (count * partition.eraseSize) := by
  induction blocks generalizing count with
  | nil => simp
  | cons data blocks ih =>
      cases count with
      | zero => simp
      | succ count =>
          have hdrop := @List.drop_length_add_append _ data.val (blockBytes blocks)
              (count * partition.eraseSize)
          rw [data.property] at hdrop
          rw [List.drop_succ_cons, blockBytes_cons, ih, Nat.succ_mul, Nat.add_comm, hdrop]

/-- Every byte string is a list of whole blocks and a shorter rest. -/
theorem exists_blockBytes_append (partition : MtdPartition) (data : Bytes) :
    ∃ (blocks : List (Block partition)) (rest : Bytes),
      data = blockBytes blocks ++ rest ∧ rest.length < partition.eraseSize := by
  induction hlength : data.length using Nat.strong_induction_on generalizing data with
  | _ length ih =>
      by_cases hshort : data.length < partition.eraseSize
      · exact ⟨[], data, rfl, hshort⟩
      · have hsize := partition.eraseSize_pos
        obtain ⟨blocks, rest, hsplit, hrest⟩ :=
          ih (data.drop partition.eraseSize).length (by rw [List.length_drop]; omega) _ rfl
        refine ⟨⟨data.take partition.eraseSize, ?_⟩ :: blocks, rest, ?_, hrest⟩
        · rw [List.length_take]
          omega
        · rw [blockBytes_cons, List.append_assoc, ← hsplit, List.take_append_drop]

/-- The decomposition is unique. -/
theorem blockBytes_append_inj
    {first second : List (Block partition)} {rest rest' : Bytes}
    (hsplit : blockBytes first ++ rest = blockBytes second ++ rest')
    (hrest : rest.length < partition.eraseSize)
    (hrest' : rest'.length < partition.eraseSize) :
    first = second ∧ rest = rest' := by
  induction first generalizing second with
  | nil =>
      cases second with
      | nil => exact ⟨rfl, by simpa using hsplit⟩
      | cons data second =>
          have hlength := congrArg List.length hsplit
          simp only [blockBytes_nil, blockBytes_cons, List.length_append,
            List.length_nil, data.property] at hlength
          omega
  | cons data first ih =>
      cases second with
      | nil =>
          have hlength := congrArg List.length hsplit
          simp only [blockBytes_nil, blockBytes_cons, List.length_append,
            List.length_nil, data.property] at hlength
          omega
      | cons data' second =>
          rw [blockBytes_cons, blockBytes_cons, List.append_assoc, List.append_assoc] at hsplit
          obtain ⟨hdata, htail⟩ :=
            List.append_inj hsplit (data.property.trans data'.property.symm)
          obtain ⟨rfl, rfl⟩ := ih htail
          exact ⟨by rw [Subtype.ext hdata], rfl⟩

theorem blockBytes_injective
    {first second : List (Block partition)}
    (hbytes : blockBytes first = blockBytes second) : first = second :=
  (@blockBytes_append_inj _ _ _ [] [] (by simpa using hbytes)
      (by simpa using partition.eraseSize_pos) (by simpa using partition.eraseSize_pos)).1

/-- A byte string of whole blocks. -/
theorem exists_blockBytes
    {data : Bytes} (hdvd : partition.eraseSize ∣ data.length) :
    ∃ blocks : List (Block partition), blockBytes blocks = data := by
  obtain ⟨blocks, rest, hsplit, hrest⟩ := exists_blockBytes_append partition data
  have hlength := congrArg List.length hsplit
  rw [List.length_append, blockBytes_length] at hlength
  have hzero : rest.length = 0 := by
    rw [hlength, Nat.dvd_add_right (Nat.dvd_mul_left _ _)] at hdvd
    exact Nat.eq_zero_of_dvd_of_lt hdvd hrest
  rw [List.length_eq_zero_iff] at hzero
  exact ⟨blocks, by rw [hsplit, hzero, List.append_nil]⟩

/-! ## A session on any device

The routines above `write_block` only cut their data into blocks.  What they
do to the device follows from what `write_block` does to it, whatever the
device is. -/

/-- Along a session that is to write `blocks`, `inv done pos` describes the
device after the blocks `done` have been written and with the file offset at
`pos`; every call of `write_block` either brings the session one block further
or fails and leaves the device in `failed`. -/
structure WritesBlocks {σ : Type}
    (machine : Machine MtdOp MtdOp.Reply σ) (blocks : List (Block partition))
    (inv : List (Block partition) → Nat → σ → Prop) (failed crash : σ → Prop) : Prop where
  crash_of_inv : ∀ {done pos state}, done <+: blocks → inv done pos state → crash state
  crash_of_failed : ∀ {state}, failed state → crash state
  write : ∀ {done data ctx state}, done ++ [data] <+: blocks → inv done ctx.pos state →
    (writeBlock partition ctx data.val).Safe machine
      (fun result after =>
        result.1 = 0 ∧ result.2.stored = ctx.stored ∧
            inv (done ++ [data]) result.2.pos after ∨
          result.1 ≠ 0 ∧ failed after)
      crash state

section Session

variable {σ : Type} {machine : Machine MtdOp MtdOp.Reply σ}
variable {blocks done : List (Block partition)}
variable {inv : List (Block partition) → Nat → σ → Prop} {failed crash : σ → Prop}
variable {ctx : MtdWriteContext} {state : σ}

theorem WritesBlocks.writeBlock_safe
    {data : Block partition} {post : Int × MtdWriteContext → σ → Prop}
    (hwrites : WritesBlocks machine blocks inv failed crash)
    (hinv : inv done ctx.pos state) (hbegins : done ++ [data] <+: blocks)
    (hpost : ∀ ctx' after, ctx'.stored = ctx.stored →
      inv (done ++ [data]) ctx'.pos after → post (0, ctx') after)
    (hfail : ∀ code ctx' after, code ≠ 0 → failed after → post (code, ctx') after) :
    (writeBlock partition ctx data.val).Safe machine post crash state := by
  refine (hwrites.write hbegins hinv).mono ?_ (fun _ h => h)
  rintro ⟨code, ctx'⟩ after (⟨hcode, hstored, hafter⟩ | ⟨hcode, hafter⟩)
  · simp only at hcode hstored
    subst hcode
    exact hpost ctx' after hstored hafter
  · exact hfail code ctx' after hcode hafter

theorem WritesBlocks.writeWholeBlocks_safe
    {more : List (Block partition)} {rest : Bytes}
    {post : Option Bytes × MtdWriteContext → σ → Prop}
    (hwrites : WritesBlocks machine blocks inv failed crash)
    (hinv : inv done ctx.pos state) (hbegins : done ++ more <+: blocks)
    (hpost : ∀ ctx' after, ctx'.stored = ctx.stored →
      inv (done ++ more) ctx'.pos after → post (some rest, ctx') after)
    (hfail : ∀ ctx' after, failed after → post (none, ctx') after) :
    (writeWholeBlocks partition more.length ctx (blockBytes more ++ rest)).Safe
      machine post crash state := by
  induction more generalizing done ctx state with
  | nil =>
      rw [List.append_nil] at hbegins hpost
      exact ⟨hpost ctx state rfl hinv, hwrites.crash_of_inv hbegins hinv⟩
  | cons data more ih =>
      have hlength := data.property
      rw [List.append_cons] at hbegins hpost
      have htake : (blockBytes (data :: more) ++ rest).take partition.eraseSize =
          data.val := by
        rw [blockBytes_cons, List.append_assoc, List.take_left' hlength]
      have hdrop : (blockBytes (data :: more) ++ rest).drop partition.eraseSize =
          blockBytes more ++ rest := by
        rw [blockBytes_cons, List.append_assoc, List.drop_left' hlength]
      rw [List.length_cons, writeWholeBlocks, Prog.safe_bind, htake, hdrop]
      apply hwrites.writeBlock_safe hinv ((List.prefix_append _ more).trans hbegins)
      · intro ctx' after hstored hafter
        refine ih hafter hbegins ?_
        intro ctx'' final hstored' hfinal
        exact hpost ctx'' final (hstored'.trans hstored) hfinal
      · intro code ctx' after hcode hafter
        simp only [hcode, ne_eq, not_false_eq_true, if_true]
        exact ⟨hfail ctx' after hafter, hwrites.crash_of_failed hafter⟩

/-! ### `mtd_write_data` -/

theorem mtdWriteLoop_nil (fuel : Nat) (ctx : MtdWriteContext) :
    mtdWriteLoop partition fuel ctx [] = .pure (true, ctx) := by
  cases fuel <;> simp [mtdWriteLoop]

/-- Bytes that do not complete a block are only stored. -/
theorem mtdWriteLoop_short
    {data : Bytes} (fuel : Nat) (hdata : data ≠ [])
    (hshort : ctx.stored.length + data.length < partition.eraseSize) :
    mtdWriteLoop partition (fuel + 1) ctx data =
      .pure (true, { ctx with stored := ctx.stored ++ data }) := by
  have hpos : 0 < data.length := List.length_pos_iff.mpr hdata
  have hcopy : (if 0 < ctx.stored.length ∨ data.length < partition.eraseSize then
      min data.length (partition.eraseSize - ctx.stored.length) else 0) = data.length := by
    rw [if_pos (.inr (by omega)), min_eq_left (by omega)]
  rw [mtdWriteLoop]
  simp only [List.isEmpty_iff, hdata, if_false, hcopy, List.take_length,
    List.drop_length, List.length_append, List.length_nil, Nat.zero_div, ite_self]
  rw [if_neg (by omega)]
  simp [writeWholeBlocks, mtdWriteLoop_nil]

theorem WritesBlocks.flushStored_safe
    {data : Block partition} {post : Int × MtdWriteContext → σ → Prop}
    (hwrites : WritesBlocks machine blocks inv failed crash)
    (hinv : inv done ctx.pos state) (hbegins : done ++ [data] <+: blocks)
    (hpost : ∀ ctx' after, ctx'.stored = [] →
      inv (done ++ [data]) ctx'.pos after → post (0, ctx') after)
    (hfail : ∀ code ctx' after, code ≠ 0 → failed after → post (code, ctx') after) :
    (flushStored partition ctx data.val).Safe machine post crash state := by
  rw [flushStored, Prog.safe_bind]
  apply hwrites.writeBlock_safe hinv hbegins
  · intro ctx' after _ hafter
    exact ⟨hpost _ after rfl hafter, hwrites.crash_of_inv hbegins hafter⟩
  · intro code ctx' after hcode hafter
    simp only [hcode, ne_eq, not_false_eq_true, if_true]
    exact ⟨hfail code ctx' after hcode hafter, hwrites.crash_of_failed hafter⟩

/-- From a block boundary on, whole blocks are written and the rest is
stored. -/
theorem WritesBlocks.writeRest_safe
    {more : List (Block partition)} {rest : Bytes} {fuel : Nat}
    {post : Bool × MtdWriteContext → σ → Prop}
    (hwrites : WritesBlocks machine blocks inv failed crash)
    (hinv : inv done ctx.pos state) (hstored : ctx.stored = [])
    (hrest : rest.length < partition.eraseSize) (hfuel : rest ≠ [] → 0 < fuel)
    (hbegins : done ++ more <+: blocks)
    (hpost : ∀ ctx' after, ctx'.stored = rest →
      inv (done ++ more) ctx'.pos after → post (true, ctx') after)
    (hfail : ∀ ctx' after, failed after → post (false, ctx') after) :
    (do
      let (left, ctx) ← writeWholeBlocks partition
        ((blockBytes more ++ rest).length / partition.eraseSize) ctx
        (blockBytes more ++ rest)
      match left with
      | none => pure (false, ctx)
      | some data => mtdWriteLoop partition fuel ctx data :
      MtdProg (Bool × MtdWriteContext)).Safe machine post crash state := by
  have hcount : (blockBytes more ++ rest).length / partition.eraseSize = more.length := by
    rw [List.length_append, blockBytes_length, Nat.add_comm,
      Nat.add_mul_div_right _ _ partition.eraseSize_pos, Nat.div_eq_of_lt hrest,
      Nat.zero_add]
  rw [Prog.safe_bind, hcount]
  apply hwrites.writeWholeBlocks_safe hinv hbegins
  · intro ctx' after hctx' hafter
    have hnow := hwrites.crash_of_inv hbegins hafter
    change (mtdWriteLoop partition fuel ctx' rest).Safe _ _ _ _
    by_cases hnil : rest = []
    · rw [hnil, mtdWriteLoop_nil]
      exact ⟨hpost ctx' after (by rw [hctx', hstored, hnil]) hafter, hnow⟩
    · obtain ⟨fuel, rfl⟩ : ∃ k, fuel = k + 1 := ⟨fuel - 1, by have := hfuel hnil; omega⟩
      rw [mtdWriteLoop_short fuel hnil (by rw [hctx', hstored]; simpa using hrest)]
      exact ⟨hpost _ after (by simp [hctx', hstored]) hafter, hnow⟩
  · intro ctx' after hafter
    exact ⟨hfail ctx' after hafter, hwrites.crash_of_failed hafter⟩

theorem WritesBlocks.mtdWriteLoop_safe
    {more : List (Block partition)} {data rest : Bytes} {fuel : Nat}
    {post : Bool × MtdWriteContext → σ → Prop}
    (hwrites : WritesBlocks machine blocks inv failed crash)
    (hinv : inv done ctx.pos state)
    (hstored : ctx.stored.length < partition.eraseSize)
    (hsplit : ctx.stored ++ data = blockBytes more ++ rest)
    (hrest : rest.length < partition.eraseSize) (hfuel : data.length < fuel)
    (hbegins : done ++ more <+: blocks)
    (hpost : ∀ ctx' after, ctx'.stored = rest →
      inv (done ++ more) ctx'.pos after → post (true, ctx') after)
    (hfail : ∀ ctx' after, failed after → post (false, ctx') after) :
    (mtdWriteLoop partition fuel ctx data).Safe machine post crash state := by
  have hsize := partition.eraseSize_pos
  obtain ⟨fuel, rfl⟩ : ∃ k, fuel = k + 1 := ⟨fuel - 1, by omega⟩
  have hlengths := congrArg List.length hsplit
  rw [List.length_append, List.length_append, blockBytes_length] at hlengths
  cases more with
  | nil =>
      rw [List.append_nil] at hbegins hpost
      rw [blockBytes_nil, List.nil_append] at hsplit
      have hnow := hwrites.crash_of_inv hbegins hinv
      by_cases hnil : data = []
      · rw [hnil, mtdWriteLoop_nil]
        exact ⟨hpost ctx state (by simpa [hnil] using hsplit) hinv, hnow⟩
      · rw [mtdWriteLoop_short fuel hnil (by simpa using hlengths.trans_lt (by simpa))]
        exact ⟨hpost _ state hsplit hinv, hnow⟩
  | cons block more =>
      have hblock := block.property
      rw [List.length_cons, Nat.succ_mul] at hlengths
      have hdata : data ≠ [] := by
        rintro rfl
        rw [List.length_nil] at hlengths
        omega
      rw [mtdWriteLoop]
      simp only [List.isEmpty_iff, hdata, if_false]
      by_cases hempty : ctx.stored = []
      · rw [hempty, List.nil_append] at hsplit
        have hcopy : (if 0 < ctx.stored.length ∨ data.length < partition.eraseSize then
            min data.length (partition.eraseSize - ctx.stored.length) else 0) = 0 := by
          rw [if_neg]
          rw [hempty, List.length_nil] at hlengths ⊢
          omega
        have hne : ¬ (0 : Nat) = partition.eraseSize := by omega
        simp only [hcopy, List.take_zero, List.append_nil, List.drop_zero]
        simp only [hempty, List.length_nil, hne, if_false, Prog.pure_eq,
          Prog.pure_bind_eq, ne_eq, not_true_eq_false, if_true, hsplit]
        apply @WritesBlocks.writeRest_safe _ _ _ _ _ _ _ _ ⟨[], ctx.pos, ctx.badBlockOffsets⟩ _ _
            _ _ _ hwrites hinv rfl hrest _ hbegins hpost hfail
        intro hne
        have := List.length_pos_iff.mpr hne
        omega
      · have hpos := List.length_pos_iff.mpr hempty
        have hcopy : (if 0 < ctx.stored.length ∨ data.length < partition.eraseSize then
            min data.length (partition.eraseSize - ctx.stored.length) else 0) =
              partition.eraseSize - ctx.stored.length := by
          rw [if_pos (.inl hpos), min_eq_right (by omega)]
        have hhead : ctx.stored ++
            data.take (partition.eraseSize - ctx.stored.length) = block.val := by
          have htake := congrArg (List.take partition.eraseSize) hsplit
          rw [List.take_append, List.take_of_length_le hstored.le, blockBytes_cons,
            List.append_assoc, List.take_left' hblock] at htake
          exact htake
        have htail : data.drop (partition.eraseSize - ctx.stored.length) =
            blockBytes more ++ rest := by
          have hdrop := congrArg (List.drop partition.eraseSize) hsplit
          rw [List.drop_append, List.drop_of_length_le hstored.le, List.nil_append,
            blockBytes_cons, List.append_assoc, List.drop_left' hblock] at hdrop
          exact hdrop
        rw [List.append_cons] at hbegins hpost
        simp only [hcopy, hhead, htail, hblock, if_true]
        rw [Prog.safe_bind]
        apply @WritesBlocks.flushStored_safe _ _ _ _ _ _ _ _
            ⟨block.val, ctx.pos, ctx.badBlockOffsets⟩ _ _ _ hwrites hinv
            ((List.prefix_append _ more).trans hbegins)
        · intro ctx' after hctx' hafter
          simp only [ne_eq, not_true_eq_false, if_false, hctx', List.length_nil, if_true]
          apply hwrites.writeRest_safe hafter hctx' hrest _ hbegins hpost hfail
          intro hne
          have := List.length_pos_iff.mpr hne
          omega
        · intro code ctx' after hcode hafter
          simp only [hcode, ne_eq, not_false_eq_true, if_true]
          exact ⟨hfail ctx' after hafter, hwrites.crash_of_failed hafter⟩

/-- The session has taken the bytes `taken` from its caller. -/
def Streamed (inv : List (Block partition) → Nat → σ → Prop)
    (blocks : List (Block partition)) (taken : Bytes) (ctx : MtdWriteContext) (state : σ) :
    Prop :=
  ∃ done, inv done ctx.pos state ∧ done <+: blocks ∧
    taken = blockBytes done ++ ctx.stored ∧ ctx.stored.length < partition.eraseSize

theorem streamed_start (hinv : inv [] 0 state) :
    Streamed inv blocks [] mtdWritePartition state :=
  ⟨[], hinv, List.nil_prefix, rfl, partition.eraseSize_pos⟩

theorem WritesBlocks.crash_of_streamed
    {taken : Bytes} (hwrites : WritesBlocks machine blocks inv failed crash)
    (hstreamed : Streamed inv blocks taken ctx state) : crash state := by
  obtain ⟨done, hinv, hbegins, -, -⟩ := hstreamed
  exact hwrites.crash_of_inv hbegins hinv

theorem begins_of_blockBytes
    {first second : List (Block partition)} {rest : Bytes}
    (hbegins : blockBytes first ++ rest <+: blockBytes second) : first <+: second := by
  obtain ⟨tail, htail⟩ := hbegins
  obtain ⟨more, left, hsplit, hleft⟩ := exists_blockBytes_append partition (rest ++ tail)
  have heq : blockBytes (first ++ more) ++ left = blockBytes second ++ [] := by
    rw [blockBytes_append, List.append_assoc, ← hsplit, ← List.append_assoc, htail,
      List.append_nil]
  obtain ⟨rfl, -⟩ := blockBytes_append_inj heq hleft (by simpa using partition.eraseSize_pos)
  exact List.prefix_append first more

/-- Whatever the sizes of the pieces, each call takes all of its bytes or
fails. -/
theorem WritesBlocks.mtdWriteData_safe
    {taken data : Bytes} {post : Int × MtdWriteContext → σ → Prop}
    (hwrites : WritesBlocks machine blocks inv failed crash)
    (hstreamed : Streamed inv blocks taken ctx state)
    (hdata : taken ++ data <+: blockBytes blocks)
    (hpost : ∀ ctx' after, Streamed inv blocks (taken ++ data) ctx' after →
      post (data.length, ctx') after)
    (hfail : ∀ ctx' after, failed after → post (-1, ctx') after) :
    (mtdWriteData partition ctx data).Safe machine post crash state := by
  obtain ⟨done, hinv, hbegins, rfl, hstored⟩ := hstreamed
  obtain ⟨more, rest, hsplit, hrest⟩ := exists_blockBytes_append partition (ctx.stored ++ data)
  have htaken : blockBytes done ++ ctx.stored ++ data = blockBytes (done ++ more) ++ rest := by
    rw [List.append_assoc, hsplit, blockBytes_append, List.append_assoc]
  have hmore : done ++ more <+: blocks := begins_of_blockBytes (htaken ▸ hdata)
  rw [mtdWriteData, Prog.safe_bind]
  apply hwrites.mtdWriteLoop_safe hinv hstored hsplit hrest (Nat.lt_succ_self _) hmore
  · intro ctx' after hctx' hafter
    refine ⟨hpost ctx' after ⟨done ++ more, hafter, hmore, ?_, hctx' ▸ hrest⟩,
      hwrites.crash_of_inv hmore hafter⟩
    rw [htaken, hctx']
  · intro ctx' after hafter
    exact ⟨hfail ctx' after hafter, hwrites.crash_of_failed hafter⟩

/-! ### `mtd_write_close` -/

/-- The blocks that closing a session adds: the pending bytes, zero-padded. -/
def pendingBlock (stored : Bytes) (hstored : stored.length ≤ partition.eraseSize) :
    List (Block partition) :=
  if stored = [] then []
  else [⟨stored ++ List.replicate (partition.eraseSize - stored.length) 0, by
    rw [List.length_append, List.length_replicate]
    omega⟩]

theorem blockBytes_pendingBlock
    (stored : Bytes) (hstored : stored.length < partition.eraseSize) :
    blockBytes (pendingBlock stored hstored.le) = stored ++
      List.replicate (if stored = [] then 0 else partition.eraseSize - stored.length) 0 := by
  unfold pendingBlock
  split
  next hnil => simp [hnil]
  next => simp

theorem WritesBlocks.flushPending_safe
    {post : Int × MtdWriteContext → σ → Prop}
    (hwrites : WritesBlocks machine blocks inv failed crash)
    (hinv : inv done ctx.pos state)
    (hstored : ctx.stored.length ≤ partition.eraseSize)
    (hbegins : done ++ pendingBlock ctx.stored hstored <+: blocks)
    (hpost : ∀ ctx' after,
      inv (done ++ pendingBlock ctx.stored hstored) ctx'.pos after → post (0, ctx') after)
    (hfail : ∀ code ctx' after, code ≠ 0 → failed after → post (code, ctx') after) :
    (flushPending partition ctx).Safe machine post crash state := by
  obtain ⟨stored, pos, offsets⟩ := ctx
  by_cases hnil : stored = []
  · subst hnil
    simp only [pendingBlock, if_true, List.append_nil] at hbegins hpost
    exact ⟨hpost ⟨[], pos, offsets⟩ _ hinv, hwrites.crash_of_inv hbegins hinv⟩
  · simp only [pendingBlock, hnil, if_false] at hbegins hpost
    rw [flushPending, if_pos (List.length_pos_iff.mpr hnil)]
    apply hwrites.flushStored_safe hinv hbegins _ hfail
    intro ctx' after _ hafter
    exact hpost ctx' after hafter

/-- Padding completes the last block and nothing else. -/
theorem append_pendingBlock
    {stored : Bytes} {pad : Nat} (hstored : stored.length < partition.eraseSize)
    (hpadded : blockBytes blocks = blockBytes done ++ stored ++ List.replicate pad 0)
    (hpad : pad < partition.eraseSize) :
    done ++ pendingBlock stored hstored.le = blocks := by
  apply blockBytes_injective
  rw [blockBytes_append, blockBytes_pendingBlock _ hstored, hpadded, ← List.append_assoc]
  congr 2
  have hlength := congrArg List.length hpadded
  simp only [List.length_append, blockBytes_length, List.length_replicate] at hlength
  have hmod : (stored.length + pad) % partition.eraseSize = 0 := by
    have hcongr := congrArg (· % partition.eraseSize) hlength
    simpa [Nat.add_assoc, Nat.mul_add_mod_self_right] using hcongr.symm
  split
  next hnil =>
    rw [hnil, List.length_nil, Nat.zero_add, Nat.mod_eq_of_lt hpad] at hmod
    exact hmod.symm
  next hne =>
    have hpos := List.length_pos_iff.mpr hne
    have hle : partition.eraseSize ≤ stored.length + pad :=
      Nat.le_of_dvd (by omega) (Nat.dvd_of_mod_eq_zero hmod)
    rw [Nat.mod_eq_sub_mod hle, Nat.mod_eq_of_lt (by omega)] at hmod
    omega

/-- Closing pads the last block with zeros, after which all blocks have been
written. -/
theorem WritesBlocks.mtdWriteClose_safe
    {taken : Bytes} {pad : Nat} {post : Int → σ → Prop}
    (hwrites : WritesBlocks machine blocks inv failed crash)
    (hstreamed : Streamed inv blocks taken ctx state)
    (hpadded : blockBytes blocks = taken ++ List.replicate pad 0)
    (hpad : pad < partition.eraseSize)
    (hpost : ∀ pos after, inv blocks pos after → post 0 after)
    (hfail : ∀ after, failed after → post (-1) after) :
    (mtdWriteClose partition ctx).Safe machine post crash state := by
  obtain ⟨done, hinv, hbegins, rfl, hstored⟩ := hstreamed
  have hblocks := append_pendingBlock hstored hpadded hpad
  have hnonneg : ∀ pos : Nat, ¬ ((pos * partition.eraseSize : Nat) : Int) = -1 := by
    intro pos
    omega
  rw [mtdWriteClose, Prog.safe_bind, mtdEraseBlocks, Prog.safe_bind]
  apply hwrites.flushPending_safe hinv hstored.le (by rw [hblocks])
  · intro ctx' after hafter
    rw [hblocks] at hafter
    have hnow := hwrites.crash_of_inv (List.prefix_refl _) hafter
    simp only [ne_eq, not_true_eq_false, if_false, lt_self_iff_false, Int.toNat_zero,
      eraseLoop]
    rw [if_neg (not_lt.mpr (Int.natCast_nonneg _))]
    refine ⟨⟨?_, hnow⟩, hnow⟩
    rw [if_neg (hnonneg ctx'.pos)]
    exact hpost ctx'.pos after hafter
  · intro code ctx' after hcode hafter
    have hnow := hwrites.crash_of_failed hafter
    simp only [hcode, ne_eq, not_false_eq_true, if_true]
    exact ⟨⟨hfail after hafter, hnow⟩, hnow⟩

end Session

/-! ## A session on a device without faults -/

/-- The session that began on `start` has written `blocks`, and the next block
will be looked for from `pos` on. -/
structure Placed
    (start : Flash partition) (blocks : List (Block partition)) (pos : Nat)
    (flash : Flash partition) : Prop where
  flash_eq : flash = start.place (start.goodFrom 0) blocks
  good_eq : start.goodFrom pos = (start.goodFrom 0).drop blocks.length

/-- A power cut found the session that was to write `blocks` between two block
operations. -/
def Interrupted
    (start : Flash partition) (blocks : List (Block partition))
    (flash : Flash partition) : Prop :=
  ∃ done, done <+: blocks ∧
    (flash = start.place (start.goodFrom 0) done ∨
      ∃ pos rest, (start.goodFrom 0).drop done.length = pos :: rest ∧
        done.length < blocks.length ∧
        flash = (start.place (start.goodFrom 0) done).setBlock pos
          (erasedBlock partition))

theorem placed_start (start : Flash partition) : Placed start [] 0 start := by
  constructor <;> simp

theorem Placed.interrupted
    {start flash : Flash partition} {done blocks : List (Block partition)} {pos : Nat}
    (hplaced : Placed start done pos flash) (hbegins : done <+: blocks) :
    Interrupted start blocks flash :=
  ⟨done, hbegins, .inl hplaced.flash_eq⟩

theorem Placed.writeBlock_safe
    {start flash : Flash partition} {done blocks : List (Block partition)}
    {data : Block partition} {ctx : MtdWriteContext} {crash : Flash partition → Prop}
    {post : Int × MtdWriteContext → Flash partition → Prop}
    (hplaced : Placed start done ctx.pos flash)
    (hbegins : done ++ [data] <+: blocks)
    (hroom : done.length < (start.goodFrom 0).length)
    (hcrash : ∀ after, Interrupted start blocks after → crash after)
    (hpost : ∀ pos offsets after, Placed start (done ++ [data]) pos after →
      post (0, ⟨ctx.stored, pos, offsets⟩) after) :
    (writeBlock partition ctx data.val).Safe (Machine.atomic Flash.handle)
      post crash flash := by
  obtain ⟨found, rest, hrest⟩ : ∃ found rest,
      (start.goodFrom 0).drop done.length = found :: rest := by
    cases hdrop : (start.goodFrom 0).drop done.length with
    | nil =>
        have := List.drop_eq_nil_iff.mp hdrop
        omega
    | cons found rest => exact ⟨found, rest, rfl⟩
  have hfound : start.goodFrom ctx.pos = found :: rest := hplaced.good_eq.trans hrest
  have hnext : Placed start (done ++ [data]) (found + 1) (flash.setBlock found data) := by
    constructor
    · rw [place_concat start data hrest, ← hplaced.flash_eq]
    · rw [(goodFrom_cons hfound).2.2.2, List.length_append, ← List.drop_drop, hrest]
      rfl
  have hbad : flash.bad = start.bad := by rw [hplaced.flash_eq, place_bad]
  have hdone : done <+: blocks := (List.prefix_append done [data]).trans hbegins
  have hshort : done.length < blocks.length := by
    have hlength := hbegins.length_le
    rw [List.length_append, List.length_singleton] at hlength
    omega
  apply @Mtd.writeBlock_safe _ _ _ _ _ _ _ _ ((goodFrom_congr hbad ctx.pos).trans hfound)
  · exact hcrash _ (hplaced.interrupted hdone)
  · exact hcrash _
      ⟨done, hdone, .inr ⟨found, rest, hrest, hshort, by rw [← hplaced.flash_eq]⟩⟩
  · exact hcrash _ (hnext.interrupted hbegins)
  · exact fun offsets => hpost _ _ _ hnext

/-- On such a device a session that fits writes its blocks one after the
other and does not fail. -/
theorem writesBlocks_placed
    {start : Flash partition} {blocks : List (Block partition)}
    {crash : Flash partition → Prop}
    (hroom : blocks.length ≤ (start.goodFrom 0).length)
    (hcrash : ∀ after, Interrupted start blocks after → crash after) :
    WritesBlocks (Machine.atomic Flash.handle) blocks (Placed start)
      (fun _ => False) crash where
  crash_of_inv hbegins hplaced := hcrash _ (hplaced.interrupted hbegins)
  crash_of_failed := False.elim
  write := by
    intro done data ctx flash hbegins hplaced
    have hlength := hbegins.length_le
    rw [List.length_append, List.length_singleton] at hlength
    apply hplaced.writeBlock_safe hbegins (by omega) hcrash
    intro pos offsets after hafter
    exact .inl ⟨rfl, rfl, hafter⟩

end OpenRecovery.Mtd
