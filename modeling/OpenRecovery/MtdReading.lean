import OpenRecovery.MtdUtils
import Mathlib

/-!
# What the reader of a raw partition delivers

The reader walks over the blocks of a partition and leaves out those with a
bad-block mark and those that hold only zeros.  The accepted blocks, one after
the other, form a byte stream, and on a device without faults `mtd_read_data`
hands out consecutive pieces of this stream, whatever the sizes of the
pieces.
-/

namespace OpenRecovery.Mtd

open Effects

variable {partition : MtdPartition}

/-- The loop of `mtd_read_data` ends as soon as its destination is full. -/
theorem mtdReadLoop_full
    {len : Nat} {got : Bytes} (fuel : Nat) (ctx : MtdReadContext) (hfull : len ≤ got.length) :
    mtdReadLoop partition len (fuel + 1) ctx got = .pure (some got, ctx) := by
  rw [mtdReadLoop, if_neg (not_lt.mpr hfull), Prog.pure_eq]

theorem anyNonZero_of_mem
    {data : Bytes} {byte : UInt8} (hmem : byte ∈ data) (hbyte : byte ≠ 0) :
    anyNonZero data = true := by
  rw [anyNonZero, List.any_eq_true]
  exact ⟨byte, hmem, by simpa using hbyte⟩

theorem anyNonZero_eq_false {data : Bytes} :
    anyNonZero data = false ↔ data = List.replicate data.length 0 := by
  rw [anyNonZero, List.any_eq_false, List.eq_replicate_iff]
  simp

theorem anyNonZero_replicate {byte : UInt8} (hbyte : byte ≠ 0) :
    anyNonZero (List.replicate partition.eraseSize byte) = true :=
  anyNonZero_of_mem (List.mem_replicate.mpr ⟨partition.eraseSize_pos.ne', rfl⟩) hbyte

/-- `read_block` returns this block rather than skipping it. -/
def Flash.accepts (flash : Flash partition) (pos : Nat) : Bool :=
  !flash.bad pos && anyNonZero (flash.block pos).val

/-- The accepted blocks from `pos` to the end of the partition. -/
def Flash.accepted (flash : Flash partition) (pos : Nat) : List Nat :=
  (List.range' pos (partition.blockCount - pos)).filter flash.accepts

/-- The bytes the reader delivers from block `pos` on. -/
def Flash.streamFrom (flash : Flash partition) (pos : Nat) : Bytes :=
  ((flash.accepted pos).map fun block => (flash.block block).val).flatten

theorem streamFrom_length (flash : Flash partition) (pos : Nat) :
    (flash.streamFrom pos).length =
      (flash.accepted pos).length * partition.eraseSize := by
  have hlength : ∀ blocks : List Nat,
      ((blocks.map fun block => (flash.block block).val).flatten).length =
        blocks.length * partition.eraseSize := by
    intro blocks
    induction blocks with
    | nil => simp
    | cons block rest ih =>
        rw [List.map_cons, List.flatten_cons, List.length_append, ih,
          (flash.block block).property, List.length_cons, Nat.succ_mul,
          Nat.add_comm]
  exact hlength _

theorem streamFrom_eq_nil
    {flash : Flash partition} {pos : Nat} (hnone : flash.accepted pos = []) :
    flash.streamFrom pos = [] := by
  simp [Flash.streamFrom, hnone]

/-- Once the next accepted block is taken, the accepted blocks after it are
the rest of the list. -/
theorem filter_range'_cons
    {accept : Nat → Bool} {left pos found : Nat} {rest : List Nat}
    (hfound : (List.range' pos left).filter accept = found :: rest) :
    pos ≤ found ∧ found < pos + left ∧ accept found = true ∧
      (List.range' (found + 1) (pos + left - (found + 1))).filter accept = rest := by
  induction left generalizing pos with
  | zero => simp at hfound
  | succ left ih =>
      rw [List.range'_succ, List.filter_cons] at hfound
      split at hfound
      next haccept =>
        rw [List.cons.injEq] at hfound
        obtain ⟨rfl, hrest⟩ := hfound
        refine ⟨le_rfl, by omega, haccept, ?_⟩
        rw [show pos + (left + 1) - (pos + 1) = left by omega]
        exact hrest
      next =>
        obtain ⟨hle, hlt, haccept, hrest⟩ := ih hfound
        refine ⟨by omega, by omega, haccept, ?_⟩
        rw [show pos + (left + 1) = pos + 1 + left by omega]
        exact hrest

theorem accepted_cons
    {flash : Flash partition} {pos found : Nat} {rest : List Nat}
    (hfound : flash.accepted pos = found :: rest) :
    pos ≤ found ∧ found < partition.blockCount ∧ flash.accepts found = true ∧
      flash.accepted (found + 1) = rest := by
  obtain ⟨hle, hlt, haccept, hrest⟩ := filter_range'_cons hfound
  refine ⟨hle, by omega, haccept, ?_⟩
  unfold Flash.accepted
  rw [show pos + (partition.blockCount - pos) = partition.blockCount by omega] at hrest
  exact hrest

theorem streamFrom_cons
    {flash : Flash partition} {pos found : Nat} {rest : List Nat}
    (hfound : flash.accepted pos = found :: rest) :
    flash.streamFrom pos =
      (flash.block found).val ++ flash.streamFrom (found + 1) := by
  unfold Flash.streamFrom
  rw [hfound, (accepted_cons hfound).2.2.2, List.map_cons, List.flatten_cons]

/-! ## One block -/

section Device

variable (flash : Flash partition)

@[simp] theorem run_eccGetStats :
    eccGetStats.run Flash.handle flash = (some 0, flash) := rfl

@[simp] theorem run_readAt (pos : Nat) :
    (readAt pos).run Flash.handle flash =
      (if pos < partition.blockCount then some (flash.block pos).val else none,
        flash) := rfl

@[simp] theorem run_memGetBadBlock (pos : Nat) :
    (memGetBadBlock pos).run Flash.handle flash =
      (if flash.bad pos then 1 else 0, flash) := rfl

@[simp] theorem run_memErase (pos : Nat) :
    (memErase pos).run Flash.handle flash =
      (true, flash.setBlock pos (erasedBlock partition)) := rfl

@[simp] theorem run_writeAt (pos : Nat) (data : Block partition) :
    (writeAt pos data.val).run Flash.handle flash =
      (true, flash.setBlock pos data) := by
  change Flash.handle (.write pos data.val) flash = _
  exact dif_pos data.property

theorem readBlockLoop_run
    (left pos offset : Nat) (hleft : pos + left ≤ partition.blockCount) :
    ∃ final,
      (readBlockLoop 0 left pos offset).run Flash.handle flash =
        match (List.range' pos left).filter flash.accepts with
        | [] => ((none, final), flash)
        | found :: _ => ((some (flash.block found).val, found + 1), flash) := by
  induction left generalizing pos offset with
  | zero => exact ⟨offset, by simp [readBlockLoop]⟩
  | succ left ih =>
      have hpos : pos < partition.blockCount := by omega
      obtain ⟨final, hrest⟩ := ih (pos + 1) (pos + 1) (by omega)
      refine ⟨final, ?_⟩
      rw [List.range'_succ, List.filter_cons]
      cases hbad : flash.bad pos with
      | true => simpa [readBlockLoop, hpos, hbad, Flash.accepts] using hrest
      | false =>
          cases hzero : anyNonZero (flash.block pos).val with
          | true => simp [readBlockLoop, hpos, hbad, hzero, Flash.accepts]
          | false =>
              simpa [readBlockLoop, hpos, hbad, hzero, Flash.accepts] using hrest

theorem readBlock_run_nil {pos : Nat} (hnone : flash.accepted pos = []) :
    ∃ final,
      (readBlock partition pos).run Flash.handle flash = ((none, final), flash) := by
  by_cases hpos : pos ≤ partition.blockCount
  · obtain ⟨final, hloop⟩ :=
      readBlockLoop_run flash (partition.blockCount - pos) pos pos (by omega)
    unfold Flash.accepted at hnone
    rw [hnone] at hloop
    exact ⟨final, by simpa [readBlock] using hloop⟩
  · refine ⟨pos, ?_⟩
    simp [readBlock, show partition.blockCount - pos = 0 by omega, readBlockLoop]

theorem readBlock_run_cons
    {pos found : Nat} {rest : List Nat}
    (hfound : flash.accepted pos = found :: rest) :
    (readBlock partition pos).run Flash.handle flash =
      ((some (flash.block found).val, found + 1), flash) := by
  have hcons := accepted_cons hfound
  obtain ⟨final, hloop⟩ :=
    readBlockLoop_run flash (partition.blockCount - pos) pos pos (by omega)
  unfold Flash.accepted at hfound
  rw [hfound] at hloop
  simpa [readBlock] using hloop

end Device

/-! ## The stream behind a read context -/

structure MtdReadContext.Valid
    (partition : MtdPartition) (ctx : MtdReadContext) : Prop where
  buffer_length : ctx.buffer.length = partition.eraseSize
  consumed_le : ctx.consumed ≤ partition.eraseSize

/-- What the context will still deliver: the rest of its buffer, then the
stream from its offset. -/
def MtdReadContext.remaining (ctx : MtdReadContext) (flash : Flash partition) : Bytes :=
  ctx.buffer.drop ctx.consumed ++ flash.streamFrom ctx.pos

theorem mtdReadPartition_valid (partition : MtdPartition) :
    (mtdReadPartition partition).Valid partition := by
  constructor <;> simp [mtdReadPartition]

theorem mtdReadPartition_remaining (flash : Flash partition) :
    (mtdReadPartition partition).remaining flash = flash.streamFrom 0 := by
  simp [MtdReadContext.remaining, mtdReadPartition]

/-- A context with an empty buffer delivers the stream itself. -/
theorem remaining_of_consumed
    {ctx : MtdReadContext} (flash : Flash partition)
    (hvalid : ctx.Valid partition) (hconsumed : ctx.consumed = partition.eraseSize) :
    ctx.remaining flash = flash.streamFrom ctx.pos := by
  simp [MtdReadContext.remaining, hconsumed, ← hvalid.buffer_length]

theorem readWholeBlocks_run
    (flash : Flash partition) (count : Nat) (ctx : MtdReadContext) (got : Bytes) :
    ∃ pos,
      (readWholeBlocks partition count ctx got).run Flash.handle flash =
          ((if count * partition.eraseSize ≤ (flash.streamFrom ctx.pos).length then
              some (got ++ (flash.streamFrom ctx.pos).take (count * partition.eraseSize))
            else none, { ctx with pos := pos }), flash) ∧
        (count * partition.eraseSize ≤ (flash.streamFrom ctx.pos).length →
          flash.streamFrom pos =
            (flash.streamFrom ctx.pos).drop (count * partition.eraseSize)) := by
  induction count generalizing ctx got with
  | zero => exact ⟨ctx.pos, by simp [readWholeBlocks], by simp⟩
  | succ count ih =>
      have hsize := partition.eraseSize_pos
      cases haccepted : flash.accepted ctx.pos with
      | nil =>
          obtain ⟨final, hblock⟩ := readBlock_run_nil flash haccepted
          have hnil := streamFrom_eq_nil haccepted
          have hlarge : ¬ (count + 1) * partition.eraseSize ≤
              (flash.streamFrom ctx.pos).length := by
            rw [hnil, Nat.succ_mul, List.length_nil]
            omega
          refine ⟨final, ?_, fun h => absurd h hlarge⟩
          simp [readWholeBlocks, hblock, hlarge]
      | cons found rest =>
          have hblock := readBlock_run_cons flash haccepted
          have hstream := streamFrom_cons haccepted
          have hlength : (flash.block found).val.length = partition.eraseSize :=
            (flash.block found).property
          obtain ⟨pos, hrun, hpos⟩ :=
            ih { ctx with pos := found + 1 } (got ++ (flash.block found).val)
          have htotal : (flash.streamFrom ctx.pos).length =
              partition.eraseSize + (flash.streamFrom (found + 1)).length := by
            rw [hstream, List.length_append, hlength]
          have hiff : (count + 1) * partition.eraseSize ≤
                (flash.streamFrom ctx.pos).length ↔
              count * partition.eraseSize ≤
                (flash.streamFrom (found + 1)).length := by
            rw [htotal, Nat.succ_mul]
            omega
          have hsplit : (count + 1) * partition.eraseSize =
              (flash.block found).val.length + count * partition.eraseSize := by
            rw [hlength, Nat.succ_mul, Nat.add_comm]
          refine ⟨pos, ?_, ?_⟩
          · simp only [readWholeBlocks, Prog.run_bind, hblock, hrun, hiff]
            rw [hstream, hsplit, List.take_length_add_append, List.append_assoc]
          · intro hle
            rw [hpos (hiff.mp hle), hstream, hsplit, List.drop_length_add_append]

/-! ## `mtd_read_data` -/

/-- A request that the buffer can serve takes one round of the loop and does
not touch the device. -/
theorem mtdReadLoop_buffered
    {ctx : MtdReadContext} {got : Bytes} {len : Nat}
    (fuel : Nat) (hvalid : ctx.Valid partition) (hgot : got.length ≤ len)
    (hneed : len - got.length ≤ partition.eraseSize - ctx.consumed) :
    mtdReadLoop partition len (fuel + 1) ctx got =
      .pure (some (got ++ (ctx.buffer.drop ctx.consumed).take (len - got.length)),
        { ctx with consumed := ctx.consumed + (len - got.length) }) := by
  have hbuffer := hvalid.buffer_length
  have hconsumed := hvalid.consumed_le
  rcases hgot.lt_or_eq with hlt | heq
  · have htaken : ((ctx.buffer.drop ctx.consumed).take (len - got.length)).length =
        len - got.length := by
      rw [List.length_take, List.length_drop, hbuffer]
      omega
    have hfull : (got ++ (ctx.buffer.drop ctx.consumed).take
        (len - got.length)).length = len := by
      rw [List.length_append, htaken]
      omega
    simp only [mtdReadLoop, hlt, if_true, min_eq_left hneed, hfull, Nat.sub_self,
      Nat.zero_div, ite_self, readWholeBlocks, Prog.pure_eq, Prog.pure_bind_eq, le_refl]
  · simp [mtdReadLoop_full fuel ctx heq.ge, heq]

theorem mtdReadLoop_run_buffered
    (flash : Flash partition) {ctx : MtdReadContext} {got : Bytes} {len : Nat}
    (fuel : Nat) (hvalid : ctx.Valid partition) (hgot : got.length ≤ len)
    (hneed : len - got.length ≤ partition.eraseSize - ctx.consumed) :
    (mtdReadLoop partition len (fuel + 1) ctx got).run Flash.handle flash =
      ((some (got ++ (ctx.buffer.drop ctx.consumed).take (len - got.length)),
        { ctx with consumed := ctx.consumed + (len - got.length) }), flash) := by
  rw [mtdReadLoop_buffered fuel hvalid hgot hneed, Prog.run_pure]

/-- A larger request first takes what the buffer still holds. -/
theorem mtdReadLoop_drain
    {ctx : MtdReadContext} {got : Bytes} {len : Nat} (fuel : Nat)
    (hvalid : ctx.Valid partition)
    (hneed : partition.eraseSize - ctx.consumed < len - got.length) :
    mtdReadLoop partition len (fuel + 1) ctx got =
      mtdReadLoop partition len (fuel + 1)
        { ctx with consumed := partition.eraseSize }
        (got ++ ctx.buffer.drop ctx.consumed) := by
  have hbuffer := hvalid.buffer_length
  have hconsumed := hvalid.consumed_le
  have hlength : (ctx.buffer.drop ctx.consumed).length =
      partition.eraseSize - ctx.consumed := by
    rw [List.length_drop, hbuffer]
  have htake : (ctx.buffer.drop ctx.consumed).take
      (partition.eraseSize - ctx.consumed) = ctx.buffer.drop ctx.consumed := by
    rw [← hlength, List.take_length]
  have hadd : ctx.consumed + (partition.eraseSize - ctx.consumed) =
      partition.eraseSize := by omega
  have hbefore : got.length < len := by omega
  have hafter : (got ++ ctx.buffer.drop ctx.consumed).length < len := by
    rw [List.length_append, hlength]
    omega
  rw [mtdReadLoop, mtdReadLoop]
  simp only [hbefore, hafter, if_true, min_eq_right hneed.le, htake, hadd, Nat.sub_self,
    Nat.min_zero, Nat.add_zero, List.take_zero, List.append_nil]

/-- With an empty buffer, whole blocks are read directly and one more block is
buffered for the rest. -/
theorem mtdReadLoop_run_direct
    (flash : Flash partition) {ctx : MtdReadContext} {got : Bytes} {len : Nat}
    (fuel : Nat) (hvalid : ctx.Valid partition)
    (hconsumed : ctx.consumed = partition.eraseSize) (hgot : got.length < len) :
    ∃ ctx' : MtdReadContext,
      (mtdReadLoop partition len (fuel + 2) ctx got).run Flash.handle flash =
          ((if len - got.length ≤ (flash.streamFrom ctx.pos).length then
              some (got ++ (flash.streamFrom ctx.pos).take (len - got.length))
            else none, ctx'), flash) ∧
        (len - got.length ≤ (flash.streamFrom ctx.pos).length →
          ctx'.Valid partition ∧
            ctx'.remaining flash = (flash.streamFrom ctx.pos).drop (len - got.length)) := by
  have hsize := partition.eraseSize_pos
  obtain ⟨buffer, consumed, start⟩ := ctx
  simp only at hconsumed
  subst hconsumed
  obtain ⟨whole, hwholeDef⟩ : ∃ whole, whole =
      (len - got.length) / partition.eraseSize * partition.eraseSize := ⟨_, rfl⟩
  have hwhole : whole ≤ len - got.length := hwholeDef ▸ Nat.div_mul_le_self _ _
  have hrest : len - got.length < whole + partition.eraseSize :=
    hwholeDef ▸ Nat.lt_div_mul_add hsize
  obtain ⟨pos, hblocks, hpos⟩ := readWholeBlocks_run flash
    ((len - got.length) / partition.eraseSize)
    ⟨buffer, partition.eraseSize, start⟩ got
  rw [← hwholeDef] at hblocks hpos
  simp only at hblocks hpos ⊢
  rw [mtdReadLoop]
  simp only [hgot, if_true, Nat.sub_self, Nat.min_zero, Nat.add_zero, List.take_zero,
    List.append_nil, Prog.run_bind, hblocks]
  by_cases hfits : whole ≤ (flash.streamFrom start).length
  · have hstream := hpos hfits
    have hgotLength : (got ++ (flash.streamFrom start).take whole).length =
        got.length + whole := by
      rw [List.length_append, List.length_take, min_eq_left hfits]
    simp only [if_pos hfits, hgotLength]
    by_cases hdone : len - got.length = whole
    · refine ⟨⟨buffer, partition.eraseSize, pos⟩, ?_, ?_⟩
      · rw [if_pos (by omega), if_pos (by omega), hdone]
        rfl
      · intro _
        have hvalid' : MtdReadContext.Valid partition ⟨buffer, partition.eraseSize, pos⟩ :=
          ⟨hvalid.buffer_length, le_rfl⟩
        refine ⟨hvalid', ?_⟩
        rw [remaining_of_consumed flash hvalid' rfl, hstream, hdone]
    · rw [if_neg (by omega)]
      cases haccepted : flash.accepted pos with
      | nil =>
          obtain ⟨final, hblock⟩ := readBlock_run_nil flash haccepted
          have hshort : (flash.streamFrom start).length ≤ whole := by
            have hnil := streamFrom_eq_nil haccepted
            rw [hstream] at hnil
            exact List.drop_eq_nil_iff.mp hnil
          refine ⟨⟨buffer, partition.eraseSize, final⟩, ?_, by omega⟩
          rw [if_neg (by omega)]
          simp [hblock]
      | cons found rest =>
          have hblock := readBlock_run_cons flash haccepted
          have hlength := (flash.block found).property
          have hsplit := streamFrom_cons haccepted
          rw [hstream] at hsplit
          have hlong := congrArg List.length hsplit
          rw [List.length_drop, List.length_append, hlength] at hlong
          have hneed : len - (got.length + whole) = len - got.length - whole := by omega
          have hwholeAdd : whole + (len - got.length - whole) = len - got.length := by omega
          have hbuffered := @mtdReadLoop_run_buffered _ flash
              ⟨(flash.block found).val, 0, found + 1⟩
              (got ++ (flash.streamFrom start).take whole) len fuel ⟨hlength, Nat.zero_le _⟩
              (by omega) (by
              simp only [hgotLength]
              omega)
          rw [hgotLength, hneed] at hbuffered
          refine ⟨⟨(flash.block found).val, 0 + (len - got.length - whole), found + 1⟩,
            ?_, ?_⟩
          · simp only [Prog.run_bind, hblock, hbuffered]
            rw [if_pos (by omega), ← hwholeAdd, List.take_add, hsplit,
              List.take_append_of_le_length (by omega), Nat.add_sub_cancel_left]
            simp only [List.drop_zero, List.append_assoc]
          · intro _
            refine ⟨⟨hlength, by simp only; omega⟩, ?_⟩
            rw [← hwholeAdd, ← List.drop_drop, hsplit,
              List.drop_append_of_le_length (by omega)]
            simp [MtdReadContext.remaining]
  · refine ⟨⟨buffer, partition.eraseSize, pos⟩, ?_, by omega⟩
    rw [if_neg hfits, if_neg (by omega)]
    rfl

/-- `mtd_read_data` delivers the next `len` bytes of the stream, or fails if
there are not so many. -/
theorem mtdReadData_run
    (flash : Flash partition) {ctx : MtdReadContext} {len : Nat}
    (hvalid : ctx.Valid partition) (hlen : len < 2 ^ 31) :
    ∃ ctx' : MtdReadContext,
      (mtdReadData partition ctx len).run Flash.handle flash =
          ((if len ≤ (ctx.remaining flash).length then
              some ((ctx.remaining flash).take len)
            else none, ctx'), flash) ∧
        (len ≤ (ctx.remaining flash).length →
          ctx'.Valid partition ∧
            ctx'.remaining flash = (ctx.remaining flash).drop len) := by
  have hbuffer := hvalid.buffer_length
  have hconsumed := hvalid.consumed_le
  have hhead : (ctx.buffer.drop ctx.consumed).length =
      partition.eraseSize - ctx.consumed := by
    rw [List.length_drop, hbuffer]
  unfold mtdReadData
  rw [if_neg (by omega)]
  by_cases hbuffered : len ≤ partition.eraseSize - ctx.consumed
  · have hlong : len ≤ (ctx.remaining flash).length := by
      unfold MtdReadContext.remaining
      rw [List.length_append]
      omega
    refine ⟨{ ctx with consumed := ctx.consumed + len }, ?_, ?_⟩
    · have hrun := @mtdReadLoop_run_buffered _ flash _ [] _ (len + 1) hvalid (Nat.zero_le len)
          (by simpa using hbuffered)
      rw [hrun, if_pos hlong]
      simp only [List.nil_append, List.length_nil, Nat.sub_zero]
      rw [MtdReadContext.remaining, List.take_append_of_le_length (by omega)]
    · intro _
      refine ⟨⟨hbuffer, by simp only; omega⟩, ?_⟩
      simp only [MtdReadContext.remaining]
      rw [List.drop_append_of_le_length (by omega), List.drop_drop]
  · have hlt : (ctx.buffer.drop ctx.consumed).length < len := by omega
    obtain ⟨ctx', hrun, hctx⟩ := @mtdReadLoop_run_direct _ flash
        { ctx with consumed := partition.eraseSize } _ _ len ⟨hbuffer, le_rfl⟩ rfl hlt
    have hiff : len ≤ (ctx.remaining flash).length ↔
        len - (ctx.buffer.drop ctx.consumed).length ≤
          (flash.streamFrom ctx.pos).length := by
      rw [MtdReadContext.remaining, List.length_append]
      omega
    have hsplit : len = (ctx.buffer.drop ctx.consumed).length +
        (len - (ctx.buffer.drop ctx.consumed).length) := by omega
    refine ⟨ctx', ?_, ?_⟩
    · rw [@mtdReadLoop_drain _ _ [] _ (len + 1) hvalid (by simpa using hbuffered),
        List.nil_append, hrun]
      simp only [hiff]
      congr 3
      conv_rhs => rw [MtdReadContext.remaining, hsplit, List.take_length_add_append]
    · intro hle
      obtain ⟨hvalid', hremaining⟩ := hctx (hiff.mp hle)
      refine ⟨hvalid', ?_⟩
      rw [hremaining]
      conv_rhs => rw [MtdReadContext.remaining, hsplit, List.drop_length_add_append]

/-! ## Reading changes nothing -/

/-- The requests that leave the device as it is. -/
def MtdOp.Reads : MtdOp → Prop
  | .eccGetStats => True
  | .read _ => True
  | .memGetBadBlock _ => True
  | .memErase _ => False
  | .write _ _ => False

theorem Flash.handle_reads
    {op : MtdOp} (hop : op.Reads) (flash : Flash partition) :
    (Flash.handle op flash).2 = flash := by
  cases op with
  | eccGetStats => rfl
  | read block => rfl
  | memGetBadBlock block => rfl
  | memErase block => exact hop.elim
  | write block data => exact hop.elim

theorem readBlockLoop_reads (before left pos offset : Nat) :
    (readBlockLoop before left pos offset).Uses MtdOp.Reads := by
  induction left generalizing pos offset with
  | zero => trivial
  | succ left ih =>
      refine Prog.Uses.bind ⟨trivial, fun _ => trivial⟩ ?_
      rintro (_ | data)
      · exact ih _ _
      · refine Prog.Uses.bind ⟨trivial, fun _ => trivial⟩ ?_
        rintro (_ | after)
        · trivial
        · simp only
          split
          next => exact ih _ _
          next =>
            refine Prog.Uses.bind ⟨trivial, fun _ => trivial⟩ ?_
            intro mgbb
            split_ifs
            · exact ih _ _
            · trivial
            · exact ih _ _

theorem readBlock_reads (partition : MtdPartition) (pos : Nat) :
    (readBlock partition pos).Uses MtdOp.Reads := by
  refine Prog.Uses.bind ⟨trivial, fun _ => trivial⟩ ?_
  rintro (_ | before)
  · trivial
  · exact readBlockLoop_reads _ _ _ _

theorem readWholeBlocks_reads
    (partition : MtdPartition) (count : Nat) (ctx : MtdReadContext) (got : Bytes) :
    (readWholeBlocks partition count ctx got).Uses MtdOp.Reads := by
  induction count generalizing ctx got with
  | zero => trivial
  | succ count ih =>
      refine (readBlock_reads partition ctx.pos).bind ?_
      rintro ⟨_ | data, pos⟩
      · trivial
      · exact ih _ _

theorem mtdReadLoop_reads
    (partition : MtdPartition) (len fuel : Nat) (ctx : MtdReadContext) (got : Bytes) :
    (mtdReadLoop partition len fuel ctx got).Uses MtdOp.Reads := by
  induction fuel generalizing ctx got with
  | zero => trivial
  | succ fuel ih =>
      rw [mtdReadLoop]
      split
      next =>
        refine (readWholeBlocks_reads partition _ _ _).bind ?_
        rintro ⟨_ | got, ctx⟩
        · trivial
        · simp only
          split_ifs
          · trivial
          · refine (readBlock_reads partition ctx.pos).bind ?_
            rintro ⟨_ | data, pos⟩
            · trivial
            · exact ih _ _
          · exact ih _ _
      next => trivial

theorem mtdReadData_reads
    (partition : MtdPartition) (ctx : MtdReadContext) (len : Nat) :
    (mtdReadData partition ctx len).Uses MtdOp.Reads := by
  unfold mtdReadData
  split
  · trivial
  · exact mtdReadLoop_reads _ _ _ _ _

end OpenRecovery.Mtd
