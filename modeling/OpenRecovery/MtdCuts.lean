import OpenRecovery.MtdFaults
import Mathlib

/-!
# Cutting a stream into calls

`mtd_write_data` fills a partial block, flushes it and then writes whole blocks
straight from its caller, and `mtd_read_data` drains a buffered block and then
reads whole blocks straight into its caller's memory.  Where a stream is cut
into calls makes no difference: neither to the blocks that are written, nor to
the bytes that are read.  For the reader this holds on every device, because it
sees the device only through `read_block`.
-/

namespace OpenRecovery.Mtd

open Effects

variable {partition : MtdPartition}

/-! ## Writing -/

/-- Consecutive calls of `mtd_write_data`, with what each of them returns. -/
def writeDataCalls (partition : MtdPartition) :
    (calls : List Bytes) → MtdWriteContext → MtdProg (List Int × MtdWriteContext)
  | [], ctx => pure ([], ctx)
  | data :: calls, ctx => do
      let (wrote, ctx) ← mtdWriteData partition ctx data
      let (results, ctx) ← writeDataCalls partition calls ctx
      pure (wrote :: results, ctx)

/-- The calls and the final `mtd_write_close`. -/
def writeDataClose (partition : MtdPartition) (calls : List Bytes) :
    MtdProg (List Int × Int) := do
  let (results, ctx) ← writeDataCalls partition calls mtdWritePartition
  let closed ← mtdWriteClose partition ctx
  pure (results, closed)

/-- Every string has its chunks: the whole blocks, and the rest padded with
zeros. -/
theorem exists_chunked (partition : MtdPartition) (data : Bytes) :
    ∃ chunks : List (Block partition), Chunked data chunks := by
  obtain ⟨blocks, rest, hsplit, hrest⟩ := exists_blockBytes_append partition data
  refine ⟨blocks ++ pendingBlock rest hrest.le,
    if rest = [] then 0 else partition.eraseSize - rest.length, ?_, ?_⟩
  · split
    next => exact partition.eraseSize_pos
    next hne =>
      have hpos := List.length_pos_iff.mpr hne
      omega
  · rw [blockBytes_append, blockBytes_pendingBlock rest hrest, hsplit, List.append_assoc]

/-- Only as many positions count as there are blocks. -/
theorem place_take
    (positions : List Nat) (blocks : List (Block partition)) (flash : Flash partition) :
    flash.place (positions.take blocks.length) blocks = flash.place positions blocks := by
  induction positions generalizing blocks flash with
  | nil => rw [List.take_nil]
  | cons head positions ih =>
      cases blocks with
      | nil => simp
      | cons data blocks =>
          rw [List.length_cons, List.take_succ_cons]
          exact ih blocks _

section Session

variable {start flash : Flash partition} {chunks : List (Block partition)}
variable {calls : List Bytes}

/-- Every call takes all of its bytes. -/
theorem writeDataCalls_safe
    {taken : Bytes} {ctx : MtdWriteContext}
    {post : List Int × MtdWriteContext → Flash partition → Prop}
    (hroom : chunks.length ≤ (start.goodFrom 0).length)
    (hstreamed : Streamed (Placed start) chunks taken ctx flash)
    (hcalls : taken ++ calls.flatten <+: blockBytes chunks)
    (hpost : ∀ ctx' after, Streamed (Placed start) chunks (taken ++ calls.flatten) ctx' after →
      post (calls.map fun data => (data.length : Int), ctx') after) :
    (writeDataCalls partition calls ctx).Safe (Machine.atomic Flash.handle) post
      (fun _ => True) flash := by
  induction calls generalizing taken ctx flash post with
  | nil =>
      rw [List.flatten_nil, List.append_nil] at hpost
      exact ⟨hpost ctx flash hstreamed, trivial⟩
  | cons data calls ih =>
      rw [List.flatten_cons, ← List.append_assoc] at hcalls hpost
      have hwrites := @writesBlocks_placed _ start chunks (fun _ => True) hroom
        (fun _ _ => trivial)
      rw [writeDataCalls, Prog.safe_bind]
      apply hwrites.mtdWriteData_safe hstreamed ((List.prefix_append _ _).trans hcalls)
      · intro ctx' after hafter
        rw [Prog.safe_bind]
        apply ih hafter hcalls
        intro ctx'' after' hafter'
        exact ⟨hpost ctx'' after' hafter', trivial⟩
      · intro ctx' after hfalse
        exact hfalse.elim

/-- A session leaves the chunks of its bytes on the good blocks, however the
bytes are cut. -/
theorem writeDataClose_run
    (hchunked : Chunked calls.flatten chunks)
    (hroom : chunks.length ≤ (start.goodFrom 0).length) :
    (writeDataClose partition calls).run Flash.handle start =
      ((calls.map fun data => (data.length : Int), 0),
        start.place (start.goodFrom 0) chunks) := by
  obtain ⟨pad, hpad, hchunks⟩ := hchunked
  have hwrites := @writesBlocks_placed _ start chunks (fun _ => True) hroom
    (fun _ _ => trivial)
  have hsafe : (writeDataClose partition calls).Safe (Machine.atomic Flash.handle)
      (fun result after => result = (calls.map fun data => (data.length : Int), 0) ∧
        after = start.place (start.goodFrom 0) chunks)
      (fun _ => True) start := by
    rw [writeDataClose, Prog.safe_bind]
    apply writeDataCalls_safe hroom (streamed_start (placed_start start))
      (by rw [hchunks, List.nil_append]; exact List.prefix_append _ _)
    intro ctx after hafter
    rw [List.nil_append] at hafter
    rw [Prog.safe_bind]
    apply hwrites.mtdWriteClose_safe hafter hchunks hpad
    · intro pos final hfinal
      exact ⟨⟨rfl, hfinal.flash_eq⟩, trivial⟩
    · intro final hfalse
      exact hfalse.elim
  obtain ⟨hresult, hflash⟩ := hsafe.run_post
  exact Prod.ext hresult hflash

/-- Writes do not depend on how they are cut: every call returns its own
length, closing succeeds, the good blocks hold the chunks of the string, and
the result is that of a single call. -/
theorem writeDataClose_cut
    (start : Flash partition) (calls : List Bytes)
    (hfits : calls.flatten.length ≤ (start.goodFrom 0).length * partition.eraseSize) :
    ∃ (final : Flash partition) (chunks : List (Block partition)),
      (writeDataClose partition calls).run Flash.handle start =
          ((calls.map fun data => (data.length : Int), 0), final) ∧
        Chunked calls.flatten chunks ∧
        ((start.goodFrom 0).take chunks.length).map final.block = chunks ∧
        final.bad = start.bad ∧
        (∀ pos, pos ∉ (start.goodFrom 0).take chunks.length →
          final.block pos = start.block pos) ∧
        (writeDataClose partition [calls.flatten]).run Flash.handle start =
          (([(calls.flatten.length : Int)], 0), final) := by
  obtain ⟨chunks, hchunked⟩ := exists_chunked partition calls.flatten
  have hroom := hchunked.fits hfits
  have hsingle : Chunked [calls.flatten].flatten chunks := by
    rwa [List.flatten_singleton]
  refine ⟨start.place (start.goodFrom 0) chunks, chunks, writeDataClose_run hchunked hroom,
    hchunked, place_map_block start (goodFrom_nodup start 0) hroom, place_bad .., ?_,
    writeDataClose_run hsingle hroom⟩
  intro pos hpos
  rw [← place_take]
  exact place_block_of_notMem chunks start hpos

/-- A string of five bytes in four calls, one of them empty. -/
theorem writeDataClose_cut_sample :
    ∃ (final : Flash samplePartition) (chunks : List (Block samplePartition)),
      (writeDataClose samplePartition [[1, 2], [], [3], [4, 5]]).run Flash.handle sampleFlash =
          (([2, 0, 1, 2], 0), final) ∧
        Chunked [1, 2, 3, 4, 5] chunks ∧
        ((sampleFlash.goodFrom 0).take chunks.length).map final.block = chunks ∧
        final.bad = sampleFlash.bad ∧
        (∀ pos, pos ∉ (sampleFlash.goodFrom 0).take chunks.length →
          final.block pos = sampleFlash.block pos) ∧
        (writeDataClose samplePartition [[1, 2, 3, 4, 5]]).run Flash.handle sampleFlash =
          (([5], 0), final) := by
  apply writeDataClose_cut sampleFlash [[1, 2], [], [3], [4, 5]]
  rw [sampleFlash_goodFrom]
  decide

end Session

/-! ## Reading -/

/-- A device, in whatever state and however its reads may fail.  A read that
succeeds fills the block. -/
structure Device (partition : MtdPartition) (σ : Type) where
  handle : (op : MtdOp) → σ → op.Reply × σ
  read_length : ∀ {pos state data},
    (handle (.read pos) state).1 = some data → data.length = partition.eraseSize

/-- Consecutive calls of `mtd_read_data`, with what each of them returns. -/
def readDataCalls (partition : MtdPartition) :
    (lens : List Nat) → MtdReadContext → MtdProg (List (Option Bytes))
  | [], _ => pure []
  | len :: lens, ctx => do
      let (got, ctx) ← mtdReadData partition ctx len
      let results ← readDataCalls partition lens ctx
      pure (got :: results)

section Requests

variable {σ α : Type} {handle : (op : MtdOp) → σ → op.Reply × σ}
variable {post : α → σ → Prop} {crash : σ → Prop} {state : σ}

theorem safe_atomic_eccGetStats (rest : Option Nat → MtdProg α) :
    (eccGetStats >>= rest).Safe (Machine.atomic handle) post crash state ↔
      crash state ∧ (rest (handle .eccGetStats state).1).Safe (Machine.atomic handle) post
        crash (handle .eccGetStats state).2 :=
  Prog.safe_request_atomic ..

theorem safe_atomic_readAt (pos : Nat) (rest : Option Bytes → MtdProg α) :
    (readAt pos >>= rest).Safe (Machine.atomic handle) post crash state ↔
      crash state ∧ (rest (handle (.read pos) state).1).Safe (Machine.atomic handle) post
        crash (handle (.read pos) state).2 :=
  Prog.safe_request_atomic ..

theorem safe_atomic_memGetBadBlock (pos : Nat) (rest : Int → MtdProg α) :
    (memGetBadBlock pos >>= rest).Safe (Machine.atomic handle) post crash state ↔
      crash state ∧ (rest (handle (.memGetBadBlock pos) state).1).Safe (Machine.atomic handle)
        post crash (handle (.memGetBadBlock pos) state).2 :=
  Prog.safe_request_atomic ..

end Requests

namespace Device

variable {σ : Type} (device : Device partition σ)

/-- A block that `read_block` accepts was read in full, and it lies within the
partition. -/
theorem readBlockLoop_safe (before left pos offset : Nat) (state : σ) :
    (readBlockLoop before left pos offset).Safe (Machine.atomic device.handle)
      (fun result _ => ∀ data, result.1 = some data →
        data.length = partition.eraseSize ∧ pos < result.2 ∧ result.2 ≤ pos + left)
      (fun _ => True) state := by
  induction left generalizing pos offset state with
  | zero =>
      refine ⟨?_, trivial⟩
      intro data hdata
      simp at hdata
  | succ left ih =>
      have hnext : ∀ offset state, (readBlockLoop before left (pos + 1) offset).Safe
          (Machine.atomic device.handle)
          (fun result _ => ∀ data, result.1 = some data →
            data.length = partition.eraseSize ∧ pos < result.2 ∧
              result.2 ≤ pos + (left + 1))
          (fun _ => True) state := by
        intro offset state
        apply (ih (pos + 1) offset state).mono _ (fun _ h => h)
        intro result _ hresult data hdata
        obtain ⟨hlength, hlt, hle⟩ := hresult data hdata
        exact ⟨hlength, by omega, by omega⟩
      rw [readBlockLoop, safe_atomic_readAt]
      refine ⟨trivial, ?_⟩
      cases hread : (device.handle (.read pos) state).1 with
      | none => exact hnext pos _
      | some data =>
          simp only
          rw [safe_atomic_eccGetStats]
          refine ⟨trivial, ?_⟩
          generalize device.handle .eccGetStats _ = reply
          obtain ⟨_ | after, state'⟩ := reply
          · refine ⟨?_, trivial⟩
            intro data hdata
            simp at hdata
          · simp only
            by_cases hfailed : after ≠ before
            · rw [if_pos hfailed]
              exact hnext (pos + 1) _
            · rw [if_neg hfailed, safe_atomic_memGetBadBlock]
              refine ⟨trivial, ?_⟩
              split_ifs with hmgbb hnonzero
              · exact hnext (pos + 1) _
              · refine ⟨?_, trivial⟩
                intro found hfound
                obtain rfl := Option.some.inj hfound
                exact ⟨device.read_length hread, Nat.lt_succ_self pos, by simp only; omega⟩
              · exact hnext (pos + 1) _

theorem readBlock_accepts
    {pos next : Nat} {state after : σ} {data : Bytes}
    (hrun : (readBlock partition pos).run device.handle state = ((some data, next), after)) :
    data.length = partition.eraseSize ∧ pos < next ∧
      next ≤ max pos partition.blockCount := by
  have hsafe : (readBlock partition pos).Safe (Machine.atomic device.handle)
      (fun result _ => ∀ data, result.1 = some data →
        data.length = partition.eraseSize ∧ pos < result.2 ∧
          result.2 ≤ pos + (partition.blockCount - pos))
      (fun _ => True) state := by
    rw [readBlock, safe_atomic_eccGetStats]
    refine ⟨trivial, ?_⟩
    cases (device.handle .eccGetStats state).1 with
    | none =>
        refine ⟨?_, trivial⟩
        intro data hdata
        simp at hdata
    | some before => exact device.readBlockLoop_safe _ _ _ _ _
  have hpost := hsafe.run_post
  rw [hrun] at hpost
  obtain ⟨hlength, hlt, hle⟩ := hpost data rfl
  exact ⟨hlength, hlt, by simp only at hle; omega⟩

/-- The blocks that successive calls of `read_block` accept from `pos` on, at
most `count` of them. -/
def accepted : (count pos : Nat) → σ → List (Block partition)
  | 0, _, _ => []
  | count + 1, pos, state =>
      match hrun : (readBlock partition pos).run device.handle state with
      | ((some data, next), after) =>
          ⟨data, (device.readBlock_accepts hrun).1⟩ :: accepted count next after
      | ((none, _), _) => []

/-- From `pos` on, successive calls of `read_block` accept the given blocks. -/
inductive Supplies : (pos : Nat) → σ → List (Block partition) → Prop where
  | done (pos : Nat) (state : σ) : Supplies pos state []
  | block {pos next : Nat} {state after : σ} {data : Block partition}
      {rest : List (Block partition)}
      (hrun : (readBlock partition pos).run device.handle state =
        ((some data.val, next), after))
      (hrest : Supplies next after rest) : Supplies pos state (data :: rest)

theorem supplies_accepted (count pos : Nat) (state : σ) :
    device.Supplies pos state (device.accepted count pos state) := by
  induction count generalizing pos state with
  | zero => exact .done pos state
  | succ count ih =>
      rw [accepted]
      split
      next data next after hrun => exact .block hrun (ih next after)
      next => exact .done pos state

variable {device}

/-- There are no more accepted blocks than blocks. -/
theorem Supplies.length_le
    {pos : Nat} {state : σ} {blocks : List (Block partition)}
    (hsupplies : device.Supplies pos state blocks) :
    blocks.length ≤ partition.blockCount - pos := by
  induction hsupplies with
  | done pos state => exact Nat.zero_le _
  | block hrun hrest ih =>
      obtain ⟨-, hlt, hle⟩ := device.readBlock_accepts hrun
      rw [List.length_cons]
      omega

theorem Supplies.readWholeBlocks_run
    {ctx : MtdReadContext} {state : σ} {got : Bytes} {count : Nat}
    {blocks : List (Block partition)}
    (hsupplies : device.Supplies ctx.pos state blocks) (hcount : count ≤ blocks.length) :
    ∃ next after,
      (readWholeBlocks partition count ctx got).run device.handle state =
          ((some (got ++ blockBytes (blocks.take count)), { ctx with pos := next }), after) ∧
        device.Supplies next after (blocks.drop count) := by
  induction count generalizing ctx state got blocks with
  | zero =>
      refine ⟨ctx.pos, state, ?_, hsupplies⟩
      simp [readWholeBlocks]
  | succ count ih =>
      cases hsupplies with
      | done => simp at hcount
      | @block _ next _ after data rest hrun hrest =>
          obtain ⟨final, last, hloop, hfinal⟩ := @ih { ctx with pos := next } after
            (got ++ data.val) rest hrest (by simpa using hcount)
          refine ⟨final, last, ?_, hfinal⟩
          rw [List.take_succ_cons, blockBytes_cons, ← List.append_assoc]
          simp only [readWholeBlocks, Prog.run_bind, hrun]
          exact hloop

/-- What the context will still deliver if `read_block` accepts `blocks`. -/
def pending (ctx : MtdReadContext) (blocks : List (Block partition)) : Bytes :=
  ctx.buffer.drop ctx.consumed ++ blockBytes blocks

/-- With an empty buffer, whole blocks are read directly and one more block is
buffered for the rest. -/
theorem Supplies.mtdReadLoop_run_direct
    {ctx : MtdReadContext} {state : σ} {got : Bytes} {len : Nat}
    {blocks : List (Block partition)}
    (hsupplies : device.Supplies ctx.pos state blocks)
    (fuel : Nat) (hvalid : ctx.Valid partition)
    (hconsumed : ctx.consumed = partition.eraseSize) (hgot : got.length < len)
    (hlen : len - got.length ≤ (blockBytes blocks).length) :
    ∃ ctx' after rest,
      (mtdReadLoop partition len (fuel + 2) ctx got).run device.handle state =
          ((some (got ++ (blockBytes blocks).take (len - got.length)), ctx'), after) ∧
        ctx'.Valid partition ∧ device.Supplies ctx'.pos after rest ∧
        pending ctx' rest = (blockBytes blocks).drop (len - got.length) := by
  have hsize := partition.eraseSize_pos
  obtain ⟨buffer, consumed, start⟩ := ctx
  simp only at hconsumed hsupplies
  subst hconsumed
  obtain ⟨count, hcount⟩ : ∃ count, count = (len - got.length) / partition.eraseSize :=
    ⟨_, rfl⟩
  have hwhole : count * partition.eraseSize ≤ len - got.length :=
    hcount ▸ Nat.div_mul_le_self _ _
  have hrest : len - got.length < count * partition.eraseSize + partition.eraseSize :=
    hcount ▸ Nat.lt_div_mul_add hsize
  rw [blockBytes_length] at hlen
  have hcountLe : count ≤ blocks.length :=
    Nat.le_of_mul_le_mul_right (hwhole.trans hlen) hsize
  obtain ⟨next, after, hblocks, hafter⟩ := @Supplies.readWholeBlocks_run _ _ _
    ⟨buffer, partition.eraseSize, start⟩ _ got _ _ hsupplies hcountLe
  have htakeLength : (blockBytes (blocks.take count)).length = count * partition.eraseSize := by
    rw [blockBytes_length, List.length_take_of_le hcountLe]
  rw [mtdReadLoop]
  simp only [hgot, if_true, Nat.sub_self, Nat.min_zero, Nat.add_zero, List.take_zero,
    List.append_nil, Prog.run_bind, ← hcount, hblocks, List.length_append, htakeLength]
  by_cases hdone : len - got.length = count * partition.eraseSize
  · rw [if_pos (by omega), hdone]
    refine ⟨⟨buffer, partition.eraseSize, next⟩, after, blocks.drop count, ?_,
      ⟨hvalid.buffer_length, le_rfl⟩, hafter, ?_⟩
    · rw [blockBytes_take]
      rfl
    · rw [pending, List.drop_of_length_le hvalid.buffer_length.le, List.nil_append,
        blockBytes_drop]
  · rw [if_neg (by omega)]
    cases hdrop : blocks.drop count with
    | nil =>
        have hall := List.drop_eq_nil_iff.mp hdrop
        have hmul := Nat.mul_le_mul_right partition.eraseSize hall
        omega
    | cons data more =>
        rw [hdrop] at hafter
        cases hafter with
        | @block _ final _ last _ _ hrun hmore =>
            have hbytes : blockBytes blocks =
                blockBytes (blocks.take count) ++ (data.val ++ blockBytes more) := by
              rw [← blockBytes_cons, ← hdrop, ← blockBytes_append, List.take_append_drop]
            have hdata := data.property
            have hneed : len - (got.length + count * partition.eraseSize) =
                len - got.length - count * partition.eraseSize := by omega
            have hsplit : len - got.length = (blockBytes (blocks.take count)).length +
                (len - got.length - count * partition.eraseSize) := by
              rw [htakeLength]
              omega
            have hbuffered := @mtdReadLoop_buffered _ ⟨data.val, 0, final⟩
              (got ++ blockBytes (blocks.take count)) len fuel ⟨hdata, Nat.zero_le _⟩
              (by rw [List.length_append, htakeLength]; omega)
              (by simp only [List.length_append, htakeLength]; omega)
            rw [List.length_append, htakeLength, hneed] at hbuffered
            refine ⟨⟨data.val, 0 + (len - got.length - count * partition.eraseSize), final⟩,
              last, more, ?_, ⟨hdata, by simp only; omega⟩, hmore, ?_⟩
            · simp only [Prog.run_bind, hrun, hbuffered, Prog.run_pure]
              rw [hsplit, hbytes, List.take_length_add_append, ← hsplit,
                List.take_append_of_le_length (by omega)]
              simp only [List.drop_zero, List.append_assoc]
            · rw [pending, hsplit, hbytes, List.drop_length_add_append, ← hsplit,
                List.drop_append_of_le_length (by omega)]
              simp only [Nat.zero_add]

/-- One call of `mtd_read_data` delivers the next `len` bytes. -/
theorem Supplies.mtdReadData_run
    {ctx : MtdReadContext} {state : σ} {len : Nat} {blocks : List (Block partition)}
    (hsupplies : device.Supplies ctx.pos state blocks) (hvalid : ctx.Valid partition)
    (hshort : len < 2 ^ 31) (hlen : len ≤ (pending ctx blocks).length) :
    ∃ ctx' after rest,
      (mtdReadData partition ctx len).run device.handle state =
          ((some ((pending ctx blocks).take len), ctx'), after) ∧
        ctx'.Valid partition ∧ device.Supplies ctx'.pos after rest ∧
        pending ctx' rest = (pending ctx blocks).drop len := by
  have hbuffer := hvalid.buffer_length
  have hconsumed := hvalid.consumed_le
  have hhead : (ctx.buffer.drop ctx.consumed).length =
      partition.eraseSize - ctx.consumed := by
    rw [List.length_drop, hbuffer]
  unfold mtdReadData
  rw [if_neg (by omega)]
  by_cases hbuffered : len ≤ partition.eraseSize - ctx.consumed
  · have hrun := @mtdReadLoop_buffered _ ctx [] len (len + 1) hvalid (Nat.zero_le len)
      (by simpa using hbuffered)
    simp only [List.nil_append, List.length_nil, Nat.sub_zero] at hrun
    refine ⟨{ ctx with consumed := ctx.consumed + len }, state, blocks, ?_,
      ⟨hbuffer, by simp only; omega⟩, hsupplies, ?_⟩
    · rw [hrun, Prog.run_pure, pending, List.take_append_of_le_length (by omega)]
    · simp only [pending]
      rw [List.drop_append_of_le_length (by omega), List.drop_drop]
  · rw [pending, List.length_append] at hlen
    obtain ⟨ctx', after, rest, hrun, hvalid', hrest, hpending⟩ :=
      @Supplies.mtdReadLoop_run_direct _ _ _ { ctx with consumed := partition.eraseSize } _
        (ctx.buffer.drop ctx.consumed) len _ hsupplies len ⟨hbuffer, le_rfl⟩ rfl (by omega)
        (by omega)
    have hsplit : len = (ctx.buffer.drop ctx.consumed).length +
        (len - (ctx.buffer.drop ctx.consumed).length) := by omega
    refine ⟨ctx', after, rest, ?_, hvalid', hrest, ?_⟩
    · rw [@mtdReadLoop_drain _ _ [] _ (len + 1) hvalid (by simpa using hbuffered),
        List.nil_append, hrun]
      conv_rhs => rw [pending, hsplit, List.take_length_add_append]
    · rw [hpending]
      conv_rhs => rw [pending, hsplit, List.drop_length_add_append]

theorem Supplies.readDataCalls_run
    {ctx : MtdReadContext} {state : σ} {lens : List Nat} {blocks : List (Block partition)}
    (hsupplies : device.Supplies ctx.pos state blocks) (hvalid : ctx.Valid partition)
    (hshort : lens.sum < 2 ^ 31) (hlens : lens.sum ≤ (pending ctx blocks).length) :
    ∃ results : List Bytes,
      ((readDataCalls partition lens ctx).run device.handle state).1 = results.map some ∧
        results.map List.length = lens ∧
        results.flatten = (pending ctx blocks).take lens.sum := by
  induction lens generalizing ctx state blocks with
  | nil => exact ⟨[], rfl, rfl, by simp⟩
  | cons len lens ih =>
      rw [List.sum_cons] at hshort hlens
      obtain ⟨ctx', after, rest, hrun, hvalid', hrest, hpending⟩ :=
        hsupplies.mtdReadData_run hvalid (by omega : len < 2 ^ 31) (by omega)
      obtain ⟨results, hcalls, hlengths, hflatten⟩ := ih hrest hvalid' (by omega)
        (by rw [hpending, List.length_drop]; omega)
      refine ⟨(pending ctx blocks).take len :: results, ?_, ?_, ?_⟩
      · simp only [readDataCalls, Prog.run_bind, hrun, hcalls, Prog.pure_eq, Prog.run_pure,
          List.map_cons]
      · rw [List.map_cons, hlengths, List.length_take_of_le (by omega)]
      · rw [List.flatten_cons, hflatten, hpending, List.sum_cons, List.take_add]

end Device

/-- Reads do not depend on how they are cut: as long as the calls ask for no
more than the accepted blocks hold, every call returns its full length, and the
results one after the other are the beginning of these blocks. -/
theorem readDataCalls_cut
    {σ : Type} (device : Device partition σ) (state : σ) (count : Nat) (lens : List Nat)
    (hlens : lens.sum ≤ (blockBytes (device.accepted count 0 state)).length) :
    ∃ results : List Bytes,
      ((readDataCalls partition lens (mtdReadPartition partition)).run device.handle state).1 =
          results.map some ∧
        results.map List.length = lens ∧
        results.flatten = (blockBytes (device.accepted count 0 state)).take lens.sum := by
  have hsupplies := device.supplies_accepted count 0 state
  have hpending : Device.pending (mtdReadPartition partition) (device.accepted count 0 state) =
      blockBytes (device.accepted count 0 state) := by
    simp [Device.pending, mtdReadPartition]
  have hshort : lens.sum < 2 ^ 31 := by
    have hmul := Nat.mul_le_mul_right partition.eraseSize hsupplies.length_le
    have hsize : partition.blockCount * partition.eraseSize ≤ partition.size :=
      Nat.div_mul_le_self _ _
    have hlt := partition.size_lt
    rw [blockBytes_length] at hlens
    rw [Nat.sub_zero] at hmul
    omega
  obtain ⟨results, hcalls, hlengths, hflatten⟩ := @Device.Supplies.readDataCalls_run _ _ _
    (mtdReadPartition partition) _ lens _ hsupplies (mtdReadPartition_valid partition) hshort
    (by rwa [hpending])
  exact ⟨results, hcalls, hlengths, hpending ▸ hflatten⟩

/-- The device on which nothing goes wrong. -/
def faultFree (partition : MtdPartition) : Device partition (Flash partition) where
  handle := Flash.handle
  read_length := by
    intro pos flash data hread
    have hreply : (if pos < partition.blockCount then some (flash.block pos).val
        else none) = some data := hread
    split at hreply
    next =>
      rw [← Option.some.inj hreply]
      exact (flash.block pos).property
    next => simp at hreply

/-- There the accepted blocks are those that carry no mark and are not all
zero. -/
theorem faultFree_accepted
    (flash : Flash partition) {count pos : Nat}
    (hcount : (flash.accepted pos).length ≤ count) :
    blockBytes ((faultFree partition).accepted count pos flash) = flash.streamFrom pos := by
  induction count generalizing pos with
  | zero =>
      have hnil := List.length_eq_zero_iff.mp (Nat.le_zero.mp hcount)
      rw [Device.accepted, streamFrom_eq_nil hnil, blockBytes_nil]
  | succ count ih =>
      rw [Device.accepted]
      cases haccepted : flash.accepted pos with
      | nil =>
          obtain ⟨final, hrun⟩ := readBlock_run_nil flash haccepted
          rw [streamFrom_eq_nil haccepted]
          split
          next data next after hblock =>
            rw [faultFree, hrun] at hblock
            simp at hblock
          next => rfl
      | cons found rest =>
          have hrun := readBlock_run_cons flash haccepted
          have hrest := (accepted_cons haccepted).2.2.2
          rw [haccepted, List.length_cons] at hcount
          split
          next data next after hblock =>
            rw [faultFree, hrun] at hblock
            simp only [Prod.mk.injEq, Option.some.injEq] at hblock
            obtain ⟨⟨rfl, rfl⟩, rfl⟩ := hblock
            rw [blockBytes_cons, streamFrom_cons haccepted, ih (by rw [hrest]; omega)]
          next final after hblock =>
            rw [faultFree, hrun] at hblock
            simp at hblock

/-- Three calls, one of them for no bytes, on an erased partition. -/
theorem readDataCalls_cut_sample :
    ∃ results : List Bytes,
      ((readDataCalls samplePartition [3, 0, 5] (mtdReadPartition samplePartition)).run
          (faultFree samplePartition).handle sampleFlash).1 = results.map some ∧
        results.map List.length = [3, 0, 5] ∧
        results.flatten =
          (blockBytes ((faultFree samplePartition).accepted 2 0 sampleFlash)).take 8 := by
  have haccepted : sampleFlash.accepted 0 = [0, 1] := by
    have haccepts : ∀ pos, sampleFlash.accepts pos = true :=
      fun _ => anyNonZero_replicate (by decide)
    rw [Flash.accepted, List.filter_eq_self.mpr fun pos _ => haccepts pos]
    decide
  apply readDataCalls_cut (faultFree samplePartition) sampleFlash 2 [3, 0, 5]
  rw [faultFree_accepted sampleFlash (by rw [haccepted]; decide), streamFrom_length, haccepted]
  decide

end OpenRecovery.Mtd
