import OpenRecovery.MtdWriting
import Mathlib

/-!
# Writing on a device with faults

The writer tries every good block twice and gives up on a block after the
second failure; it erases such a block once more and goes on with the next
one.  The reader does not know about this: it skips a block only if it carries
a bad-block mark or holds nothing but zeros.  What was written is read back
whenever the blocks given up on happen to hold only zeros; otherwise their
contents appear in the middle of the data.
-/

namespace OpenRecovery.Mtd

open Effects

/-- What goes wrong while a session writes.  Attempts on a block are counted by
its erasures.  A failed erasure leaves some content behind, a failed write
leaves something other than the data, and the verification may be unable to
read the block. -/
structure FaultPlan (partition : MtdPartition) where
  erase : (pos attempt : Nat) → Option (Block partition)
  write : (pos attempt : Nat) → Option (Block partition → Block partition)
  reread : (pos attempt : Nat) → Bool
  write_ne : ∀ {pos attempt spoil data},
    write pos attempt = some spoil → spoil data ≠ data

structure FaultyFlash (partition : MtdPartition) where
  flash : Flash partition
  erasures : Nat → Nat

variable {partition : MtdPartition}

/-- A device on which no block has been erased yet. -/
def FaultyFlash.fresh (flash : Flash partition) : FaultyFlash partition where
  flash := flash
  erasures _ := 0

/-- The attempt that a write or a verification of the block belongs to. -/
def FaultyFlash.attempt (state : FaultyFlash partition) (pos : Nat) : Nat :=
  state.erasures pos - 1

def FaultPlan.handle (plan : FaultPlan partition) :
    (op : MtdOp) → FaultyFlash partition → op.Reply × FaultyFlash partition
  | .eccGetStats, state => (some 0, state)
  | .read pos, state =>
      (if plan.reread pos (state.attempt pos) then none
        else if pos < partition.blockCount then some (state.flash.block pos).val
        else none, state)
  | .memGetBadBlock pos, state => ((if state.flash.bad pos then 1 else 0 : Int), state)
  | .memErase pos, state =>
      let erasures := Function.update state.erasures pos (state.erasures pos + 1)
      match plan.erase pos (state.erasures pos) with
      | none => (true, ⟨state.flash.setBlock pos (erasedBlock partition), erasures⟩)
      | some junk => (false, ⟨state.flash.setBlock pos junk, erasures⟩)
  | .write pos data, state =>
      if hlength : data.length = partition.eraseSize then
        match plan.write pos (state.attempt pos) with
        | none => (true, { state with flash := state.flash.setBlock pos ⟨data, hlength⟩ })
        | some spoil =>
            (false, { state with flash := state.flash.setBlock pos (spoil ⟨data, hlength⟩) })
      else (false, state)

namespace FaultPlan

variable (plan : FaultPlan partition)

/-- Nothing goes wrong in this attempt on the block. -/
def works (pos attempt : Nat) : Bool :=
  (plan.erase pos attempt).isNone && (plan.write pos attempt).isNone &&
    !plan.reread pos attempt

/-- One of the two attempts on the block succeeds. -/
def usable (pos : Nat) : Bool :=
  plan.works pos 0 || plan.works pos 1

/-- What the last erasure leaves in a block that the writer gives up on. -/
def residue (pos : Nat) : Block partition :=
  (plan.erase pos 2).getD (erasedBlock partition)

end FaultPlan

/-! ## A whole session -/

/-- Consecutive calls of `mtd_write_data`, up to the first that fails. -/
def writeCalls (partition : MtdPartition) :
    (calls : List Bytes) → MtdWriteContext → MtdProg (Bool × MtdWriteContext)
  | [], ctx => pure (true, ctx)
  | data :: calls, ctx => do
      let (wrote, ctx) ← mtdWriteData partition ctx data
      if wrote ≠ data.length then pure (false, ctx)
      else writeCalls partition calls ctx

/-- All calls and the final `mtd_write_close` report success. -/
def writeSession (partition : MtdPartition) (calls : List Bytes) : MtdProg Bool := do
  let (done, ctx) ← writeCalls partition calls mtdWritePartition
  if done then
    let failed ← mtdWriteClose partition ctx
    pure (failed = 0)
  else
    pure false

/-! ## One block -/

section Attempts

variable {plan : FaultPlan partition} {data : Block partition} {pos : Nat}

@[simp] theorem setBlock_self_block (flash : Flash partition) (pos : Nat) :
    flash.setBlock pos (flash.block pos) = flash := by
  simp [Flash.setBlock]

theorem run_memErase_faulty (state : FaultyFlash partition) :
    (memErase pos).run plan.handle state =
      ((plan.erase pos (state.erasures pos)).isNone,
        ⟨state.flash.setBlock pos
            ((plan.erase pos (state.erasures pos)).getD (erasedBlock partition)),
          Function.update state.erasures pos (state.erasures pos + 1)⟩) := by
  change plan.handle (.memErase pos) state = _
  simp only [FaultPlan.handle]
  cases plan.erase pos (state.erasures pos) <;> rfl

theorem run_writeAt_faulty (state : FaultyFlash partition) :
    ((writeAt pos data.val).run plan.handle state).2 =
      ⟨state.flash.setBlock pos (((plan.write pos (state.attempt pos)).getD id) data),
        state.erasures⟩ := by
  change (plan.handle (.write pos data.val) state).2 = _
  simp only [FaultPlan.handle]
  rw [dif_pos data.property]
  cases plan.write pos (state.attempt pos) <;> rfl

theorem run_readAt_faulty (state : FaultyFlash partition) (hpos : pos < partition.blockCount) :
    (readAt pos).run plan.handle state =
      (if plan.reread pos (state.attempt pos) then none
        else some (state.flash.block pos).val, state) := by
  change plan.handle (.read pos) state = _
  rw [FaultPlan.handle]
  congr 2
  exact if_pos hpos

/-- One attempt: it verifies the block or leaves it to the next attempt. -/
theorem tryBlock_run_step
    (retries offset : Nat) (flash : Flash partition) (erasures : Nat → Nat)
    (hpos : pos < partition.blockCount) :
    ∃ (content : Block partition) (offset' : Nat),
      (tryBlock pos data.val (retries + 1) offset).run plan.handle ⟨flash, erasures⟩ =
        if plan.works pos (erasures pos) then
          ((true, pos + 1), ⟨flash.setBlock pos data,
            Function.update erasures pos (erasures pos + 1)⟩)
        else
          (tryBlock pos data.val retries offset').run plan.handle
            ⟨flash.setBlock pos content,
              Function.update erasures pos (erasures pos + 1)⟩ := by
  rw [tryBlock, Prog.run_bind, run_memErase_faulty]
  unfold FaultPlan.works
  cases herase : plan.erase pos (erasures pos) with
  | some junk => exact ⟨junk, offset, by simp⟩
  | none =>
      simp only [Option.isNone_none, if_true, Option.getD_none, Prog.run_bind,
        run_writeAt_faulty, FaultyFlash.attempt, Function.update_self, Nat.add_sub_cancel,
        run_readAt_faulty _ hpos, setBlock_setBlock, setBlock_block_self, Bool.true_and]
      cases hreread : plan.reread pos (erasures pos) with
      | true => exact ⟨_, pos, by simp; rfl⟩
      | false =>
          cases hwrite : plan.write pos (erasures pos) with
          | none => exact ⟨data, 0, by simp⟩
          | some spoil =>
              have hne : ¬ (spoil data).val = data.val := fun heq =>
                plan.write_ne hwrite (Subtype.ext heq)
              exact ⟨spoil data, pos + 1, by simp [hne]⟩

/-- The attempts on one block touch nothing else, and they end with the first
that works. -/
theorem tryBlock_run_faulty
    (retries offset : Nat) (flash : Flash partition) (erasures : Nat → Nat)
    (hpos : pos < partition.blockCount) :
    ∃ (content : Block partition) (offset' count : Nat),
      (tryBlock pos data.val retries offset).run plan.handle ⟨flash, erasures⟩ =
          (((List.range' (erasures pos) retries).any (plan.works pos), offset'),
            ⟨flash.setBlock pos content, Function.update erasures pos count⟩) ∧
        if (List.range' (erasures pos) retries).any (plan.works pos) then
          content = data ∧ offset' = pos + 1
        else count = erasures pos + retries := by
  induction retries generalizing flash erasures offset with
  | zero => exact ⟨flash.block pos, offset, erasures pos, by simp [tryBlock], by simp⟩
  | succ retries ih =>
      obtain ⟨content, next, hstep⟩ :=
        @tryBlock_run_step _ plan data _ retries offset flash erasures hpos
      rw [List.range'_succ, List.any_cons, hstep]
      cases hworks : plan.works pos (erasures pos) with
      | true => exact ⟨data, pos + 1, erasures pos + 1, by simp⟩
      | false =>
          obtain ⟨content', offset', count, hrun, hcases⟩ := ih next
            (flash.setBlock pos content) (Function.update erasures pos (erasures pos + 1))
          rw [Function.update_self, setBlock_setBlock, Function.update_idem] at hrun
          rw [Function.update_self, Nat.add_assoc, Nat.add_comm 1] at hcases
          refine ⟨content', offset', count, ?_, ?_⟩
          · rw [if_neg Bool.false_ne_true, hrun, Bool.false_or]
          · rw [Bool.false_or]
            exact hcases

end Attempts

/-! ## What a session leaves -/

/-- The blocks that can take data. -/
def slots (plan : FaultPlan partition) (bad : Nat → Bool) (positions : List Nat) : List Nat :=
  positions.filter fun pos => !bad pos && plan.usable pos

/-- Write the chunks to the usable blocks and leave a residue in every good
block passed over. -/
def Flash.record (plan : FaultPlan partition) :
    List Nat → List (Block partition) → Flash partition → Flash partition
  | pos :: positions, chunk :: chunks, flash =>
      if flash.bad pos then
        Flash.record plan positions (chunk :: chunks) flash
      else if plan.usable pos then
        Flash.record plan positions chunks (flash.setBlock pos chunk)
      else
        Flash.record plan positions (chunk :: chunks) (flash.setBlock pos (plan.residue pos))
  | _, _, flash => flash

/-- What `write_block` does, as seen from the rest of the session. -/
theorem writeBlockLoop_run_faulty
    {plan : FaultPlan partition} {data : Block partition}
    {left pos : Nat} {ctx : MtdWriteContext} {state : FaultyFlash partition}
    (hleft : pos + left ≤ partition.blockCount)
    (hfresh : ∀ other, pos ≤ other → state.erasures other = 0) :
    ∃ (code : Int) (ctx' : MtdWriteContext) (state' : FaultyFlash partition),
      (writeBlockLoop data.val left pos ctx).run plan.handle state = ((code, ctx'), state') ∧
        match slots plan state.flash.bad (List.range' pos left) with
        | [] => code ≠ 0
        | found :: rest =>
            code = 0 ∧ ctx'.stored = ctx.stored ∧ ctx'.pos = found + 1 ∧
              found < pos + left ∧
              state'.flash.bad = state.flash.bad ∧
              (∀ other, found + 1 ≤ other → state'.erasures other = 0) ∧
              slots plan state.flash.bad
                (List.range' (found + 1) (pos + left - (found + 1))) = rest ∧
              ∀ more, state.flash.record plan (List.range' pos left) (data :: more) =
                state'.flash.record plan
                  (List.range' (found + 1) (pos + left - (found + 1))) more := by
  induction left generalizing pos ctx state with
  | zero => exact ⟨-1, ctx, state, rfl, by simp [slots]⟩
  | succ left ih =>
      obtain ⟨flash, erasures⟩ := state
      have hpos : pos < partition.blockCount := by omega
      have hbadRun : (memGetBadBlock pos).run plan.handle ⟨flash, erasures⟩ =
          ((if flash.bad pos then 1 else 0 : Int), ⟨flash, erasures⟩) := rfl
      have hend : pos + (left + 1) = pos + 1 + left := by omega
      simp only at hfresh ⊢
      rw [writeBlockLoop, Prog.run_bind, hbadRun, List.range'_succ, hend]
      cases hbad : flash.bad pos with
      | true =>
          obtain ⟨code, ctx', state', hrun, hcases⟩ :=
            @ih (pos + 1) (addBadBlockOffset ctx pos) ⟨flash, erasures⟩
              (by omega) (fun other hother => hfresh other (by omega))
          refine ⟨code, ctx', state', by simpa using hrun, ?_⟩
          simpa [slots, hbad, Flash.record, addBadBlockOffset] using hcases
      | false =>
          have hzero : erasures pos = 0 := hfresh pos le_rfl
          obtain ⟨content, offset, count, htry, hverified⟩ := @tryBlock_run_faulty _ plan data _
              2 ctx.pos flash erasures hpos
          have hany : (List.range' (erasures pos) 2).any (plan.works pos) =
              plan.usable pos := by
            simp [hzero, List.range', FaultPlan.usable]
          rw [hany] at htry hverified
          simp only [Bool.false_eq_true, if_false, lt_self_iff_false, Prog.run_bind, htry]
          cases husable : plan.usable pos with
          | true =>
              rw [if_pos husable] at hverified
              obtain ⟨rfl, rfl⟩ := hverified
              refine ⟨0, _, _, rfl, ?_⟩
              have hrest : pos + 1 + left - (pos + 1) = left := by omega
              simp only [slots, List.filter_cons, hbad, husable, Bool.not_false,
                Bool.and_self, if_true, hrest, setBlock_bad, Flash.record,
                Bool.false_eq_true, if_false, true_and]
              refine ⟨by omega, ?_, fun _ => trivial⟩
              intro other hother
              rw [Function.update_of_ne (by omega)]
              exact hfresh other (by omega)
          | false =>
              rw [if_neg (by simp [husable])] at hverified
              rw [hzero] at hverified
              simp only [Bool.false_eq_true, if_false, Prog.run_bind, run_memErase_faulty,
                Function.update_self, hverified, Nat.zero_add, Function.update_idem,
                setBlock_setBlock]
              obtain ⟨code, ctx', state', hrun, hcases⟩ :=
                @ih (pos + 1) (addBadBlockOffset { ctx with pos := offset } pos)
                  ⟨flash.setBlock pos (plan.residue pos), Function.update erasures pos 3⟩
                  (by omega) (fun other hother =>
                    (Function.update_of_ne (by omega) _ _).trans (hfresh other (by omega)))
              refine ⟨code, ctx', state', hrun, ?_⟩
              simpa [slots, hbad, husable, Flash.record, addBadBlockOffset] using hcases

/-- The session on `start` has written the chunks `done` and will look for the
next block from `pos` on: writing further chunks from here gives what writing
all of them from the beginning gives. -/
structure Recorded
    (plan : FaultPlan partition) (start : Flash partition) (done : List (Block partition))
    (pos : Nat) (state : FaultyFlash partition) : Prop where
  bad_eq : state.flash.bad = start.bad
  fresh : ∀ other, pos ≤ other → state.erasures other = 0
  fits : done.length ≤ (slots plan start.bad (List.range' 0 partition.blockCount)).length
  slots_eq : slots plan start.bad (List.range' pos (partition.blockCount - pos)) =
    (slots plan start.bad (List.range' 0 partition.blockCount)).drop done.length
  record_eq : ∀ more,
    start.record plan (List.range' 0 partition.blockCount) (done ++ more) =
      state.flash.record plan (List.range' pos (partition.blockCount - pos)) more

theorem recorded_start (plan : FaultPlan partition) (start : Flash partition) :
    Recorded plan start [] 0 (.fresh start) where
  bad_eq := rfl
  fresh _ _ := rfl
  fits := Nat.zero_le _
  slots_eq := rfl
  record_eq _ := rfl

/-- Every call of `write_block` finds the next usable block, if there is one. -/
theorem writesBlocks_recorded
    {plan : FaultPlan partition} {start : Flash partition} {blocks : List (Block partition)} :
    WritesBlocks (Machine.atomic plan.handle) blocks (Recorded plan start)
      (fun _ => (slots plan start.bad (List.range' 0 partition.blockCount)).length <
        blocks.length)
      (fun _ => True) where
  crash_of_inv _ _ := trivial
  crash_of_failed _ := trivial
  write := by
    intro done data ctx state hbegins hrecorded
    apply Prog.safe_of_run
    have hlength := hbegins.length_le
    rw [List.length_append, List.length_singleton] at hlength
    by_cases hend : ctx.pos ≤ partition.blockCount
    · obtain ⟨code, ctx', state', hrun, hcases⟩ := @writeBlockLoop_run_faulty _ plan data
          (partition.blockCount - ctx.pos) _ ctx state (by omega) hrecorded.fresh
      rw [writeBlock, hrun]
      rw [hrecorded.bad_eq] at hcases
      split at hcases
      next hnone =>
        rw [hrecorded.slots_eq, List.drop_eq_nil_iff] at hnone
        exact .inr ⟨hcases, by omega⟩
      next found rest hfound =>
        rw [hrecorded.slots_eq] at hfound
        obtain ⟨hcode, hstored, hpos, -, hbad, hfresh, hrest, hrecord⟩ := hcases
        have hsub : ctx.pos + (partition.blockCount - ctx.pos) = partition.blockCount := by
          omega
        rw [hsub] at hrest
        refine .inl ⟨hcode, hstored, ?_⟩
        simp only
        rw [hpos]
        refine ⟨hbad, hfresh, ?_, ?_, ?_⟩
        · have hdrop := congrArg List.length hfound
          rw [List.length_drop, List.length_cons] at hdrop
          rw [List.length_append, List.length_singleton]
          omega
        · rw [hrest, List.length_append, ← List.drop_drop, hfound]
          rfl
        · intro more
          rw [List.append_assoc, hrecorded.record_eq, List.singleton_append, hrecord, hsub]
    · have hnone : partition.blockCount - ctx.pos = 0 := by omega
      have hslots := hrecorded.slots_eq
      rw [hnone, List.range'_zero, slots, List.filter_nil, eq_comm, List.drop_eq_nil_iff] at hslots
      rw [writeBlock, hnone]
      exact .inr ⟨by simp [writeBlockLoop], by omega⟩

section Session

variable {plan : FaultPlan partition} {start : Flash partition}
variable {chunks : List (Block partition)} {calls : List Bytes}

theorem writeCalls_safe
    {taken : Bytes} {ctx : MtdWriteContext} {state : FaultyFlash partition}
    {post : Bool × MtdWriteContext → FaultyFlash partition → Prop}
    (hstreamed : Streamed (Recorded plan start) chunks taken ctx state)
    (hcalls : taken ++ calls.flatten <+: blockBytes chunks)
    (hpost : ∀ ctx' after,
      Streamed (Recorded plan start) chunks (taken ++ calls.flatten) ctx' after →
        post (true, ctx') after)
    (hfail : ∀ ctx' after,
      (slots plan start.bad (List.range' 0 partition.blockCount)).length < chunks.length →
        post (false, ctx') after) :
    (writeCalls partition calls ctx).Safe (Machine.atomic plan.handle) post
      (fun _ => True) state := by
  induction calls generalizing taken ctx state with
  | nil =>
      rw [List.flatten_nil, List.append_nil] at hpost
      exact ⟨hpost ctx state hstreamed, trivial⟩
  | cons data calls ih =>
      rw [List.flatten_cons, ← List.append_assoc] at hcalls hpost
      rw [writeCalls, Prog.safe_bind]
      apply writesBlocks_recorded.mtdWriteData_safe hstreamed
        ((List.prefix_append _ _).trans hcalls)
      · intro ctx' after hafter
        simp only [ne_eq, not_true_eq_false, if_false]
        exact ih hafter hcalls hpost
      · intro ctx' after hafter
        have hne : ¬ (-1 : Int) = data.length := by omega
        simp only [hne, ne_eq, not_false_eq_true, if_true]
        exact ⟨hfail ctx' after hafter, trivial⟩

/-- A session reports success exactly if there are usable blocks for all
chunks, and then the device is as `record` says. -/
theorem writeSession_run
    {pad : Nat} (hpad : pad < partition.eraseSize)
    (hchunks : blockBytes chunks = calls.flatten ++ List.replicate pad 0) :
    ∃ state : FaultyFlash partition,
      (writeSession partition calls).run plan.handle (.fresh start) =
          (decide (chunks.length ≤
            (slots plan start.bad (List.range' 0 partition.blockCount)).length), state) ∧
        (chunks.length ≤
            (slots plan start.bad (List.range' 0 partition.blockCount)).length →
          state.flash = start.record plan (List.range' 0 partition.blockCount) chunks) := by
  have hsafe : (writeSession partition calls).Safe (Machine.atomic plan.handle)
      (fun ok after => ok = decide (chunks.length ≤
          (slots plan start.bad (List.range' 0 partition.blockCount)).length) ∧
        (ok = true →
          after.flash = start.record plan (List.range' 0 partition.blockCount) chunks))
      (fun _ => True) (.fresh start) := by
    rw [writeSession, Prog.safe_bind]
    apply writeCalls_safe (streamed_start (recorded_start plan start))
      (by rw [hchunks, List.nil_append]; exact List.prefix_append _ _)
    · intro ctx after hafter
      simp only [if_true]
      rw [Prog.safe_bind]
      apply writesBlocks_recorded.mtdWriteClose_safe hafter (by simpa using hchunks) hpad
      · intro pos final hfinal
        refine ⟨⟨by simp [hfinal.fits], fun _ => ?_⟩, trivial⟩
        have hrecord := hfinal.record_eq []
        rw [List.append_nil] at hrecord
        rw [hrecord]
        cases List.range' pos (partition.blockCount - pos) <;> rfl
      · intro final hfew
        refine ⟨⟨?_, by simp⟩, trivial⟩
        simpa using hfew
    · intro ctx after hfew
      refine ⟨⟨?_, by simp⟩, trivial⟩
      simpa using hfew
  have hpost := hsafe.run_post
  refine ⟨_, Prod.ext hpost.1 rfl, ?_⟩
  intro hfits
  exact hpost.2 (by rw [hpost.1]; simpa using hfits)

end Session

/-! ## What the reader finds -/

/-- The accepted blocks among the given ones. -/
def Flash.contents (flash : Flash partition) (positions : List Nat) : List (Block partition) :=
  (positions.filter flash.accepts).map flash.block

theorem streamFrom_eq_contents (flash : Flash partition) :
    flash.streamFrom 0 = blockBytes (flash.contents (List.range' 0 partition.blockCount)) := by
  rw [Flash.streamFrom, Flash.accepted, Nat.sub_zero, blockBytes, Flash.contents, List.map_map]
  rfl

/-- The chunks, with every residue that is not all zero in its place. -/
def merged (plan : FaultPlan partition) (bad : Nat → Bool) :
    List Nat → List (Block partition) → List (Block partition)
  | pos :: positions, chunk :: chunks =>
      if bad pos then
        merged plan bad positions (chunk :: chunks)
      else if plan.usable pos then
        chunk :: merged plan bad positions chunks
      else if anyNonZero (plan.residue pos).val then
        plan.residue pos :: merged plan bad positions (chunk :: chunks)
      else
        merged plan bad positions (chunk :: chunks)
  | _, _ => []

theorem record_bad
    (plan : FaultPlan partition) (positions : List Nat) (chunks : List (Block partition))
    (flash : Flash partition) :
    (flash.record plan positions chunks).bad = flash.bad := by
  fun_induction Flash.record plan positions chunks flash with
  | case1 pos positions chunk chunks flash hbad ih => exact ih
  | case2 pos positions chunk chunks flash hbad husable ih => exact ih
  | case3 pos positions chunk chunks flash hbad husable ih => exact ih
  | case4 => rfl

theorem record_block_of_notMem
    {plan : FaultPlan partition} {positions : List Nat} {chunks : List (Block partition)}
    {flash : Flash partition} {other : Nat} (hother : other ∉ positions) :
    (flash.record plan positions chunks).block other = flash.block other := by
  fun_induction Flash.record plan positions chunks flash with
  | case1 pos positions chunk chunks flash hbad ih =>
      exact ih (fun hmem => hother (List.mem_cons_of_mem _ hmem))
  | case2 pos positions chunk chunks flash hbad husable ih =>
      rw [List.mem_cons, not_or] at hother
      rw [ih hother.2, setBlock_block_ne _ _ hother.1]
  | case3 pos positions chunk chunks flash hbad husable ih =>
      rw [List.mem_cons, not_or] at hother
      rw [ih hother.2, setBlock_block_ne _ _ hother.1]
  | case4 => rfl

theorem contents_cons
    (flash : Flash partition) (pos : Nat) (positions : List Nat) :
    flash.contents (pos :: positions) =
      if flash.accepts pos then flash.block pos :: flash.contents positions
      else flash.contents positions := by
  rw [Flash.contents, List.filter_cons]
  split <;> rfl

/-- The reader finds the chunks and the residues. -/
theorem merged_prefix_contents
    {plan : FaultPlan partition} {positions : List Nat} {chunks : List (Block partition)}
    {flash : Flash partition} (hnodup : positions.Nodup)
    (hnonzero : ∀ chunk ∈ chunks, anyNonZero chunk.val = true) :
    merged plan flash.bad positions chunks <+:
      (flash.record plan positions chunks).contents positions := by
  fun_induction Flash.record plan positions chunks flash with
  | case1 pos positions chunk chunks flash hbad ih =>
      rw [List.nodup_cons] at hnodup
      have haccepts : (flash.record plan positions (chunk :: chunks)).accepts pos = false := by
        simp [Flash.accepts, record_bad, hbad]
      rw [merged, if_pos hbad, contents_cons, haccepts]
      exact ih hnodup.2 hnonzero
  | case2 pos positions chunk chunks flash hbad husable ih =>
      rw [List.nodup_cons] at hnodup
      have hblock := @record_block_of_notMem _ plan _ chunks (flash.setBlock pos chunk) _
          hnodup.1
      rw [setBlock_block_self] at hblock
      have haccepts : ((flash.setBlock pos chunk).record plan positions chunks).accepts pos =
          true := by
        simp [Flash.accepts, record_bad, hbad, hblock, hnonzero chunk List.mem_cons_self]
      rw [merged, if_neg hbad, if_pos husable, contents_cons, if_pos haccepts, hblock,
        List.cons_prefix_cons]
      exact ⟨rfl, ih hnodup.2 (fun other hmem => hnonzero other (List.mem_cons_of_mem _ hmem))⟩
  | case3 pos positions chunk chunks flash hbad husable ih =>
      rw [List.nodup_cons] at hnodup
      have hblock := @record_block_of_notMem _ plan _ (chunk :: chunks)
          (flash.setBlock pos (plan.residue pos)) _ hnodup.1
      rw [setBlock_block_self] at hblock
      have haccepts : ((flash.setBlock pos (plan.residue pos)).record plan positions
          (chunk :: chunks)).accepts pos = anyNonZero (plan.residue pos).val := by
        simp [Flash.accepts, record_bad, hbad, hblock]
      rw [merged, if_neg hbad, if_neg husable, contents_cons, haccepts, hblock]
      split
      next => exact List.cons_prefix_cons.mpr ⟨rfl, ih hnodup.2 hnonzero⟩
      next => exact ih hnodup.2 hnonzero
  | case4 positions chunks flash hnone =>
      cases positions with
      | nil => exact List.nil_prefix
      | cons pos positions =>
          cases chunks with
          | nil => exact List.nil_prefix
          | cons chunk chunks => exact (hnone _ _ _ _ rfl rfl).elim

/-- The good blocks that writing `count` chunks reaches. -/
def reached (plan : FaultPlan partition) (bad : Nat → Bool) :
    (positions : List Nat) → (count : Nat) → List Nat
  | pos :: positions, count + 1 =>
      if bad pos then reached plan bad positions (count + 1)
      else pos :: reached plan bad positions (if plan.usable pos then count else count + 1)
  | _, _ => []

section Agreement

variable {plan : FaultPlan partition} {bad : Nat → Bool}

/-- If the reader skips every residue, only the chunks remain. -/
theorem merged_eq_chunks
    {positions : List Nat} {chunks : List (Block partition)}
    (hfits : chunks.length ≤ (slots plan bad positions).length)
    (hreached : ∀ pos ∈ reached plan bad positions chunks.length,
      plan.usable pos = true ∨ anyNonZero (plan.residue pos).val = false) :
    merged plan bad positions chunks = chunks := by
  induction positions generalizing chunks with
  | nil =>
      have hnil : chunks = [] := by simpa [slots] using hfits
      rw [hnil, merged]
      simp
  | cons pos positions ih =>
      cases chunks with
      | nil => simp [merged]
      | cons chunk chunks =>
          rw [List.length_cons, reached] at hreached
          rw [slots, List.filter_cons] at hfits
          rw [merged]
          cases hbad : bad pos with
          | true =>
              simp only [hbad, if_true, Bool.not_true, Bool.false_and, Bool.false_eq_true,
                if_false] at hreached hfits ⊢
              exact ih hfits hreached
          | false =>
              simp only [hbad, Bool.false_eq_true, if_false, Bool.not_false,
                Bool.true_and] at hreached hfits ⊢
              have hrest := fun other hmem =>
                hreached other (List.mem_cons_of_mem _ hmem)
              cases husable : plan.usable pos with
              | true =>
                  simp only [husable, if_true, List.length_cons,
                    Nat.add_le_add_iff_right] at hrest hfits ⊢
                  rw [ih hfits hrest]
              | false =>
                  have hzero := (hreached pos List.mem_cons_self).resolve_left (by simp [husable])
                  simp only [husable, Bool.false_eq_true, if_false, hzero] at hrest hfits ⊢
                  exact ih hfits hrest

/-- Any block has another one beside it that is not all zero. -/
theorem exists_other_block (block : Block partition) :
    ∃ other : Block partition, anyNonZero other.val = true ∧ other ≠ block := by
  have hsize := partition.eraseSize_pos
  by_cases hone : block = ⟨List.replicate partition.eraseSize 1, List.length_replicate⟩
  · refine ⟨⟨List.replicate partition.eraseSize 2, List.length_replicate⟩,
      anyNonZero_replicate (by decide), ?_⟩
    rw [hone]
    intro heq
    have hbytes := List.replicate_right_injective hsize.ne' (Subtype.ext_iff.mp heq)
    exact absurd hbytes (by decide)
  · exact ⟨⟨List.replicate partition.eraseSize 1, List.length_replicate⟩,
      anyNonZero_replicate (by decide), fun heq => hone heq.symm⟩

/-- A residue that is not skipped shows up in place of some chunks. -/
theorem exists_chunks_ne_merged
    {positions : List Nat} {count pos : Nat}
    (hmem : pos ∈ reached plan bad positions count) (husable : plan.usable pos = false)
    (hresidue : anyNonZero (plan.residue pos).val = true) :
    ∃ chunks : List (Block partition), chunks.length = count ∧
      (∀ chunk ∈ chunks, anyNonZero chunk.val = true) ∧
      ∀ rest, ¬ chunks <+: merged plan bad positions chunks ++ rest := by
  induction positions generalizing count with
  | nil => simp [reached] at hmem
  | cons head positions ih =>
      cases count with
      | zero => simp [reached] at hmem
      | succ count =>
          rw [reached] at hmem
          cases hbad : bad head with
          | true =>
              simp only [hbad, if_true] at hmem
              obtain ⟨chunks, hlength, hnonzero, hdiffers⟩ := ih hmem
              refine ⟨chunks, hlength, hnonzero, ?_⟩
              cases chunks with
              | nil => simp at hlength
              | cons chunk chunks =>
                  rw [merged, if_pos hbad]
                  exact hdiffers
          | false =>
              simp only [hbad, Bool.false_eq_true, if_false, List.mem_cons] at hmem
              obtain ⟨fill, hfill, -⟩ := exists_other_block (plan.residue head)
              cases hhead : plan.usable head with
              | true =>
                  have hne : pos ≠ head := by
                    rintro rfl
                    simp [husable] at hhead
                  have hrest := hmem.resolve_left hne
                  simp only [hhead, if_true] at hrest
                  obtain ⟨chunks, hlength, hnonzero, hdiffers⟩ := ih hrest
                  refine ⟨fill :: chunks, by rw [List.length_cons, hlength], ?_, ?_⟩
                  · rintro chunk hchunk
                    rcases List.mem_cons.mp hchunk with rfl | hchunk
                    · exact hfill
                    · exact hnonzero chunk hchunk
                  · intro rest hbegins
                    rw [merged, if_neg (by simp [hbad]), if_pos hhead, List.cons_append,
                      List.cons_prefix_cons] at hbegins
                    exact hdiffers rest hbegins.2
              | false =>
                  cases hzero : anyNonZero (plan.residue head).val with
                  | true =>
                      obtain ⟨other, hother, hne⟩ := exists_other_block (plan.residue head)
                      refine ⟨List.replicate (count + 1) other, List.length_replicate, ?_, ?_⟩
                      · intro chunk hchunk
                        rw [List.eq_of_mem_replicate hchunk]
                        exact hother
                      · intro rest hbegins
                        rw [List.replicate_succ, merged, if_neg (by simp [hbad]),
                          if_neg (by simp [hhead]), if_pos hzero, List.cons_append,
                          List.cons_prefix_cons] at hbegins
                        exact hne hbegins.1
                  | false =>
                      have hne : pos ≠ head := by
                        rintro rfl
                        simp [hresidue] at hzero
                      have hrest := hmem.resolve_left hne
                      simp only [hhead, Bool.false_eq_true, if_false] at hrest
                      obtain ⟨chunks, hlength, hnonzero, hdiffers⟩ := ih hrest
                      refine ⟨chunks, hlength, hnonzero, ?_⟩
                      cases chunks with
                      | nil => simp at hlength
                      | cons chunk chunks =>
                          rw [merged, if_neg (by simp [hbad]), if_neg (by simp [hhead]),
                            if_neg (by simp [hzero])]
                          exact hdiffers

/-- `chunks` are the erase-size chunks of the data, the last one padded with
zeros as `mtd_write_close` does it. -/
def Chunked (data : Bytes) (chunks : List (Block partition)) : Prop :=
  ∃ pad, pad < partition.eraseSize ∧ blockBytes chunks = data ++ List.replicate pad 0

/-- Data that fits a number of blocks fits them with its padding. -/
theorem Chunked.fits
    {data : Bytes} {chunks : List (Block partition)} {room : Nat}
    (hchunked : Chunked data chunks) (hfits : data.length ≤ room * partition.eraseSize) :
    chunks.length ≤ room := by
  obtain ⟨pad, hpad, hchunks⟩ := hchunked
  have hlength := congrArg List.length hchunks
  rw [blockBytes_length, List.length_append, List.length_replicate] at hlength
  by_contra hlt
  have hmul := Nat.mul_le_mul_right partition.eraseSize (Nat.succ_le_of_lt (not_le.mp hlt))
  rw [Nat.succ_mul] at hmul
  omega

/-- A session that wrote `calls` successfully is followed by a fault-free
reading that returns the data. -/
def ReadsBack (plan : FaultPlan partition) (start : Flash partition) (calls : List Bytes) :
    Prop :=
  ((writeSession partition calls).run plan.handle (.fresh start)).1 = true →
    ((mtdReadData partition (mtdReadPartition partition) calls.flatten.length).run Flash.handle
      ((writeSession partition calls).run plan.handle (.fresh start)).2.flash).1.1 =
        some calls.flatten

/-- The data is read back if it is what the reader finds first. -/
theorem readsBack_iff
    {start : Flash partition} {calls : List Bytes} {chunks : List (Block partition)}
    (hchunked : Chunked calls.flatten chunks) :
    ReadsBack plan start calls ↔
      (chunks.length ≤ (slots plan start.bad (List.range' 0 partition.blockCount)).length →
        calls.flatten <+: blockBytes
          ((start.record plan (List.range' 0 partition.blockCount) chunks).contents
            (List.range' 0 partition.blockCount))) := by
  obtain ⟨pad, hpad, hchunks⟩ := hchunked
  obtain ⟨state, hrun, hflash⟩ := @writeSession_run _ plan start _ _ _ hpad hchunks
  rw [ReadsBack, hrun]
  simp only [decide_eq_true_eq]
  refine imp_congr_right fun hfits => ?_
  have hshort : calls.flatten.length < 2 ^ 31 := by
    have hlength := congrArg List.length hchunks
    rw [blockBytes_length, List.length_append] at hlength
    have hslots := List.length_filter_le (fun pos => !start.bad pos && plan.usable pos)
      (List.range' 0 partition.blockCount)
    rw [List.length_range'] at hslots
    have hmul := Nat.mul_le_mul_right partition.eraseSize (hfits.trans hslots)
    have hsize : partition.blockCount * partition.eraseSize ≤ partition.size :=
      Nat.div_mul_le_self _ _
    have := partition.size_lt
    omega
  obtain ⟨ctx, hread, -⟩ :=
    mtdReadData_run state.flash (mtdReadPartition_valid partition) hshort
  rw [hread, mtdReadPartition_remaining, streamFrom_eq_contents, hflash hfits,
    List.prefix_iff_eq_take]
  split
  next => rw [Option.some.injEq, eq_comm]
  next hlong =>
    refine ⟨fun h => absurd h (by simp), fun heq => ?_⟩
    have hlength := congrArg List.length heq
    rw [List.length_take] at hlength
    omega

/-- Whatever the data, it is read back from every successful session exactly if
there is no successful session of this size at all, or the reader skips every
block that the writer gave up on. -/
theorem writeSession_readsBack_iff
    (plan : FaultPlan partition) (start : Flash partition) (count : Nat) :
    (∀ (calls : List Bytes) (chunks : List (Block partition)),
        Chunked calls.flatten chunks → chunks.length = count →
        (∀ chunk ∈ chunks, anyNonZero chunk.val = true) → ReadsBack plan start calls) ↔
      (slots plan start.bad (List.range' 0 partition.blockCount)).length < count ∨
        ∀ pos ∈ reached plan start.bad (List.range' 0 partition.blockCount) count,
          plan.usable pos = true ∨ anyNonZero (plan.residue pos).val = false := by
  have hnodup : (List.range' 0 partition.blockCount).Nodup := List.nodup_range' ..
  constructor
  · intro hreads
    by_contra hcondition
    rw [not_or, not_lt] at hcondition
    obtain ⟨hfits, hreached⟩ := hcondition
    push Not at hreached
    obtain ⟨pos, hmem, husable, hresidue⟩ := hreached
    obtain ⟨chunks, rfl, hnonzero, hdiffers⟩ := exists_chunks_ne_merged hmem
      (Bool.eq_false_iff.mpr husable) (Bool.ne_false_iff.mp hresidue)
    have hchunked : Chunked [blockBytes chunks].flatten chunks :=
      ⟨0, partition.eraseSize_pos, by simp⟩
    have hbegins := (readsBack_iff hchunked).mp
      (hreads [blockBytes chunks] chunks hchunked rfl hnonzero) hfits
    obtain ⟨rest, hcontents⟩ := @merged_prefix_contents _ plan _ _ start hnodup hnonzero
    apply hdiffers rest
    rw [hcontents]
    apply @begins_of_blockBytes _ _ _ []
    simpa using hbegins
  · intro hcondition calls chunks hchunked hlength hnonzero
    subst hlength
    rw [readsBack_iff hchunked]
    intro hfits
    have hreached := hcondition.resolve_left (not_lt.mpr hfits)
    have hbegins := @merged_prefix_contents _ plan _ _ start hnodup hnonzero
    rw [merged_eq_chunks hfits hreached] at hbegins
    obtain ⟨pad, -, hchunks⟩ := hchunked
    obtain ⟨rest, hrest⟩ := hbegins
    rw [← hrest, blockBytes_append, hchunks, List.append_assoc]
    exact List.prefix_append _ _

end Agreement

/-- Every write to the first block goes wrong. -/
def wornPlan : FaultPlan samplePartition where
  erase _ _ := none
  write pos _ :=
    if pos = 0 then
      some fun data =>
        if data = erasedBlock samplePartition then
          ⟨List.replicate samplePartition.eraseSize 1, List.length_replicate⟩
        else erasedBlock samplePartition
    else none
  reread _ _ := false
  write_ne := by
    intro pos attempt spoil data hspoil
    split at hspoil
    · obtain rfl := Option.some.inj hspoil
      simp only
      split
      next herased =>
        rw [herased]
        intro heq
        have hbytes := List.replicate_right_injective samplePartition.eraseSize_pos.ne'
          (Subtype.ext_iff.mp heq)
        exact absurd hbytes (by decide)
      next hother => exact Ne.symm hother
    · simp at hspoil

def sampleChunk : Block samplePartition :=
  ⟨List.replicate samplePartition.eraseSize 1, List.length_replicate⟩

theorem sampleChunk_ne_erased : sampleChunk ≠ erasedBlock samplePartition := by
  intro heq
  have hbytes := List.replicate_right_injective samplePartition.eraseSize_pos.ne'
    (Subtype.ext_iff.mp heq)
  exact absurd hbytes (by decide)

/-- One block of data, written to the second block after the first was given
up, is not read back: the reader returns the erased first block. -/
theorem wornPlan_not_readsBack :
    anyNonZero sampleChunk.val = true ∧
      ¬ ReadsBack wornPlan sampleFlash [sampleChunk.val] := by
  have hnonzero : anyNonZero sampleChunk.val = true := anyNonZero_replicate (by decide)
  refine ⟨hnonzero, fun hreads => ?_⟩
  have hchunked : Chunked [sampleChunk.val].flatten [sampleChunk] :=
    ⟨0, samplePartition.eraseSize_pos, by simp⟩
  have hpositions : List.range' 0 samplePartition.blockCount = [0, 1] := by decide
  have hfirst : wornPlan.usable 0 = false := by decide
  have hsecond : wornPlan.usable 1 = true := by decide
  have hbegins := (readsBack_iff hchunked).mp hreads (by
    simp [hpositions, slots, sampleFlash, hfirst, hsecond])
  obtain ⟨rest, hcontents⟩ := @merged_prefix_contents _ wornPlan
      (List.range' 0 samplePartition.blockCount) [sampleChunk] sampleFlash (List.nodup_range' ..)
      (by simpa using hnonzero)
  have hmerged : merged wornPlan sampleFlash.bad (List.range' 0 samplePartition.blockCount)
      [sampleChunk] = [erasedBlock samplePartition, sampleChunk] := by
    have hresidue : anyNonZero (wornPlan.residue 0).val = true :=
      anyNonZero_replicate (by decide)
    simp only [hpositions, merged, sampleFlash, Bool.false_eq_true, if_false, hfirst, hsecond,
      if_true, hresidue]
    rfl
  rw [hmerged] at hcontents
  rw [← hcontents] at hbegins
  have hblocks : [sampleChunk] <+: [erasedBlock samplePartition, sampleChunk] ++ rest := by
    apply @begins_of_blockBytes _ _ _ []
    rw [List.append_nil]
    exact hbegins
  rw [List.cons_append, List.cons_prefix_cons] at hblocks
  exact sampleChunk_ne_erased hblocks.1

end OpenRecovery.Mtd
