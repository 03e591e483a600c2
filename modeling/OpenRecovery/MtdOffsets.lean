import OpenRecovery.MtdCuts
import Mathlib

/-!
# The offsets that a writer remembers

A write context keeps the offsets of the blocks it has passed over.  On a device
without faults these are the bad blocks before its own offset, in their order,
and `mtd_find_write_start` finds among them where a section really began.
-/

namespace OpenRecovery.Mtd

open Effects

variable {partition : MtdPartition}

/-- The loop of `mtd_find_write_start`. -/
def findWriteStart (partition : MtdPartition) : (offsets : List Nat) → (pos : Int) → Int
  | [], pos => pos
  | offset :: offsets, pos =>
      if (offset * partition.eraseSize : Nat) = pos then
        findWriteStart partition offsets (pos + partition.eraseSize)
      else if pos < (offset * partition.eraseSize : Nat) then pos
      else findWriteStart partition offsets pos

/-- `mtd_find_write_start`: the first good block at or after `pos`. -/
def mtdFindWriteStart (partition : MtdPartition) (ctx : MtdWriteContext) (pos : Int) : Int :=
  findWriteStart partition ctx.badBlockOffsets pos

/-! ## One block -/

section Blocks

variable {flash : Flash partition} {ctx : MtdWriteContext}

theorem tryBlock_run
    (flash : Flash partition) {pos : Nat} (hpos : pos < partition.blockCount)
    (data : Block partition) (offset : Nat) :
    (tryBlock pos data.val 2 offset).run Flash.handle flash =
      ((true, pos + 1), flash.setBlock pos data) := by
  have hsafe := @tryBlock_safe _ flash data (fun _ => True) pos offset
    (fun result after => result = (true, pos + 1) ∧ after = flash.setBlock pos data)
    hpos trivial trivial trivial ⟨rfl, rfl⟩
  obtain ⟨hresult, hflash⟩ := hsafe.run_post
  exact Prod.ext hresult hflash

/-- The bad blocks on the way are remembered. -/
theorem writeBlockLoop_run
    {left pos found : Nat} {rest : List Nat} (data : Block partition)
    (hleft : pos + left ≤ partition.blockCount)
    (hfound : ((List.range' pos left).filter fun block => !flash.bad block) = found :: rest) :
    (writeBlockLoop data.val left pos ctx).run Flash.handle flash =
      ((0, ⟨ctx.stored, found + 1,
        ctx.badBlockOffsets ++ List.range' pos (found - pos)⟩), flash.setBlock found data) := by
  induction left generalizing pos ctx with
  | zero => simp at hfound
  | succ left ih =>
      have hrange := filter_range'_cons hfound
      rw [List.range'_succ, List.filter_cons] at hfound
      cases hbad : flash.bad pos with
      | true =>
          rw [hbad] at hfound
          have hstep := @ih (addBadBlockOffset ctx pos) _ (by omega) hfound
          have hlt : pos < found := by
            rcases hrange.1.lt_or_eq with hlt | rfl
            · exact hlt
            · simp [hbad] at hrange
          have hsplit : List.range' pos (found - pos) =
              pos :: List.range' (pos + 1) (found - (pos + 1)) := by
            rw [show found - pos = found - (pos + 1) + 1 by omega, List.range'_succ]
          simp only [writeBlockLoop, Prog.run_bind, run_memGetBadBlock, hbad, if_true,
            zero_lt_one]
          rw [hstep, hsplit, addBadBlockOffset, List.append_assoc, List.singleton_append]
      | false =>
          simp only [hbad, Bool.not_false, if_true, List.cons.injEq] at hfound
          obtain ⟨rfl, -⟩ := hfound
          simp only [writeBlockLoop, Prog.run_bind, run_memGetBadBlock, hbad,
            Bool.false_eq_true, if_false, lt_self_iff_false,
            tryBlock_run flash (by omega : pos < partition.blockCount), if_true,
            Prog.pure_eq, Prog.run_pure, Nat.sub_self, List.range'_zero, List.append_nil]

theorem writeBlockLoop_run_full
    {left pos : Nat} (data : Bytes)
    (hnone : ((List.range' pos left).filter fun block => !flash.bad block) = []) :
    (writeBlockLoop data left pos ctx).run Flash.handle flash =
      ((-1, ⟨ctx.stored, ctx.pos, ctx.badBlockOffsets ++ List.range' pos left⟩),
        flash) := by
  induction left generalizing pos ctx with
  | zero => simp [writeBlockLoop]
  | succ left ih =>
      rw [List.range'_succ, List.filter_cons] at hnone
      cases hbad : flash.bad pos with
      | true =>
          rw [hbad] at hnone
          have hstep := @ih (addBadBlockOffset ctx pos) _ hnone
          simp only [writeBlockLoop, Prog.run_bind, run_memGetBadBlock, hbad, if_true,
            zero_lt_one]
          rw [hstep, addBadBlockOffset, List.range'_succ]
          simp
      | false => simp [hbad] at hnone

theorem writeBlock_run
    {found : Nat} {rest : List Nat} (data : Block partition)
    (hfound : flash.goodFrom ctx.pos = found :: rest) :
    (writeBlock partition ctx data.val).run Flash.handle flash =
      ((0, ⟨ctx.stored, found + 1,
        ctx.badBlockOffsets ++ List.range' ctx.pos (found - ctx.pos)⟩),
        flash.setBlock found data) := by
  have hcons := goodFrom_cons hfound
  exact writeBlockLoop_run data (by omega) hfound

theorem writeBlock_run_full (data : Bytes) (hnone : flash.goodFrom ctx.pos = []) :
    (writeBlock partition ctx data).run Flash.handle flash =
      ((-1, ⟨ctx.stored, ctx.pos, ctx.badBlockOffsets ++
        List.range' ctx.pos (partition.blockCount - ctx.pos)⟩), flash) :=
  writeBlockLoop_run_full data hnone

end Blocks

/-! ## What the context remembers -/

/-- The context remembers exactly the bad blocks before its offset. -/
def RemembersBad (bad : Nat → Bool) (ctx : MtdWriteContext) : Prop :=
  ctx.badBlockOffsets = (List.range' 0 ctx.pos).filter bad

theorem remembersBad_start (bad : Nat → Bool) : RemembersBad bad mtdWritePartition := rfl

theorem RemembersBad.sorted
    {bad : Nat → Bool} {ctx : MtdWriteContext} (hremembers : RemembersBad bad ctx) :
    ctx.badBlockOffsets.Pairwise (· < ·) := by
  rw [hremembers]
  exact List.Pairwise.filter _ List.pairwise_lt_range'

/-- In front of the first accepted position nothing is accepted. -/
theorem not_accepted_before
    {accept : Nat → Bool} {left pos found : Nat} {rest : List Nat}
    (hfound : (List.range' pos left).filter accept = found :: rest) :
    ∀ block, pos ≤ block → block < found → accept block = false := by
  induction left generalizing pos with
  | zero => simp at hfound
  | succ left ih =>
      rw [List.range'_succ, List.filter_cons] at hfound
      intro block hle hlt
      split at hfound
      next haccept =>
        rw [List.cons.injEq] at hfound
        omega
      next hreject =>
        rcases hle.lt_or_eq with hlater | rfl
        · exact ih hfound block hlater hlt
        · simpa using hreject

/-- The bad blocks up to the first good one at or after `pos`. -/
theorem filter_bad_succ
    {flash : Flash partition} {pos found : Nat} {rest : List Nat}
    (hfound : flash.goodFrom pos = found :: rest) :
    (List.range' 0 (found + 1)).filter flash.bad =
      (List.range' 0 pos).filter flash.bad ++ List.range' pos (found - pos) := by
  obtain ⟨hle, -, hgood, -⟩ := goodFrom_cons hfound
  have hbad : ∀ block ∈ List.range' pos (found - pos), flash.bad block = true := by
    intro block hmem
    rw [List.mem_range'_1] at hmem
    have hreject := not_accepted_before hfound block hmem.1 (by omega)
    simpa using hreject
  have hsplit : List.range' 0 (found + 1) =
      List.range' 0 pos ++ (List.range' pos (found - pos) ++ [found]) := by
    rw [List.range'_concat, Nat.one_mul, Nat.zero_add, ← List.append_assoc]
    congr 1
    have happend := @List.range'_append_1 0 pos (found - pos)
    rw [Nat.zero_add, Nat.add_sub_cancel' hle] at happend
    exact happend.symm
  rw [hsplit, List.filter_append, List.filter_append, List.filter_eq_self.mpr hbad,
    List.filter_cons, hgood]
  simp

section Contexts

variable {bad : Nat → Bool} {flash : Flash partition} {ctx : MtdWriteContext}

theorem writeBlock_remembers
    (data : Block partition) (hbad : flash.bad = bad) (hremembers : RemembersBad bad ctx) :
    (writeBlock partition ctx data.val).Safe (Machine.atomic Flash.handle)
      (fun result after => after.bad = bad ∧ (result.1 = 0 → RemembersBad bad result.2))
      (fun _ => True) flash := by
  apply Prog.safe_of_run
  cases hgood : flash.goodFrom ctx.pos with
  | nil =>
      rw [writeBlock_run_full data.val hgood]
      exact ⟨hbad, fun hzero => absurd hzero (by simp)⟩
  | cons found rest =>
      rw [writeBlock_run data hgood]
      refine ⟨hbad, fun _ => ?_⟩
      have hfilter := filter_bad_succ hgood
      rw [hbad] at hfilter
      rw [RemembersBad, hfilter, ← hremembers]

theorem writeWholeBlocks_remembers
    {count : Nat} {data : Bytes} (hdata : count * partition.eraseSize ≤ data.length)
    (hbad : flash.bad = bad) (hremembers : RemembersBad bad ctx) :
    (writeWholeBlocks partition count ctx data).Safe (Machine.atomic Flash.handle)
      (fun result after => after.bad = bad ∧
        (result.1.isSome → RemembersBad bad result.2))
      (fun _ => True) flash := by
  induction count generalizing ctx data flash with
  | zero => exact ⟨⟨hbad, fun _ => hremembers⟩, trivial⟩
  | succ count ih =>
      rw [Nat.succ_mul] at hdata
      have hblock : (data.take partition.eraseSize).length = partition.eraseSize :=
        List.length_take_of_le (by omega)
      rw [writeWholeBlocks, Prog.safe_bind]
      apply (writeBlock_remembers ⟨_, hblock⟩ hbad hremembers).mono _ (fun _ h => h)
      rintro ⟨failed, ctx'⟩ after ⟨hbad', hnext⟩
      simp only at hnext ⊢
      by_cases hfailed : failed = 0
      · rw [if_neg (by simp [hfailed])]
        apply ih _ hbad' (hnext hfailed)
        rw [List.length_drop]
        omega
      · rw [if_pos hfailed]
        exact ⟨⟨hbad', fun hsome => absurd hsome (by simp)⟩, trivial⟩

theorem flushStored_remembers
    (data : Block partition) (hbad : flash.bad = bad) (hremembers : RemembersBad bad ctx) :
    (flushStored partition ctx data.val).Safe (Machine.atomic Flash.handle)
      (fun result after => after.bad = bad ∧ (result.1 = 0 → RemembersBad bad result.2))
      (fun _ => True) flash := by
  rw [flushStored, Prog.safe_bind]
  apply (writeBlock_remembers data hbad hremembers).mono _ (fun _ h => h)
  rintro ⟨failed, ctx'⟩ after ⟨hbad', hnext⟩
  simp only at hnext ⊢
  by_cases hfailed : failed = 0
  · rw [if_neg (by simp [hfailed])]
    exact ⟨⟨hbad', fun _ => hnext hfailed⟩, trivial⟩
  · rw [if_pos hfailed]
    exact ⟨⟨hbad', fun hzero => absurd hzero hfailed⟩, trivial⟩

theorem mtdWriteLoop_remembers
    {fuel : Nat} {data : Bytes} (hbad : flash.bad = bad) (hremembers : RemembersBad bad ctx) :
    (mtdWriteLoop partition fuel ctx data).Safe (Machine.atomic Flash.handle)
      (fun result after => after.bad = bad ∧ (result.1 = true → RemembersBad bad result.2))
      (fun _ => True) flash := by
  induction fuel generalizing ctx data flash with
  | zero => exact ⟨⟨hbad, fun _ => hremembers⟩, trivial⟩
  | succ fuel ih =>
      rw [mtdWriteLoop]
      split
      next => exact ⟨⟨hbad, fun _ => hremembers⟩, trivial⟩
      next =>
        simp only
        generalize (if 0 < ctx.stored.length ∨ data.length < partition.eraseSize then
          min data.length (partition.eraseSize - ctx.stored.length) else 0) = copy
        have hwhole : ∀ {ctx' : MtdWriteContext} {after : Flash partition}, after.bad = bad →
            RemembersBad bad ctx' →
              (writeWholeBlocks partition (if ctx'.stored.length = 0 then
                (data.drop copy).length / partition.eraseSize else 0) ctx' (data.drop copy)).Safe
                  (Machine.atomic Flash.handle)
                  (fun result after => after.bad = bad ∧
                    (result.1.isSome → RemembersBad bad result.2)) (fun _ => True) after := by
          intro ctx' after hbad' hremembers'
          have hcount : (if ctx'.stored.length = 0 then
              (data.drop copy).length / partition.eraseSize else 0) * partition.eraseSize ≤
                (data.drop copy).length := by
            split
            next => exact Nat.div_mul_le_self _ _
            next => rw [Nat.zero_mul]; exact Nat.zero_le _
          exact writeWholeBlocks_remembers hcount hbad' hremembers'
        split
        next hfull =>
          rw [Prog.safe_bind]
          apply (@flushStored_remembers _ _ _ { ctx with stored := ctx.stored ++ data.take copy }
            ⟨_, hfull⟩ hbad hremembers).mono _ (fun _ h => h)
          rintro ⟨failed, ctx'⟩ after ⟨hbad', hnext⟩
          simp only at hnext ⊢
          by_cases hfailed : failed = 0
          · rw [if_neg (by simp [hfailed]), Prog.safe_bind]
            apply (hwhole hbad' (hnext hfailed)).mono _ (fun _ h => h)
            rintro ⟨_ | rest, ctx''⟩ after' ⟨hbad'', hmore⟩
            · exact ⟨⟨hbad'', fun htrue => absurd htrue (by simp)⟩, trivial⟩
            · exact ih hbad'' (hmore rfl)
          · rw [if_pos hfailed]
            exact ⟨⟨hbad', fun htrue => absurd htrue (by simp)⟩, trivial⟩
        next =>
          rw [Prog.safe_bind]
          refine ⟨?_, trivial⟩
          dsimp only
          rw [if_neg (not_not.mpr rfl), Prog.safe_bind]
          apply (@hwhole { ctx with stored := ctx.stored ++ data.take copy } flash hbad
            hremembers).mono _ (fun _ h => h)
          rintro ⟨_ | rest, ctx''⟩ after' ⟨hbad'', hmore⟩
          · exact ⟨⟨hbad'', fun htrue => absurd htrue (by simp)⟩, trivial⟩
          · exact ih hbad'' (hmore rfl)

theorem mtdWriteData_remembers
    {data : Bytes} (hbad : flash.bad = bad) (hremembers : RemembersBad bad ctx) :
    (mtdWriteData partition ctx data).Safe (Machine.atomic Flash.handle)
      (fun result _ => result.1 = data.length → RemembersBad bad result.2)
      (fun _ => True) flash := by
  rw [mtdWriteData, Prog.safe_bind]
  apply (mtdWriteLoop_remembers hbad hremembers).mono _ (fun _ h => h)
  rintro ⟨done, ctx'⟩ after ⟨-, hnext⟩
  refine ⟨?_, trivial⟩
  intro hresult
  cases done with
  | true => exact hnext rfl
  | false =>
      simp only [Bool.false_eq_true, if_false] at hresult
      omega

end Contexts

/-! ## Where the next block is looked for -/

/-- The position behind the first `count` good blocks. -/
def Flash.behind (flash : Flash partition) : (count : Nat) → Nat
  | 0 => 0
  | count + 1 => ((flash.goodFrom 0)[count]?).getD 0 + 1

section Behind

variable {start flash : Flash partition}

theorem behind_succ
    {count found : Nat} {rest : List Nat}
    (hdrop : (start.goodFrom 0).drop count = found :: rest) :
    start.behind (count + 1) = found + 1 := by
  have hget : (start.goodFrom 0)[count]? = some found := by
    rw [← List.head?_drop, hdrop, List.head?_cons]
  rw [Flash.behind, hget, Option.getD_some]

theorem goodFrom_behind
    {count : Nat} (hcount : count ≤ (start.goodFrom 0).length) :
    start.goodFrom (start.behind count) = (start.goodFrom 0).drop count := by
  induction count with
  | zero => rw [Flash.behind, List.drop_zero]
  | succ count ih =>
      have hbefore := ih (by omega)
      cases hdrop : (start.goodFrom 0).drop count with
      | nil =>
          have := List.drop_eq_nil_iff.mp hdrop
          omega
      | cons found rest =>
          rw [hdrop] at hbefore
          rw [behind_succ hdrop, (goodFrom_cons hbefore).2.2.2, ← List.drop_drop, hdrop]
          rfl

/-- The session has written `done` and stands right behind the last of these
blocks. -/
structure Behind
    (start : Flash partition) (done : List (Block partition)) (pos : Nat)
    (flash : Flash partition) : Prop where
  placed : Placed start done pos flash
  room : done.length ≤ (start.goodFrom 0).length
  pos_eq : pos = start.behind done.length

theorem behind_start (start : Flash partition) : Behind start [] 0 start :=
  ⟨placed_start start, Nat.zero_le _, rfl⟩

theorem Behind.bad_eq
    {done : List (Block partition)} {pos : Nat} (hbehind : Behind start done pos flash) :
    flash.bad = start.bad := by
  rw [hbehind.placed.flash_eq, place_bad]

theorem Behind.goodFrom_eq
    {done : List (Block partition)} {pos : Nat} (hbehind : Behind start done pos flash) :
    flash.goodFrom pos = (start.goodFrom 0).drop done.length :=
  (goodFrom_congr hbehind.bad_eq pos).trans hbehind.placed.good_eq

/-- The next block goes to the next good position. -/
theorem Behind.succ
    {done : List (Block partition)} {pos found : Nat} {rest : List Nat}
    (hbehind : Behind start done pos flash) (data : Block partition)
    (hfound : flash.goodFrom pos = found :: rest) :
    Behind start (done ++ [data]) (found + 1) (flash.setBlock found data) := by
  have hdrop := hbehind.goodFrom_eq.symm.trans hfound
  have hlength : (done ++ [data]).length = done.length + 1 := by simp
  have hfound' : start.goodFrom pos = found :: rest :=
    (goodFrom_congr hbehind.bad_eq pos).symm.trans hfound
  refine ⟨⟨?_, ?_⟩, ?_, ?_⟩
  · rw [place_concat start data hdrop, ← hbehind.placed.flash_eq]
  · rw [(goodFrom_cons hfound').2.2.2, hlength, ← List.drop_drop, hdrop]
    rfl
  · by_contra hfull
    have hnil := List.drop_eq_nil_iff.mpr (show (start.goodFrom 0).length ≤ done.length by omega)
    rw [hnil] at hdrop
    cases hdrop
  · rw [hlength, behind_succ hdrop]

/-- A session on this device writes its blocks to the good positions, or it
fails. -/
theorem writesBlocks_behind {blocks : List (Block partition)} :
    WritesBlocks (Machine.atomic Flash.handle) blocks (Behind start)
      (fun _ => True) (fun _ => True) where
  crash_of_inv _ _ := trivial
  crash_of_failed _ := trivial
  write := by
    intro done data ctx flash _ hbehind
    apply Prog.safe_of_run
    cases hgood : flash.goodFrom ctx.pos with
    | nil =>
        rw [writeBlock_run_full data.val hgood]
        exact .inr ⟨by simp, trivial⟩
    | cons found rest =>
        rw [writeBlock_run data hgood]
        exact .inl ⟨rfl, rfl, hbehind.succ data hgood⟩

/-- A session with what its context remembers. -/
structure Tracked
    (start : Flash partition) (done : List (Block partition)) (ctx : MtdWriteContext)
    (flash : Flash partition) : Prop where
  behind : Behind start done ctx.pos flash
  remembers : RemembersBad start.bad ctx

theorem tracked_start (start : Flash partition) :
    Tracked start [] mtdWritePartition start :=
  ⟨behind_start start, remembersBad_start start.bad⟩

/-- A session that has pending bytes and no block left for them. -/
structure Full (ctx : MtdWriteContext) (flash : Flash partition) : Prop where
  pending : ctx.stored ≠ []
  short : ctx.stored.length < partition.eraseSize
  none_left : flash.goodFrom ctx.pos = []

variable {done chunks : List (Block partition)} {ctx : MtdWriteContext} {data : Bytes}

theorem Tracked.writeData
    (htracked : Tracked start done ctx flash) (hstored : ctx.stored = [])
    (hchunked : Chunked data chunks) :
    (mtdWriteData partition ctx data).Safe (Machine.atomic Flash.handle)
      (fun result after => result.1 = data.length →
        ∃ written, Tracked start written result.2 after ∧
          result.2.stored.length < partition.eraseSize ∧
          blockBytes done ++ data = blockBytes written ++ result.2.stored)
      (fun _ => True) flash := by
  obtain ⟨pad, -, hchunks⟩ := hchunked
  have hstreamed : Streamed (Behind start) (done ++ chunks) (blockBytes done) ctx flash := by
    refine ⟨done, htracked.behind, List.prefix_append _ _, ?_, ?_⟩
    · rw [hstored, List.append_nil]
    · rw [hstored]
      exact partition.eraseSize_pos
  have hdata : blockBytes done ++ data <+: blockBytes (done ++ chunks) := by
    rw [blockBytes_append, hchunks, ← List.append_assoc]
    exact List.prefix_append _ _
  have hplaced := @WritesBlocks.mtdWriteData_safe _ _ _ _ _ _ _ ctx flash _ data
    (fun result after => result.1 = data.length →
      Streamed (Behind start) (done ++ chunks) (blockBytes done ++ data) result.2 after)
    writesBlocks_behind hstreamed hdata (fun _ _ hafter _ => hafter)
    (fun _ _ _ hresult => by simp only at hresult; omega)
  have hremembers := @mtdWriteData_remembers _ _ _ ctx data htracked.behind.bad_eq
    htracked.remembers
  apply (hplaced.and hremembers).mono _ (fun _ _ => trivial)
  rintro ⟨wrote, ctx'⟩ after ⟨hstream, hlist⟩ hresult
  obtain ⟨written, hbehind, -, hbytes, hshort⟩ := hstream hresult
  exact ⟨written, ⟨hbehind, hlist hresult⟩, hshort, hbytes⟩

/-- Padding and flushing completes the session's last block, or there is no
block left for it. -/
theorem Tracked.erase
    (htracked : Tracked start done ctx flash)
    (hshort : ctx.stored.length < partition.eraseSize) :
    ∃ result ctx' flash',
      (mtdEraseBlocks partition ctx 0).run Flash.handle flash = ((result, ctx'), flash') ∧
        (ctx'.stored = [] ∧ result = (ctx'.pos * partition.eraseSize : Nat) ∧
            Tracked start (done ++ pendingBlock ctx.stored hshort.le) ctx' flash' ∨
          result = -1 ∧ Full ctx' flash') := by
  obtain ⟨stored, pos, offsets⟩ := ctx
  by_cases hnil : stored = []
  · subst hnil
    refine ⟨(pos * partition.eraseSize : Nat), ⟨[], pos, offsets⟩, flash, ?_,
      .inl ⟨rfl, rfl, ?_⟩⟩
    · rw [mtdEraseBlocks, flushPending, if_neg (by simp)]
      simp only [Prog.pure_eq, Prog.pure_bind_eq, ne_eq, not_true_eq_false, if_false,
        lt_self_iff_false, Int.toNat_zero, eraseLoop]
      rw [if_neg (not_lt.mpr (Int.natCast_nonneg _))]
      rfl
    · rw [pendingBlock, if_pos rfl, List.append_nil]
      exact htracked
  · have hpos := List.length_pos_iff.mpr hnil
    have hlength : (stored ++ List.replicate (partition.eraseSize - stored.length) 0).length =
        partition.eraseSize := by
      rw [List.length_append, List.length_replicate]
      simp only at hshort
      omega
    cases hgood : flash.goodFrom pos with
    | nil =>
        have hwrite := @writeBlock_run_full _ flash ⟨stored, pos, offsets⟩
          (stored ++ List.replicate (partition.eraseSize - stored.length) 0) hgood
        have hfailed : ¬ (-1 : Int) = 0 := by decide
        refine ⟨-1, ⟨stored, pos, offsets ++ List.range' pos (partition.blockCount - pos)⟩,
          flash, ?_, .inr ⟨rfl, ⟨hnil, hshort, hgood⟩⟩⟩
        rw [mtdEraseBlocks, flushPending, if_pos hpos, flushStored]
        simp only [Prog.run_bind, hwrite, ne_eq, hfailed, not_false_eq_true, if_true,
          Prog.pure_eq, Prog.run_pure]
    | cons found rest =>
        have hwrite := @writeBlock_run _ flash ⟨stored, pos, offsets⟩ _ _ ⟨_, hlength⟩ hgood
        have hfilter := filter_bad_succ hgood
        rw [htracked.behind.bad_eq, ← htracked.remembers] at hfilter
        refine ⟨((found + 1) * partition.eraseSize : Nat),
          ⟨[], found + 1, offsets ++ List.range' pos (found - pos)⟩,
          flash.setBlock found
            ⟨stored ++ List.replicate (partition.eraseSize - stored.length) 0, hlength⟩,
          ?_, .inl ⟨rfl, rfl, ?_⟩⟩
        · rw [mtdEraseBlocks, flushPending, if_pos hpos, flushStored]
          simp only [Prog.run_bind, hwrite]
          simp only [ne_eq, not_true_eq_false, if_false, lt_self_iff_false, Prog.pure_eq,
            Prog.run_pure, Int.toNat_zero, eraseLoop]
          rw [if_neg (not_lt.mpr (Int.natCast_nonneg _))]
          rfl
        · rw [pendingBlock, if_neg hnil]
          exact ⟨htracked.behind.succ _ hgood, hfilter.symm⟩

/-- A session without room cannot complete its block any more. -/
theorem Full.erase (hfull : Full ctx flash) :
    ∃ ctx', (mtdEraseBlocks partition ctx 0).run Flash.handle flash = ((-1, ctx'), flash) ∧
      Full ctx' flash := by
  obtain ⟨stored, pos, offsets⟩ := ctx
  have hwrite := @writeBlock_run_full _ flash ⟨stored, pos, offsets⟩
    (stored ++ List.replicate (partition.eraseSize - stored.length) 0) hfull.none_left
  have hfailed : ¬ (-1 : Int) = 0 := by decide
  refine ⟨⟨stored, pos, offsets ++ List.range' pos (partition.blockCount - pos)⟩, ?_,
    ⟨hfull.pending, hfull.short, hfull.none_left⟩⟩
  rw [mtdEraseBlocks, flushPending, if_pos (List.length_pos_iff.mpr hfull.pending), flushStored]
  simp only [Prog.run_bind, hwrite, ne_eq, hfailed, not_false_eq_true, if_true, Prog.pure_eq,
    Prog.run_pure]

theorem Full.close (hfull : Full ctx flash) :
    (mtdWriteClose partition ctx).run Flash.handle flash = (-1, flash) := by
  obtain ⟨ctx', hrun, -⟩ := hfull.erase
  simp [mtdWriteClose, hrun]

/-- It takes more bytes only as long as they fit the pending block. -/
theorem Full.writeData (hfull : Full ctx flash) (data : Bytes) :
    (mtdWriteData partition ctx data).Safe (Machine.atomic Flash.handle)
      (fun result after => result.1 = data.length → Full result.2 after)
      (fun _ => True) flash := by
  have hpos := List.length_pos_iff.mpr hfull.pending
  have hshort := hfull.short
  apply Prog.safe_of_run
  rw [mtdWriteData]
  by_cases hnil : data = []
  · rw [hnil, mtdWriteLoop_nil]
    exact fun _ => hfull
  · by_cases hfits : ctx.stored.length + data.length < partition.eraseSize
    · rw [mtdWriteLoop_short data.length hnil hfits]
      intro _
      refine ⟨?_, ?_, hfull.none_left⟩
      · exact List.append_ne_nil_of_left_ne_nil hfull.pending data
      · simpa using hfits
    · have hcopy : (if 0 < ctx.stored.length ∨ data.length < partition.eraseSize then
          min data.length (partition.eraseSize - ctx.stored.length) else 0) =
            partition.eraseSize - ctx.stored.length := by
        rw [if_pos (.inl hpos), min_eq_right (by omega)]
      have hlength : (ctx.stored ++
          data.take (partition.eraseSize - ctx.stored.length)).length = partition.eraseSize := by
        rw [List.length_append, List.length_take_of_le (by omega)]
        omega
      have hwrite := @writeBlock_run_full _ flash
        ⟨ctx.stored ++ data.take (partition.eraseSize - ctx.stored.length), ctx.pos,
          ctx.badBlockOffsets⟩
        (ctx.stored ++ data.take (partition.eraseSize - ctx.stored.length)) hfull.none_left
      have hfailed : ¬ (-1 : Int) = 0 := by decide
      rw [mtdWriteLoop]
      simp only [List.isEmpty_iff, hnil, if_false, hcopy, hlength, if_true, flushStored,
        Prog.run_bind, hwrite, ne_eq, hfailed, not_false_eq_true, Prog.pure_eq, Prog.run_pure,
        Bool.false_eq_true]
      intro hresult
      omega

/-! ## Where a section began -/

theorem findWriteStart_below
    {first rest : List Nat} {pos : Nat} (hfirst : ∀ offset ∈ first, offset < pos) :
    findWriteStart partition (first ++ rest) (pos * partition.eraseSize : Nat) =
      findWriteStart partition rest (pos * partition.eraseSize : Nat) := by
  induction first with
  | nil => rfl
  | cons offset first ih =>
      have hlt := Nat.mul_lt_mul_of_pos_right (hfirst offset List.mem_cons_self)
        partition.eraseSize_pos
      rw [List.cons_append, findWriteStart, if_neg (by omega), if_neg (by omega)]
      exact ih fun other hother => hfirst other (List.mem_cons_of_mem _ hother)

theorem findWriteStart_run
    (count pos : Nat) (rest : List Nat) :
    findWriteStart partition (List.range' pos count ++ rest) (pos * partition.eraseSize : Nat) =
      findWriteStart partition rest ((pos + count) * partition.eraseSize : Nat) := by
  induction count generalizing pos with
  | zero => rfl
  | succ count ih =>
      have hnext : ((pos * partition.eraseSize : Nat) : Int) + partition.eraseSize =
          ((pos + 1) * partition.eraseSize : Nat) := by
        rw [Nat.succ_mul]
        push_cast
        ring
      rw [List.range'_succ, List.cons_append, findWriteStart, if_pos rfl, hnext, ih,
        show pos + 1 + count = pos + (count + 1) by omega]

theorem findWriteStart_above
    {offsets : List Nat} {pos : Nat} (hoffsets : ∀ offset ∈ offsets, pos < offset) :
    findWriteStart partition offsets (pos * partition.eraseSize : Nat) =
      (pos * partition.eraseSize : Nat) := by
  cases offsets with
  | nil => rfl
  | cons offset offsets =>
      have hlt := Nat.mul_lt_mul_of_pos_right (hoffsets offset List.mem_cons_self)
        partition.eraseSize_pos
      rw [findWriteStart, if_neg (by omega), if_pos (by omega)]

theorem behind_mono
    {first second : Nat} (hle : first ≤ second) (hroom : second ≤ (start.goodFrom 0).length) :
    start.behind first ≤ start.behind second := by
  induction second, hle using Nat.le_induction with
  | base => exact le_rfl
  | succ second hle ih =>
      cases hdrop : (start.goodFrom 0).drop second with
      | nil =>
          have := List.drop_eq_nil_iff.mp hdrop
          omega
      | cons found rest =>
          have hfound := goodFrom_behind (show second ≤ (start.goodFrom 0).length by omega)
          rw [hdrop] at hfound
          have hbefore := (goodFrom_cons hfound).1
          have := ih (by omega)
          rw [behind_succ hdrop]
          omega

/-- A section that began when `count` blocks had been written starts at the next
good block, and that is what `mtd_find_write_start` finds once the section has
a block. -/
theorem Tracked.findWriteStart_eq
    {count : Nat} (htracked : Tracked start done ctx flash) (hcount : count < done.length) :
    ∃ first, (start.goodFrom 0)[count]? = some first ∧
      mtdFindWriteStart partition ctx (start.behind count * partition.eraseSize : Nat) =
        (first * partition.eraseSize : Nat) := by
  have hroom := htracked.behind.room
  cases hdrop : (start.goodFrom 0).drop count with
  | nil =>
      have := List.drop_eq_nil_iff.mp hdrop
      omega
  | cons first rest =>
      have hfound := goodFrom_behind (show count ≤ (start.goodFrom 0).length by omega)
      rw [hdrop] at hfound
      have hle := (goodFrom_cons hfound).1
      have hlater := @behind_mono _ start (count + 1) done.length hcount hroom
      rw [behind_succ hdrop, ← htracked.behind.pos_eq] at hlater
      have hsplit : List.range' 0 ctx.pos =
          List.range' 0 (first + 1) ++ List.range' (first + 1) (ctx.pos - (first + 1)) := by
        have happend := @List.range'_append_1 0 (first + 1) (ctx.pos - (first + 1))
        rw [Nat.zero_add, Nat.add_sub_cancel' hlater] at happend
        exact happend.symm
      have hoffsets : ctx.badBlockOffsets =
          (List.range' 0 (start.behind count)).filter start.bad ++
            (List.range' (start.behind count) (first - start.behind count) ++
              (List.range' (first + 1) (ctx.pos - (first + 1))).filter start.bad) := by
        rw [htracked.remembers, hsplit, List.filter_append, filter_bad_succ hfound,
          List.append_assoc]
      refine ⟨first, ?_, ?_⟩
      · rw [← List.head?_drop, hdrop, List.head?_cons]
      · rw [mtdFindWriteStart, hoffsets, findWriteStart_below, findWriteStart_run,
          Nat.add_sub_cancel' hle]
        · apply findWriteStart_above
          intro offset hmem
          have := (List.mem_range'_1.mp (List.mem_of_mem_filter hmem)).1
          omega
        · intro offset hmem
          have := (List.mem_range'_1.mp (List.mem_of_mem_filter hmem)).2
          omega

end Behind

end OpenRecovery.Mtd
