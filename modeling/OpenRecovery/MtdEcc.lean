import OpenRecovery.MtdCuts
import Mathlib

/-!
# Uncorrectable reads

The driver counts the corrections that failed, over all reads since the device
was opened.  `read_block` takes the counter once, before its loop, and compares
it after every block.  A block that raises the counter is skipped, and so is
every block that the same call reads after it.
-/

namespace OpenRecovery.Mtd

open Effects

variable {partition : MtdPartition}

/-- A device whose counter of failed corrections grows with every reading of a
damaged block. -/
structure EccFlash (partition : MtdPartition) where
  flash : Flash partition
  failed : Nat

/-- `hard pos` corrections fail whenever block `pos` is read. -/
def eccHandle (hard : Nat → Nat) :
    (op : MtdOp) → EccFlash partition → op.Reply × EccFlash partition
  | .eccGetStats, state => (some state.failed, state)
  | .read pos, state =>
      if pos < partition.blockCount then
        (some (state.flash.block pos).val, { state with failed := state.failed + hard pos })
      else (none, state)
  | .memGetBadBlock pos, state => ((if state.flash.bad pos then 1 else 0 : Int), state)
  | .memErase pos, state =>
      (true, { state with flash := state.flash.setBlock pos (erasedBlock partition) })
  | .write pos data, state =>
      if hlength : data.length = partition.eraseSize then
        (true, { state with flash := state.flash.setBlock pos ⟨data, hlength⟩ })
      else (false, state)

/-- Reading the block does not raise the counter, and the block carries no mark
and is not all zero. -/
def Flash.sound (flash : Flash partition) (hard : Nat → Nat) (pos : Nat) : Bool :=
  hard pos = 0 && flash.accepts pos

/-- The first sound block at or after `pos`. -/
def Flash.firstSound (flash : Flash partition) (hard : Nat → Nat) (pos : Nat) : Option Nat :=
  (List.range' pos (partition.blockCount - pos)).find? (flash.sound hard)

section Device

variable {hard : Nat → Nat} {flash : Flash partition}

@[simp] theorem run_eccGetStats_ecc (state : EccFlash partition) :
    eccGetStats.run (eccHandle hard) state = (some state.failed, state) := rfl

@[simp] theorem run_readAt_ecc (state : EccFlash partition) (pos : Nat) :
    (readAt pos).run (eccHandle hard) state =
      if pos < partition.blockCount then
        (some (state.flash.block pos).val, { state with failed := state.failed + hard pos })
      else (none, state) := rfl

@[simp] theorem run_memGetBadBlock_ecc (state : EccFlash partition) (pos : Nat) :
    (memGetBadBlock pos).run (eccHandle hard) state =
      (if state.flash.bad pos then 1 else 0, state) := rfl

/-- Once the counter has risen, the rest of the call finds nothing. -/
theorem readBlockLoop_run_risen
    {before failed : Nat} (hrisen : before < failed) (left pos offset : Nat)
    (hleft : pos + left ≤ partition.blockCount) :
    ((readBlockLoop before left pos offset).run (eccHandle hard)
      ⟨flash, failed⟩).1.1 = none := by
  induction left generalizing pos offset failed with
  | zero => rfl
  | succ left ih =>
      have hpos : pos < partition.blockCount := by omega
      have hne : ¬ failed + hard pos = before := by omega
      simp only [readBlockLoop, Prog.run_bind, run_readAt_ecc, hpos, if_true,
        run_eccGetStats_ecc, ne_eq, hne, not_false_eq_true]
      exact ih (by omega) (pos + 1) (pos + 1) (by omega)

/-- A block that is not accepted and does not raise the counter is passed
over. -/
theorem readBlockLoop_run_skip
    {before left pos offset : Nat} (hpos : pos < partition.blockCount)
    (hclean : hard pos = 0) (hskip : flash.accepts pos = false) :
    (readBlockLoop before (left + 1) pos offset).run (eccHandle hard) ⟨flash, before⟩ =
      (readBlockLoop before left (pos + 1) (pos + 1)).run (eccHandle hard)
        ⟨flash, before⟩ := by
  cases hbad : flash.bad pos with
  | true => simp [readBlockLoop, hpos, hclean, hbad]
  | false =>
      have hzero : anyNonZero (flash.block pos).val = false := by
        simpa [Flash.accepts, hbad] using hskip
      simp [readBlockLoop, hpos, hclean, hbad, hzero]

/-- A block that raises the counter ends the search. -/
theorem readBlockLoop_run_hard
    {before left pos offset : Nat} (hleft : pos + (left + 1) ≤ partition.blockCount)
    (hhard : hard pos ≠ 0) :
    ((readBlockLoop before (left + 1) pos offset).run (eccHandle hard)
      ⟨flash, before⟩).1.1 = none := by
  have hpos : pos < partition.blockCount := by omega
  have hne : ¬ before + hard pos = before := by omega
  simp only [readBlockLoop, Prog.run_bind, run_readAt_ecc, hpos, if_true,
    run_eccGetStats_ecc, ne_eq, hne, not_false_eq_true]
  exact readBlockLoop_run_risen (by omega) left (pos + 1) (pos + 1) (by omega)

theorem readBlockLoop_run_accept
    {before left pos offset : Nat} (hpos : pos < partition.blockCount)
    (hsound : flash.sound hard pos = true) :
    ((readBlockLoop before (left + 1) pos offset).run (eccHandle hard) ⟨flash, before⟩).1 =
      (some (flash.block pos).val, pos + 1) := by
  simp only [Flash.sound, Flash.accepts, Bool.and_eq_true, decide_eq_true_eq,
    Bool.not_eq_true'] at hsound
  obtain ⟨hclean, hgood, hnonzero⟩ := hsound
  simp [readBlockLoop, hpos, hclean, hgood, hnonzero]

/-- An unsound block that does not raise the counter is not accepted. -/
theorem accepts_of_not_sound
    {pos : Nat} (hsound : flash.sound hard pos = false) (hclean : hard pos = 0) :
    flash.accepts pos = false := by
  simpa [Flash.sound, hclean] using hsound

/-- The loop finds the first sound block if no block before it raises the
counter. -/
theorem readBlockLoop_run_spared
    {before left pos offset found : Nat} (hleft : pos + left ≤ partition.blockCount)
    (hfound : (List.range' pos left).find? (flash.sound hard) = some found)
    (hspared : ∀ block, pos ≤ block → block < found → hard block = 0) :
    ((readBlockLoop before left pos offset).run (eccHandle hard) ⟨flash, before⟩).1 =
      (some (flash.block found).val, found + 1) := by
  induction left generalizing pos offset with
  | zero => simp at hfound
  | succ left ih =>
      rw [List.range'_succ, List.find?_cons] at hfound
      cases hsound : flash.sound hard pos with
      | true =>
          rw [hsound] at hfound
          obtain rfl := Option.some.inj hfound
          exact readBlockLoop_run_accept (by omega) hsound
      | false =>
          rw [hsound] at hfound
          have hlater : pos + 1 ≤ found := by
            have hmem := List.mem_of_find?_eq_some hfound
            rw [List.mem_range'_1] at hmem
            exact hmem.1
          have hclean := hspared pos le_rfl hlater
          rw [readBlockLoop_run_skip (by omega) hclean (accepts_of_not_sound hsound hclean)]
          exact ih (by omega) hfound fun block hle hlt => hspared block (by omega) hlt

/-- The loop finds nothing if a block before the first sound one raises the
counter, or if there is no sound block. -/
theorem readBlockLoop_run_condemned
    {before left pos offset : Nat} (hleft : pos + left ≤ partition.blockCount)
    (hcondemned : ∀ found, (List.range' pos left).find? (flash.sound hard) = some found →
      ∃ block, pos ≤ block ∧ block < found ∧ hard block ≠ 0) :
    ((readBlockLoop before left pos offset).run (eccHandle hard)
      ⟨flash, before⟩).1.1 = none := by
  induction left generalizing pos offset with
  | zero => rfl
  | succ left ih =>
      by_cases hclean : hard pos = 0
      · rw [List.range'_succ] at hcondemned
        cases hsound : flash.sound hard pos with
        | true =>
            obtain ⟨block, hle, hlt, -⟩ := hcondemned pos
              (by rw [List.find?_cons, hsound])
            omega
        | false =>
            rw [readBlockLoop_run_skip (by omega) hclean (accepts_of_not_sound hsound hclean)]
            apply ih (by omega)
            intro found hfound
            obtain ⟨block, hle, hlt, hhard⟩ := hcondemned found
              (by rw [List.find?_cons, hsound]; exact hfound)
            refine ⟨block, ?_, hlt, hhard⟩
            rcases hle.lt_or_eq with hlater | rfl
            · exact hlater
            · exact absurd hclean hhard
      · exact readBlockLoop_run_hard hleft hclean

end Device

/-- `read_block` returns the first sound block and leaves the offset behind it,
or it fails and there is none. -/
def FindsSound (hard : Nat → Nat) (state : EccFlash partition) (pos : Nat) : Prop :=
  match state.flash.firstSound hard pos with
  | some found =>
      ((readBlock partition pos).run (eccHandle hard) state).1 =
        (some (state.flash.block found).val, found + 1)
  | none => ((readBlock partition pos).run (eccHandle hard) state).1.1 = none

/-- `read_block` finds the first sound block exactly if no block before it
raises the counter. -/
theorem findsSound_iff_spared
    (hard : Nat → Nat) (state : EccFlash partition) (pos : Nat) :
    FindsSound hard state pos ↔
      ∀ found, state.flash.firstSound hard pos = some found →
        ∀ block, pos ≤ block → block < found → hard block = 0 := by
  obtain ⟨flash, failed⟩ := state
  have hloop : (readBlock partition pos).run (eccHandle hard) ⟨flash, failed⟩ =
      (readBlockLoop failed (partition.blockCount - pos) pos pos).run (eccHandle hard)
        ⟨flash, failed⟩ := rfl
  have hleft : partition.blockCount ≤ pos ∨
      pos + (partition.blockCount - pos) ≤ partition.blockCount := by omega
  rw [FindsSound, hloop]
  simp only
  rcases hleft with hend | hleft
  · have hnone : partition.blockCount - pos = 0 := by omega
    have hfirst : flash.firstSound hard pos = none := by
      rw [Flash.firstSound, hnone]
      rfl
    simp [hfirst, hnone, readBlockLoop]
  · constructor
    · intro hfinds found hfound block hle hlt
      by_contra hhard
      have hcondemned := @readBlockLoop_run_condemned _ hard flash failed
        (partition.blockCount - pos) pos pos hleft
        (fun other hother => ⟨block, hle, by
          rw [Flash.firstSound, hother] at hfound
          rwa [Option.some.inj hfound], hhard⟩)
      rw [hfound] at hfinds
      simp only at hfinds
      rw [hfinds] at hcondemned
      simp at hcondemned
    · intro hspared
      cases hfirst : flash.firstSound hard pos with
      | some found => exact readBlockLoop_run_spared hleft hfirst (hspared found hfirst)
      | none =>
          apply readBlockLoop_run_condemned hleft
          intro found hfound
          rw [Flash.firstSound, hfound] at hfirst
          simp at hfirst

/-- One damaged block in front of a sound one makes `read_block` fail. -/
theorem damaged_block_condemns :
    sampleFlash.firstSound (fun pos => if pos = 0 then 1 else 0) 0 = some 1 ∧
      ((readBlock samplePartition 0).run (eccHandle fun pos => if pos = 0 then 1 else 0)
        ⟨sampleFlash, 0⟩).1.1 = none ∧
      ¬ FindsSound (fun pos => if pos = 0 then 1 else 0) ⟨sampleFlash, 0⟩ 0 := by
  have haccepts : sampleFlash.accepts 1 = true := anyNonZero_replicate (by decide)
  have hfirst : sampleFlash.firstSound (fun pos => if pos = 0 then 1 else 0) 0 = some 1 := by
    have hcount : samplePartition.blockCount = 2 := by decide
    simp [Flash.firstSound, hcount, List.range', Flash.sound, haccepts]
  have hnone : ((readBlock samplePartition 0).run
      (eccHandle fun pos => if pos = 0 then 1 else 0) ⟨sampleFlash, 0⟩).1.1 = none := by
    apply @readBlockLoop_run_hard _ _ sampleFlash 0 1 0 0 (by decide)
    simp
  refine ⟨hfirst, hnone, ?_⟩
  intro hfinds
  rw [FindsSound, hfirst] at hfinds
  simp only at hfinds
  rw [hfinds] at hnone
  simp at hnone

end OpenRecovery.Mtd
