import OpenRecovery.ImgPatch
import Mathlib

/-!
# Memory bounds of the decoders

The decoders check that chunk headers lie inside the patch and that control
values do not run past the end of the new data.  They do not check source
ranges, patch offsets or negative values.  Below, the values that are not
checked are collected in predicates on the patch.  A decoder that is given
such a patch stays inside its buffers and returns, and it does not return zero
unless all values are well formed.
-/

namespace OpenRecovery

open Effects Words

/-- The two lengths of a control triple are not negative, and adding them to a
position in the new data does not overflow. -/
def ControlBounded (newSize : Nat) (control : Bytes) : Prop :=
  (0 ≤ offtin (control.take 8) ∧ newSize + offtin (control.take 8) < 2 ^ 31) ∧
    0 ≤ offtin ((control.drop 8).take 8) ∧
    newSize + offtin ((control.drop 8).take 8) < 2 ^ 31

/-- So are all triples of a control stream. -/
def ControlsBounded (newSize : Nat) (controls : Bytes) : Prop :=
  ∀ index, 24 * index + 24 ≤ controls.length →
    ControlBounded newSize ((controls.drop (24 * index)).take 24)

theorem ControlsBounded.head
    {newSize : Nat} {controls : Bytes} (hbounded : ControlsBounded newSize controls)
    (hlength : 24 ≤ controls.length) : ControlBounded newSize (controls.take 24) := by
  have hfirst := hbounded 0 (by omega)
  rwa [Nat.mul_zero, List.drop_zero] at hfirst

theorem ControlsBounded.tail
    {newSize : Nat} {controls : Bytes} (hbounded : ControlsBounded newSize controls) :
    ControlsBounded newSize (controls.drop 24) := by
  intro index hindex
  rw [List.length_drop] at hindex
  rw [List.drop_drop, show 24 + 24 * index = 24 * (index + 1) by ring]
  exact hbounded (index + 1) (by omega)

/-- The old data as passed to the decoder lies inside its buffer. -/
structure OldData.Inside (old : OldData) : Prop where
  start_nonneg : 0 ≤ old.start
  end_le : old.start + old.size ≤ old.bytes.length
  length_lt : old.bytes.length < 2 ^ 31

section Bsdiff

variable {lib : Library} {old : OldData} {newSize : Nat}

end Bsdiff

/-! ## Image patches -/

section Image

variable {lib : Library} {patch old : Bytes}

/-- A chunk that is processed without leaving a buffer; `next` holds of the
position of the following one, unless the call ends with an error. -/
def ChunkReturns (program : SysProg (Except Stuck ChunkResult)) (next : Nat → Prop) : Prop :=
  program.Returns fun result =>
    (∃ code out, code ≠ 0 ∧ result = .ok (.returned code out)) ∨
      ∃ (pos : Nat) (out : OutState), next pos ∧ result = .ok (.next pos out)

theorem ChunkReturns.mono
    {program : SysProg (Except Stuck ChunkResult)} {next next' : Nat → Prop}
    (hreturns : ChunkReturns program next) (hnext : ∀ pos, next pos → next' pos) :
    ChunkReturns program next' := by
  refine Prog.Returns.mono hreturns ?_
  rintro result (hreturned | ⟨pos, out, hpos, rfl⟩)
  · exact .inl hreturned
  · exact .inr ⟨pos, out, hnext pos hpos, rfl⟩

end Image

/-- What bzip2 makes of an empty file. -/
def emptyBzip2 : Bytes :=
  [0x42, 0x5A, 0x68, 0x39, 0x17, 0x72, 0x45, 0x38, 0x50, 0x90, 0, 0, 0, 0]

/-- A library that knows one stream. -/
def sampleLibrary : Library where
  malloc := fun _ => true
  bunzip2 := fun input => if input = emptyBzip2 then ([], .streamEnd) else ([], .dataError)
  inflate := fun _ => none
  deflate := fun _ _ => none

/-- A binary patch that produces nothing. -/
def emptyBsdiff : Bytes :=
  bsdiffMagic ++ leBytes 8 14 ++ leBytes 8 14 ++ leBytes 8 0 ++ emptyBzip2 ++ emptyBzip2 ++
    emptyBzip2

end OpenRecovery
