import OpenRecovery.ImgPatchChunks
import OpenRecovery.PatchBounds
import Mathlib

/-!
# What a successful application of an image patch has produced

The sink may do anything; what it accepted of each request is read off its
answer.  An application is complete if every chunk was decoded, and the bytes
accepted and the bytes hashed are the outputs of the chunks in their order.
The result of a normal chunk is not looked at, so that a result of zero alone
does not make an application complete.
-/

namespace OpenRecovery

open Effects Words

/-- What a sink does with a request; the answer is the number of bytes it
accepted. -/
abbrev SinkBehaviour := Bytes → OutState → SysProg Int

/-- The sink that behaves so, and that keeps the bytes it accepted. -/
def recorded (behaviour : SinkBehaviour) : Sink := fun data out => do
  let wrote ← behaviour data out
  pure (wrote, { out with memory := out.memory ++ data.take wrote.toNat })

theorem memorySink_eq_recorded (size : Int) :
    memorySink size = recorded fun data out =>
      pure (if size - out.memory.length < data.length then -1 else data.length) := by
  funext data out
  unfold memorySink recorded
  by_cases hfull : size - out.memory.length < data.length
  · simp [hfull]
  · simp [hfull]

/-- The outputs of the chunks from `pos` on, if each of them is decoded without
error. -/
def chunksOutput (lib : Library) (patch old : Bytes) : (left : Nat) → (pos : Int) → Option Bytes
  | 0, _ => some []
  | left + 1, pos =>
      match readChunk lib patch old pos with
      | .ok (some (chunk, next)) =>
          match chunk.output, chunksOutput lib patch old left next with
          | some first, some rest => some (first ++ rest)
          | _, _ => none
      | _ => none

/-- The output that an image patch stands for. -/
def imageOutput (lib : Library) (patch old : Bytes) : Option Bytes :=
  if 12 ≤ patch.length ∧ patch.take 8 = imgdiffMagic then
    chunksOutput lib patch old (read4 (patch.drop 8)).toNat 12
  else
    none

section Runs

variable {σ : Type} (handle : (op : SysOp) → σ → op.Reply × σ)
variable (behaviour : SinkBehaviour) (lib : Library) (patch old : Bytes)

end Runs

section Outputs

variable {σ : Type} {handle : (op : SysOp) → σ → op.Reply × σ}
variable {behaviour : SinkBehaviour} {lib : Library} {patch old : Bytes}

theorem recorded_run (data : Bytes) (out : OutState) (state : σ) :
    (recorded behaviour data out).run handle state =
      ((((behaviour data out).run handle state).1,
        { out with memory := out.memory ++
            data.take ((behaviour data out).run handle state).1.toNat }),
        ((behaviour data out).run handle state).2) := by
  simp [recorded]

end Outputs

end OpenRecovery
