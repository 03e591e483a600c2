import OpenRecovery.ImgPatch
import Mathlib

/-!
# Reading a chunk and passing on its output

Each round of `ApplyImagePatch` does two things.  It decodes one chunk, which
depends on the patch and the source only, and it passes the output of the chunk
to the sink.  Below the two are told apart, and the round is shown to be their
composition.
-/

namespace OpenRecovery

open Effects Words

/-- A chunk with what it adds to the output.  A normal chunk adds nothing if its
binary patch is refused; the output of a deflate chunk comes in pieces. -/
inductive Chunk where
  | normal (output : Option Bytes)
  | raw (data : Bytes)
  | deflate (output : List Bytes)
  deriving DecidableEq

/-- The whole output of a chunk that was decoded without error. -/
def Chunk.output : Chunk → Option Bytes
  | .normal output => output
  | .raw data => some data
  | .deflate output => some output.flatten

section Reading

variable (lib : Library) (patch old : Bytes)

/-- Read `len` bytes of chunk header at `start` and then the rest. -/
def readHeader (start : Int) (len : Nat)
    (read : Bytes → Except Stuck (Option (Chunk × Int))) : Except Stuck (Option (Chunk × Int)) :=
  if patch.length < wrap32 (start + len) then
    .ok none
  else
    match slice patch start len with
    | .error stuck => .error stuck
    | .ok header => read header

def readNormalChunk (start : Int) : Except Stuck (Option (Chunk × Int)) :=
  readHeader patch start 24 fun header =>
    match applyBSDiffPatchMem lib ⟨old, wrap32 (read8 header), wrap32 (read8 (header.drop 8))⟩
      patch (wrap32 (read8 (header.drop 16))) with
    | .error stuck => .error stuck
    | .ok output => .ok (some (.normal output, wrap32 (start + 24)))

def readRawChunk (start : Int) : Except Stuck (Option (Chunk × Int)) :=
  readHeader patch start 4 fun header =>
    let pos := wrap32 (start + 4)
    if patch.length < wrap32 (pos + read4 header) then
      .ok none
    else
      match slice patch pos (read4 header) with
      | .error stuck => .error stuck
      | .ok data => .ok (some (.raw data, wrap32 (pos + read4 header)))

def readDeflateChunk (start : Int) : Except Stuck (Option (Chunk × Int)) :=
  readHeader patch start 60 fun header =>
    match deflateChunk lib patch old (deflateHeader header) with
    | .error stuck => .error stuck
    | .ok none => .ok none
    | .ok (some output) => .ok (some (.deflate output, wrap32 (start + 60)))

/-- The chunk at `pos` and the position of the next one, or nothing if the chunk
ends the call. -/
def readChunk (pos : Int) : Except Stuck (Option (Chunk × Int)) :=
  readHeader patch pos 4 fun record =>
    let start := wrap32 (pos + 4)
    if read4 record = chunkNormal then readNormalChunk lib patch old start
    else if read4 record = chunkRaw then readRawChunk patch start
    else if read4 record = chunkDeflate then readDeflateChunk lib patch old start
    else .ok none

end Reading

/-- What the loop does with the output of a chunk; a result other than zero ends
the call. -/
def putChunk (sink : Sink) : Chunk → OutState → SysProg (Int × OutState)
  | .normal none, out => pure (0, out)
  | .normal (some new), out => do
      let (wrote, out) ← sink new out
      if wrote < new.length then pure (0, out) else pure (0, out.update new)
  | .raw data, out => do
      let (wrote, out) ← sink data (out.update data)
      if wrote ≠ data.length then pure (-1, out) else pure (0, out)
  | .deflate output, out => sinkPieces sink output out

/-- A chunk is put after it was read. -/
def putRead (sink : Sink) (out : OutState) :
    Except Stuck (Option (Chunk × Int)) → SysProg (Except Stuck ChunkResult)
  | .error stuck => pure (.error stuck)
  | .ok none => pure (.ok (.returned (-1) out))
  | .ok (some (chunk, next)) => do
      let (code, out) ← putChunk sink chunk out
      if code ≠ 0 then pure (.ok (.returned code out)) else pure (.ok (.next next out))

section Rounds

variable {lib : Library} {patch old : Bytes}

/-- A part of a chunk that is put after its header and the rest were read. -/
theorem withHeader_eq
    {start : Int} {len : Nat} {sink : Sink} {out : OutState}
    {rest : Bytes → SysProg (Except Stuck ChunkResult)}
    {read : Bytes → Except Stuck (Option (Chunk × Int))}
    (hrest : ∀ header, rest header = putRead sink out (read header)) :
    withHeader patch start len out rest = putRead sink out (readHeader patch start len read) := by
  unfold withHeader readHeader
  split_ifs with hshort
  · rfl
  · cases slice patch start len with
    | error stuck => rfl
    | ok header => exact hrest header

theorem slice_length {buffer data : Bytes} {offset len : Int}
    (hslice : slice buffer offset len = .ok data) : (data.length : Int) = len := by
  unfold slice at hslice
  split_ifs at hslice with hinside
  · have hdata : (buffer.drop offset.toNat).take len.toNat = data := by
      injection hslice
    rw [← hdata, List.length_take, List.length_drop]
    omega

theorem applyNormalChunk_eq (sink : Sink) (start : Int) (out : OutState) :
    applyNormalChunk lib sink patch old start out =
      putRead sink out (readNormalChunk lib patch old start) := by
  apply withHeader_eq
  intro header
  generalize (⟨old, wrap32 (read8 header), wrap32 (read8 (header.drop 8))⟩ : OldData) = view
  generalize wrap32 (read8 (header.drop 16)) = offset
  rw [applyBSDiffPatch]
  cases applyBSDiffPatchMem lib view patch offset with
  | error stuck => rfl
  | ok output =>
      cases output with
      | none => rfl
      | some new =>
          simp only [putRead, putChunk, bind_assoc]
          congr 1
          funext answer
          by_cases hshort : answer.1 < new.length
          · simp [hshort]
          · simp [hshort]

theorem applyRawChunk_eq (sink : Sink) (start : Int) (out : OutState) :
    applyRawChunk sink patch start out = putRead sink out (readRawChunk patch start) := by
  apply withHeader_eq
  intro header
  dsimp only
  split_ifs with hlong
  · rfl
  · cases hslice : slice patch (wrap32 (start + 4)) (read4 header) with
    | error stuck => rfl
    | ok data =>
        simp only [putRead, putChunk, bind_assoc, slice_length hslice]
        congr 1
        funext answer
        by_cases hshort : answer.1 = read4 header
        · simp [hshort]
        · simp [hshort]

theorem applyDeflateChunk_eq (sink : Sink) (start : Int) (out : OutState) :
    applyDeflateChunk lib sink patch old start out =
      putRead sink out (readDeflateChunk lib patch old start) := by
  apply withHeader_eq
  intro header
  cases deflateChunk lib patch old (deflateHeader header) with
  | error stuck => rfl
  | ok output =>
      cases output with
      | none => rfl
      | some pieces => rfl

/-- A round of the loop reads a chunk and puts it. -/
theorem applyChunk_eq (sink : Sink) (pos : Int) (out : OutState) :
    applyChunk lib sink patch old pos out =
      putRead sink out (readChunk lib patch old pos) := by
  apply withHeader_eq
  intro record
  dsimp only
  split_ifs with hnormal hraw hdeflate
  · exact applyNormalChunk_eq sink _ out
  · exact applyRawChunk_eq sink _ out
  · exact applyDeflateChunk_eq sink _ out
  · rfl

end Rounds

end OpenRecovery
