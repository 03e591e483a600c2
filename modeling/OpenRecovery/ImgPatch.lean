import OpenRecovery.BsPatch
import OpenRecovery.System
import Mathlib

/-!
# `imgpatch.c`: applying an image patch

An image patch is a list of chunks.  A normal chunk holds a binary patch for a
range of the source, a deflate chunk one for the contents of a compressed
range, and a raw chunk holds its bytes itself.  The output goes to a sink, and
the bytes that the caller hashes are collected beside it.
-/

namespace OpenRecovery

open Effects Words

/-- What the caller of a decoder keeps: the bytes passed to `SHA_update` and
the contents of the `MemorySinkInfo`. -/
structure OutState where
  hashed : Bytes
  memory : Bytes
  deriving DecidableEq

/-- A `SinkFn` with its token. -/
abbrev Sink := Bytes → OutState → SysProg (Int × OutState)

/-- The loop of `FileSink`; `done` bytes have been written so far. -/
def fileSinkLoop (path : CString) : (fuel : Nat) → (data : Bytes) → (done : Nat) → SysProg Int
  | 0, _, done => pure done
  | fuel + 1, data, done => do
      if data.length = 0 then
        pure done
      else
        let wrote ← Prog.ask (SysOp.write (.file path) data)
        if wrote ≤ 0 then pure done
        else fileSinkLoop path fuel (data.drop wrote.toNat) (done + wrote.toNat)

/-- `FileSink` on the file opened under `path`.  Every round writes at least
one byte. -/
def fileSink (path : CString) : Sink := fun data out => do
  let done ← fileSinkLoop path data.length data 0
  pure (done, out)

/-- `MemorySink` on a buffer of `size` bytes. -/
def memorySink (size : Int) : Sink := fun data out =>
  if size - out.memory.length < data.length then
    pure (-1, out)
  else
    pure (data.length, { out with memory := out.memory ++ data })

/-- `SHA_update`. -/
def OutState.update (out : OutState) (data : Bytes) : OutState :=
  { out with hashed := out.hashed ++ data }

section Decoder

variable (lib : Library) (sink : Sink) (patch : Bytes)

/-- `ApplyBSDiffPatch`. -/
def applyBSDiffPatch (old : OldData) (patchOffset : Int) (out : OutState) :
    SysProg (Except Stuck (Int × OutState)) :=
  match applyBSDiffPatchMem lib old patch patchOffset with
  | .error stuck => pure (.error stuck)
  | .ok none => pure (.ok (-1, out))
  | .ok (some new) => do
      let (wrote, out) ← sink new out
      if wrote < new.length then pure (.ok (1, out))
      else pure (.ok (0, out.update new))

def chunkNormal : Int := 0
def chunkDeflate : Int := 2
def chunkRaw : Int := 3

def read4 (buf : Bytes) : Int :=
  wrap32 (leNat (buf.take 4))

/-- `Read8` assigned to a `size_t`. -/
def read8 (buf : Bytes) : Nat :=
  leNat (buf.take 8) % 2 ^ 32

/-- The fields of a deflate chunk's header that the decoder uses. -/
structure DeflateHeader where
  srcStart : Nat
  srcLen : Nat
  patchOffset : Nat
  expandedLen : Nat
  params : DeflateParams

def deflateHeader (header : Bytes) : DeflateHeader where
  srcStart := read8 header
  srcLen := read8 (header.drop 8)
  patchOffset := read8 (header.drop 16)
  expandedLen := read8 (header.drop 24)
  params :=
    { level := read4 (header.drop 40)
      method := read4 (header.drop 44)
      windowBits := read4 (header.drop 48)
      memLevel := read4 (header.drop 52)
      strategy := read4 (header.drop 56) }

/-- Decompress the source data; it must fill the buffer exactly. -/
def expandSource (old : Bytes) (header : DeflateHeader) : Except Stuck (Option Bytes) :=
  if lib.malloc header.expandedLen then do
    let input ← slice old (wrap32 header.srcStart) header.srcLen
    match lib.inflate input with
    | none => .ok none
    | some (expanded, _) =>
        if expanded.length = header.expandedLen then .ok (some expanded) else .ok none
  else
    .ok none

/-- Cut into pieces of `size` bytes. -/
def pieces (size : Nat) : (fuel : Nat) → Bytes → List Bytes
  | 0, _ => []
  | fuel + 1, data =>
      if data.length = 0 then [] else data.take size :: pieces size fuel (data.drop size)

/-- Size of the buffer that receives the output of `deflate`. -/
def tempSize (expandedLen : Nat) : Nat :=
  if wrap32 expandedLen < 32768 then 32768 else expandedLen

/-- Compress the target data, piece by piece.  A refused parameter makes
`deflate` fail in every round of its loop, and so does a missing buffer. -/
def compressTarget (header : DeflateHeader) (target : Bytes) : Except Stuck (List Bytes) :=
  if wrap32 header.expandedLen < 32768 ∧ lib.malloc 32768 = false then
    .error .hang
  else
    match lib.deflate header.params target with
    | none => .error .hang
    | some data => .ok (pieces (tempSize header.expandedLen) data.length data)

/-- Apply the binary patch to the expanded source and compress the result;
nothing if the result is not zero. -/
def patchExpanded (header : DeflateHeader) (expanded : Bytes) :
    Except Stuck (Option (List Bytes)) := do
  match ← applyBSDiffPatchMem lib ⟨expanded, 0, wrap32 header.expandedLen⟩ patch
    (wrap32 header.patchOffset) with
  | none => .ok none
  | some target => do
      let output ← compressTarget lib header target
      .ok (some output)

/-- The output of a deflate chunk. -/
def deflateChunk (old : Bytes) (header : DeflateHeader) :
    Except Stuck (Option (List Bytes)) := do
  match ← expandSource lib old header with
  | none => .ok none
  | some expanded => patchExpanded lib patch header expanded

/-- Write the pieces and hash each one after it was written; the result is zero
or -1. -/
def sinkPieces : List Bytes → OutState → SysProg (Int × OutState)
  | [], out => pure (0, out)
  | piece :: rest, out => do
      let (wrote, out) ← sink piece out
      if wrote ≠ piece.length then pure (-1, out)
      else sinkPieces rest (out.update piece)

/-- A chunk is followed by the next one, or ends the call. -/
inductive ChunkResult where
  | next (pos : Int) (out : OutState)
  | returned (code : Int) (out : OutState)

/-- Read `len` bytes of chunk header at `start`, if they lie in the patch. -/
def withHeader (start : Int) (len : Nat) (out : OutState)
    (rest : Bytes → SysProg (Except Stuck ChunkResult)) : SysProg (Except Stuck ChunkResult) :=
  if patch.length < wrap32 (start + len) then
    pure (.ok (.returned (-1) out))
  else
    match slice patch start len with
    | .error stuck => pure (.error stuck)
    | .ok header => rest header

/-- A normal chunk.  The result of `ApplyBSDiffPatch` is not looked at. -/
def applyNormalChunk (old : Bytes) (start : Int) (out : OutState) :
    SysProg (Except Stuck ChunkResult) :=
  withHeader patch start 24 out fun header => do
    match ← applyBSDiffPatch lib sink patch
      ⟨old, wrap32 (read8 header), wrap32 (read8 (header.drop 8))⟩
      (wrap32 (read8 (header.drop 16))) out with
    | .error stuck => pure (.error stuck)
    | .ok (_, out) => pure (.ok (.next (wrap32 (start + 24)) out))

def applyRawChunk (start : Int) (out : OutState) : SysProg (Except Stuck ChunkResult) :=
  withHeader patch start 4 out fun header =>
    let pos := wrap32 (start + 4)
    let dataLen := read4 header
    if patch.length < wrap32 (pos + dataLen) then
      pure (.ok (.returned (-1) out))
    else
      match slice patch pos dataLen with
      | .error stuck => pure (.error stuck)
      | .ok data => do
          let (wrote, out) ← sink data (out.update data)
          if wrote ≠ dataLen then pure (.ok (.returned (-1) out))
          else pure (.ok (.next (wrap32 (pos + dataLen)) out))

def applyDeflateChunk (old : Bytes) (start : Int) (out : OutState) :
    SysProg (Except Stuck ChunkResult) :=
  withHeader patch start 60 out fun header =>
    match deflateChunk lib patch old (deflateHeader header) with
    | .error stuck => pure (.error stuck)
    | .ok none => pure (.ok (.returned (-1) out))
    | .ok (some output) => do
        let (result, out) ← sinkPieces sink output out
        if result ≠ 0 then pure (.ok (.returned result out))
        else pure (.ok (.next (wrap32 (start + 60)) out))

/-- One round of the loop of `ApplyImagePatch`. -/
def applyChunk (old : Bytes) (pos : Int) (out : OutState) : SysProg (Except Stuck ChunkResult) :=
  withHeader patch pos 4 out fun record =>
    let start := wrap32 (pos + 4)
    if read4 record = chunkNormal then
      applyNormalChunk lib sink patch old start out
    else if read4 record = chunkRaw then
      applyRawChunk sink patch start out
    else if read4 record = chunkDeflate then
      applyDeflateChunk lib sink patch old start out
    else
      pure (.ok (.returned (-1) out))

def applyChunks (old : Bytes) :
    (left : Nat) → (pos : Int) → OutState → SysProg (Except Stuck (Int × OutState))
  | 0, _, out => pure (.ok (0, out))
  | left + 1, pos, out => do
      match ← applyChunk lib sink patch old pos out with
      | .error stuck => pure (.error stuck)
      | .ok (.returned code out) => pure (.ok (code, out))
      | .ok (.next pos out) => applyChunks old left pos out

def imgdiffMagic : Bytes := "IMGDIFF2".toList.map fun c => UInt8.ofNat c.toNat

/-- `ApplyImagePatch`. -/
def applyImagePatch (old : Bytes) (out : OutState) :
    SysProg (Except Stuck (Int × OutState)) :=
  if patch.length < 12 then pure (.ok (-1, out))
  else if patch.take 8 ≠ imgdiffMagic then pure (.ok (-1, out))
  else applyChunks lib sink patch old (read4 (patch.drop 8)).toNat 12 out

end Decoder

end OpenRecovery
