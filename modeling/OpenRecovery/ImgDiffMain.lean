import OpenRecovery.ImgDiff
import OpenRecovery.BsDiff
import OpenRecovery.ImgPatch
import Mathlib

/-!
# Producing an image patch

After both images were cut into chunks, `imgdiff` finds out which deflate chunks of
the target it can compress again, turns the others into normal ones, computes a
binary patch for each chunk, and writes the patches behind a header that says for
each of them what it applies to and where it stands.

Files can be written and memory can be allocated.  Reading outside of an allocated
block is `Stuck`.
-/

namespace OpenRecovery
namespace ImgDiff

open Words

/-- What `imgdiff` is linked with.  `stale` is what the variable `pos` of `bsdiff`
holds before anything is assigned to it. -/
structure Tools where
  zlib : Inflater
  library : Library
  bzip2 : Bytes → Bytes
  qsufsort : Bytes → List Int
  stale : Int

/-- The contents of the allocated blocks. -/
abbrev Blocks := Nat → Bytes

/-- Block 0 is the copy of the file, and the inflated data of the chunk `i` is in the
block `i + 1`; `input` is what is given to `inflate`. -/
def blocksOf (tools : Tools) (img : Bytes) (input : ImageChunk 32 → Bytes)
    (chunks : List (ImageChunk 32)) : Blocks
  | 0 => img
  | i + 1 =>
      if (slot chunks i).type ≠ chunkDeflate then []
      else
        match tools.library.inflate (input (slot chunks i)) with
        | none => []
        | some (data, _) => data

def readBlock (blocks : Blocks) (pointer : Pointer) (len : Nat) : Outcome Bytes :=
  if pointer.offset + len ≤ (blocks pointer.block).length then
    .done (((blocks pointer.block).drop pointer.offset).take len)
  else .stuck .outOfBounds

def ImageChunk.readData (chunk : ImageChunk 32) (blocks : Blocks) : Outcome Bytes :=
  readBlock blocks chunk.data chunk.len.toNat

/-! ## Recompression -/

def ImageChunk.params (chunk : ImageChunk 32) : DeflateParams where
  level := chunk.level
  method := chunk.method
  windowBits := chunk.windowBits
  memLevel := chunk.memLevel
  strategy := chunk.strategy

/-- Compare what comes out of `deflate` with the deflate data from `p` on. -/
def comparePieces (blocks : Blocks) (chunk : ImageChunk 32) : List Bytes → Nat → Outcome Bool
  | [], p => .done (p = chunk.deflateLen.toNat)
  | out :: rest, p => do
      let data ← readBlock blocks (chunk.deflateData.add p) out.length
      if data ≠ out then .done false else comparePieces blocks chunk rest (p + out.length)

/-- `TryReconstruction`. -/
def tryReconstruction (tools : Tools) (blocks : Blocks) (chunk : ImageChunk 32) :
    Outcome Bool := do
  let data ← chunk.readData blocks
  match tools.library.deflate chunk.params data with
  | none => .stuck .hang
  | some deflated => comparePieces blocks chunk (pieces 32768 deflated.length deflated) 0

def ImageChunk.setLevel (chunk : ImageChunk 32) (level : Int) : ImageChunk 32 :=
  { chunk with level := level, windowBits := -15, memLevel := 8, method := 8, strategy := 0 }

/-- The loop over the levels; it leaves with the level behind the last one. -/
def tryLevels (tools : Tools) (blocks : Blocks) :
    List Int → ImageChunk 32 → Outcome (Bool × ImageChunk 32)
  | [], chunk => .done (false, { chunk with level := 12 })
  | level :: rest, chunk => do
      if ← tryReconstruction tools blocks (chunk.setLevel level) then
        .done (true, chunk.setLevel level)
      else tryLevels tools blocks rest (chunk.setLevel level)

/-- `ReconstructDeflateChunk`: whether the chunk can be compressed again, and the
chunk with the parameters that do it. -/
def reconstructDeflateChunk (tools : Tools) (blocks : Blocks) (chunk : ImageChunk 32) :
    Outcome (Bool × ImageChunk 32) :=
  if chunk.type ≠ chunkDeflate then .done (false, chunk)
  else tryLevels tools blocks [6, 9] chunk

def changeDeflateChunkToNormal (chunk : ImageChunk 32) : ImageChunk 32 :=
  if chunk.type ≠ chunkDeflate then chunk
  else { chunk with type := chunkNormal, data := chunk.deflateData, len := chunk.deflateLen }

/-- `AreChunksEqual`. -/
def areChunksEqual (blocksA : Blocks) (a : ImageChunk 32) (blocksB : Blocks)
    (b : ImageChunk 32) : Outcome Bool :=
  if a.type ≠ b.type then .done false
  else if a.type = chunkNormal then
    if a.len ≠ b.len then .done false
    else do
      let dataA ← readBlock blocksA a.data a.len.toNat
      let dataB ← readBlock blocksB b.data a.len.toNat
      .done (dataA = dataB)
  else if a.type = chunkDeflate then
    if a.deflateLen ≠ b.deflateLen then .done false
    else do
      let dataA ← readBlock blocksA a.deflateData a.deflateLen.toNat
      let dataB ← readBlock blocksB b.deflateData a.deflateLen.toNat
      .done (dataA = dataB)
  else .done false

/-! ## Which chunks are patched -/

/-- `FindChunkByName`: the index of the chunk. -/
def findChunkByName (name : CString) (chunks : List (ImageChunk 32)) : Option Nat :=
  chunks.findIdx? fun chunk => chunk.type = chunkDeflate ∧ chunk.filename = some name

/-- With `-z` chunks are matched by their names, otherwise by their places. -/
inductive Mode where
  | image
  | zip
deriving DecidableEq

/-- The index of the source chunk for the deflate chunk `i` of the target. -/
def Mode.sourceOf (mode : Mode) (sources : List (ImageChunk 32)) (i : Nat)
    (chunk : ImageChunk 32) : Outcome (Option Nat) :=
  match mode, chunk.filename with
  | .image, _ => .done (some i)
  | .zip, none => .stuck .outOfBounds
  | .zip, some name => .done (findChunkByName name sources)

def changeSource (sources : List (ImageChunk 32)) : Option Nat → List (ImageChunk 32)
  | none => sources
  | some j => sources.modify j changeDeflateChunkToNormal

section Patches

variable (tools : Tools) (mode : Mode) (srcBlocks tgtBlocks : Blocks)

/-- A deflate chunk stays one only if it can be compressed again and if there is
another deflate chunk that it can be patched from. -/
def checkChunk (sources : List (ImageChunk 32)) (i : Nat) (chunk : ImageChunk 32) :
    Outcome (ImageChunk 32 × List (ImageChunk 32)) :=
  if chunk.type ≠ chunkDeflate then .done (chunk, sources)
  else do
    let (reconstructed, chunk) ← reconstructDeflateChunk tools tgtBlocks chunk
    let source ← mode.sourceOf sources i chunk
    if !reconstructed then
      .done (changeDeflateChunkToNormal chunk, changeSource sources source)
    else
      match source with
      | none => .done (changeDeflateChunkToNormal chunk, sources)
      | some j => do
          if ← areChunksEqual tgtBlocks chunk srcBlocks (slot sources j) then
            .done (changeDeflateChunkToNormal chunk, changeSource sources (some j))
          else .done (chunk, sources)

def checkChunks : (i : Nat) → (targets sources : List (ImageChunk 32)) →
    Outcome (List (ImageChunk 32) × List (ImageChunk 32))
  | _, [], sources => .done ([], sources)
  | i, chunk :: rest, sources => do
      let (chunk, sources) ← checkChunk tools mode srcBlocks tgtBlocks sources i chunk
      let (rest, sources) ← checkChunks (i + 1) rest sources
      .done (chunk :: rest, sources)

/-- `MakePatch`: the patch data and the target chunk.  The index of the source is
computed the first time it is needed. -/
def makePatch (src tgt : ImageChunk 32) : Outcome (ImageChunk 32 × Bytes) := do
  let new ← tgt.readData tgtBlocks
  if tgt.type = chunkNormal ∧ tgt.len.toNat ≤ 160 then .done ({ tgt with type := chunkRaw }, new)
  else
    let old ← src.readData srcBlocks
    match BsDiff.bsdiff tools.bzip2 (tools.qsufsort old) old new tools.stale with
    | .error stuck => .stuck stuck
    | .ok patch =>
        if tgt.type = chunkNormal ∧ tgt.len.toNat ≤ patch.length then
          .done ({ tgt with type := chunkRaw }, new)
        else if tgt.type = chunkNormal then
          .done ({ tgt with sourceStart := src.start, sourceLen := src.len }, patch)
        else if tgt.type = chunkDeflate then
          .done ({ tgt with
            sourceStart := src.start, sourceLen := src.deflateLen,
            sourceUncompressedLen := src.len }, patch)
        else .done ({ tgt with sourceStart := src.start }, patch)

/-- The source chunk that chunk `i` of the target is patched from.  With `-z` that is
the whole source unless there is a deflate chunk of the same name. -/
def Mode.patchSource (sources : List (ImageChunk 32)) (i : Nat) (chunk : ImageChunk 32) :
    Outcome (ImageChunk 32) :=
  match mode with
  | .image => .done (slot sources i)
  | .zip =>
      if chunk.type ≠ chunkDeflate then .done (slot sources 0)
      else
        match chunk.filename with
        | none => .stuck .outOfBounds
        | some name =>
            match findChunkByName name sources with
            | some j => .done (slot sources j)
            | none => .done (slot sources 0)

def makePatches (sources : List (ImageChunk 32)) :
    (i : Nat) → List (ImageChunk 32) → Outcome (List (ImageChunk 32 × Bytes))
  | _, [] => .done []
  | i, chunk :: rest => do
      let src ← mode.patchSource sources i chunk
      let patched ← makePatch tools srcBlocks tgtBlocks src chunk
      let rest ← makePatches sources (i + 1) rest
      .done (patched :: rest)

end Patches

/-! ## The patch file -/

def write4 (value : Int) : Bytes :=
  leBytes 4 (value % 2 ^ 32).toNat

/-- `Write8` of a `size_t`. -/
def write8 (value : BitVec 32) : Bytes :=
  leBytes 8 value.toNat

/-- What a chunk adds to `total_header_size`. -/
def headerSize (chunk : ImageChunk 32) (data : Bytes) : Nat :=
  4 + if chunk.type = chunkNormal then 24
    else if chunk.type = chunkDeflate then 60
    else if chunk.type = chunkRaw then 4 + data.length
    else 0

/-- What a chunk adds to `offset`, which is the length of its patch in the body. -/
def bodyOf (patched : ImageChunk 32 × Bytes) : Bytes :=
  if patched.1.type = chunkRaw then [] else patched.2

def chunkHeader (chunk : ImageChunk 32) (data : Bytes) (offset : BitVec 32) : Bytes :=
  write4 chunk.type ++
    if chunk.type = chunkNormal then
      write8 chunk.sourceStart ++ write8 chunk.sourceLen ++ write8 offset
    else if chunk.type = chunkDeflate then
      write8 chunk.sourceStart ++ write8 chunk.sourceLen ++ write8 offset ++
        write8 chunk.sourceUncompressedLen ++ write8 chunk.len ++ write4 chunk.level ++
        write4 chunk.method ++ write4 chunk.windowBits ++ write4 chunk.memLevel ++
        write4 chunk.strategy
    else if chunk.type = chunkRaw then write4 data.length ++ data
    else []

def writeHeaders : (offset : BitVec 32) → List (ImageChunk 32 × Bytes) → Bytes
  | _, [] => []
  | offset, (chunk, data) :: rest =>
      chunkHeader chunk data offset ++
        writeHeaders (offset + BitVec.ofNat 32 (bodyOf (chunk, data)).length) rest

def totalHeaderSize (patches : List (ImageChunk 32 × Bytes)) : BitVec 32 :=
  BitVec.ofNat 32 (12 + (patches.map fun patched => headerSize patched.1 patched.2).sum)

/-- The patch file. -/
def patchFile (patches : List (ImageChunk 32 × Bytes)) : Bytes :=
  imgdiffMagic ++ write4 patches.length ++ writeHeaders (totalHeaderSize patches) patches ++
    patches.flatMap bodyOf

/-! ## Images -/

def ImageFile.blocks (file : ImageFile) (tools : Tools) (chunks : List (ImageChunk 32)) :
    Blocks :=
  blocksOf tools file.img (fun chunk => file.bytes.drop chunk.start.toNat) chunks

def mergedChunks (chunks : List (ImageChunk 32)) : List (ImageChunk 32) :=
  let merged := mergeAdjacentNormalChunks chunks chunks.length
  merged.1.take merged.2

/-- `main` without `-z`, once its arguments are known. -/
def imgdiff (tools : Tools) (fuel : Nat) (source target : ImageFile) : Outcome Bytes := do
  let srcRead ← readImage tools.zlib source fuel
  let tgtRead ← readImage tools.zlib target fuel
  let srcBlocks := source.blocks tools srcRead
  let tgtBlocks := target.blocks tools tgtRead
  let tgtChunks := mergedChunks tgtRead
  let srcChunks := mergedChunks srcRead
  if srcChunks.map ImageChunk.type ≠ tgtChunks.map ImageChunk.type then .refused
  else
    let (tgtChunks, srcChunks) ← checkChunks tools .image srcBlocks tgtBlocks 0 tgtChunks srcChunks
    let tgtChunks := mergedChunks tgtChunks
    let srcChunks := mergedChunks srcChunks
    if srcChunks.length ≠ tgtChunks.length then .refused
    else
      let patches ← makePatches tools .image srcBlocks tgtBlocks srcChunks 0 tgtChunks
      .done (patchFile patches)

end ImgDiff
end OpenRecovery
