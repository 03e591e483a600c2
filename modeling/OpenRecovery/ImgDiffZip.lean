import OpenRecovery.ImgDiffMain
import OpenRecovery.SortedTable
import Mathlib

/-!
# Cutting an archive

With `-z` a file is cut along the compressed members that its central directory
lists.  The whole file is a chunk of its own on the side of the source.

Memory can be allocated; reading outside of the copy of the file, or what was never
written, is `Stuck`.
-/

namespace OpenRecovery
namespace ImgDiff

open Words

/-! ## The central directory -/

/-- `img[index]`. -/
def imgByte (img : Bytes) (index : Int) : Outcome UInt8 :=
  if 0 ≤ index ∧ index < img.length then .done (img.getD index.toNat 0)
  else .stuck .outOfBounds

def imgBytes (img : Bytes) (index len : Int) : Outcome Bytes :=
  match slice img index len with
  | .error reason => .stuck reason
  | .ok data => .done data

/-- The bytes are compared one after the other, up to the first difference. -/
def imgMatches (img : Bytes) : (index : Int) → Bytes → Outcome Bool
  | _, [] => .done true
  | index, byte :: rest => do
      let found ← imgByte img index
      if found = byte then imgMatches img (index + 1) rest else .done false

/-- `Read2`. -/
def imgRead2 (img : Bytes) (index : Int) : Outcome Int := do
  let data ← imgBytes img index 2
  .done (leNat data)

/-- `Read4`. -/
def imgRead4 (img : Bytes) (index : Int) : Outcome Int := do
  let data ← imgBytes img index 4
  .done (read4 data)

/-- Look for the end-of-central-directory record from `i` down; the search stops at
the beginning of the file and behind `left` positions. -/
def findEnd (img : Bytes) : (left : Nat) → (i : Int) → Outcome Int
  | 0, i => .done i
  | left + 1, i =>
      if i < 0 then .done i
      else do
        if ← imgMatches img i [0x50, 0x4b, 0x05, 0x06] then .done i else findEnd img left (i - 1)

/-- `ZipFileEntry`. -/
structure ZipFileEntry where
  dataOffset : Int
  deflateLen : Int
  uncompLen : Int
  filename : CString
deriving DecidableEq

/-- `fileentry_compare`. -/
def fileentryCompare (a b : ZipFileEntry) : Int :=
  if a.dataOffset < b.dataOffset then -1 else if b.dataOffset < a.dataOffset then 1 else 0

/-- A name ends at its first zero byte. -/
def nameOf (data : Bytes) : CString :=
  (data.takeWhile fun byte => byte ≠ 0).map fun byte => Char.ofNat byte.toNat

/-- The local header of a member, whose entry in the central directory has been read. -/
def readLocalHeader (img : Bytes) (hoffset clen ulen nlen : Int) (filename : Bytes) :
    Outcome ZipFileEntry := do
  if !(← imgMatches img hoffset [0x50, 0x4b, 0x03, 0x04]) then .refused
  else
    let len ← imgRead2 img (hoffset + 26)
    if len ≠ nlen then .refused
    else
      let name ← imgBytes img (hoffset + 30) nlen
      if name ≠ filename then .refused
      else
        let xlen ← imgRead2 img (hoffset + 28)
        .done ⟨wrap32 (hoffset + 30 + nlen + xlen), clen, ulen, nameOf filename⟩

/-- The entry of the central directory at `cd`, unless it is not compressed, and where
the next one begins. -/
def readEntry (img : Bytes) (cd : Int) : Outcome (Option ZipFileEntry × Int) := do
  if !(← imgMatches img cd [0x50, 0x4b, 0x01, 0x02]) then .refused
  else
    let clen ← imgRead4 img (cd + 20)
    let ulen ← imgRead4 img (cd + 24)
    let nlen ← imgRead2 img (cd + 28)
    let xlen ← imgRead2 img (cd + 30)
    let mlen ← imgRead2 img (cd + 32)
    let hoffset ← imgRead4 img (cd + 42)
    let filename ← imgBytes img (cd + 46) nlen
    let method ← imgRead2 img (cd + 10)
    let next := cd + (46 + nlen + xlen + mlen)
    if method ≠ 8 then .done (none, next)
    else
      let entry ← readLocalHeader img hoffset clen ulen nlen filename
      .done (some entry, next)

def readEntries (img : Bytes) : (left : Nat) → (cd : Int) → Outcome (List ZipFileEntry)
  | 0, _ => .done []
  | left + 1, cd => do
      let (entry, next) ← readEntry img cd
      let rest ← readEntries img left next
      .done (entry.toList ++ rest)

/-- The compressed members in the order of their data. -/
def zipEntries (img : Bytes) : Outcome (List ZipFileEntry) := do
  let i ← findEnd img 65580 (img.length - 20)
  let disk ← imgBytes img (i + 4) 4
  if disk ≠ [0, 0, 0, 0] then .refused
  else
    let cdcount ← imgRead2 img (i + 8)
    let cdoffset ← imgRead4 img (i + 16)
    let entries ← readEntries img cdcount.toNat cdoffset
    .done (SortedTable.qsort fileentryCompare entries)

/-! ## The chunks -/

section Chunks

variable (tools : Tools) (img : Bytes) (uninit : ImageChunk 32)

/-- The deflate chunk in the slot `i`; `uninit` is what the memory of the array held
before. -/
def zipDeflateChunk (i : Nat) (pos : Int) (entry : ZipFileEntry) : ImageChunk 32 :=
  { uninit with
    type := chunkDeflate, start := BitVec.ofInt 32 pos,
    deflateLen := BitVec.ofInt 32 entry.deflateLen, deflateData := ⟨0, pos.toNat⟩,
    filename := some entry.filename, I := none, len := BitVec.ofInt 32 entry.uncompLen,
    data := ⟨i + 1, 0⟩ }

def zipNormalChunk (pos len : Int) : ImageChunk 32 :=
  { uninit with
    type := chunkNormal, start := BitVec.ofInt 32 pos, len := BitVec.ofInt 32 len,
    data := ⟨0, pos.toNat⟩, filename := none, I := none }

/-- Inflate a member into a buffer of the size that its entry gives. -/
def inflateEntry (pos : Int) (entry : ZipFileEntry) : Outcome Unit := do
  let input ← imgBytes img pos (BitVec.ofInt 32 entry.deflateLen).toNat
  match tools.library.inflate input with
  | none => .refused
  | some (data, _) =>
      if data.length ≤ (BitVec.ofInt 32 entry.uncompLen).toNat then .done () else .refused

/-- The chunks from `pos` on, of which the first goes into the slot `i`; `entries` are
the members that have not been met yet. -/
def cutZip : (fuel i : Nat) → (pos : Int) → List ZipFileEntry → Outcome (List (ImageChunk 32))
  | 0, _, _, _ => .running
  | fuel + 1, i, pos, entries =>
      if (img.length : Int) ≤ pos then .done []
      else if pos < 0 then .stuck .outOfBounds
      else
        match entries with
        | [] => do
            let rest ← cutZip fuel (i + 1) (wrap32 (pos + (img.length - pos))) []
            .done (zipNormalChunk uninit pos (img.length - pos) :: rest)
        | entry :: later =>
            if pos = entry.dataOffset then do
              inflateEntry tools img pos entry
              let rest ← cutZip fuel (i + 1) (wrap32 (pos + entry.deflateLen)) later
              .done (zipDeflateChunk uninit i pos entry :: rest)
            else do
              let rest ← cutZip fuel (i + 1) (wrap32 (pos + (entry.dataOffset - pos))) entries
              .done (zipNormalChunk uninit pos (entry.dataOffset - pos) :: rest)

/-- `ReadZip`.  Between two members there is at most one chunk. -/
def readZip (includePseudoChunk : Bool) : Outcome (List (ImageChunk 32)) := do
  let entries ← zipEntries img
  if includePseudoChunk then
    let chunks ← cutZip tools img uninit (2 * entries.length + 2) 1 0 entries
    .done (zipNormalChunk uninit 0 img.length :: chunks)
  else cutZip tools img uninit (2 * entries.length + 2) 0 0 entries

end Chunks

def zipBlocks (tools : Tools) (img : Bytes) (chunks : List (ImageChunk 32)) : Blocks :=
  blocksOf tools img (fun chunk => (img.drop chunk.start.toNat).take chunk.deflateLen.toNat) chunks

/-- `main` with `-z`, once its arguments are known. -/
def imgdiffZip (tools : Tools) (uninit : ImageChunk 32) (source target : Bytes) :
    Outcome Bytes := do
  let srcChunks ← readZip tools source uninit true
  let tgtRead ← readZip tools target uninit false
  let srcBlocks := zipBlocks tools source srcChunks
  let tgtBlocks := zipBlocks tools target tgtRead
  let (tgtChunks, srcChunks) ← checkChunks tools .zip srcBlocks tgtBlocks 0 tgtRead srcChunks
  let patches ← makePatches tools .zip srcBlocks tgtBlocks srcChunks 0 (mergedChunks tgtChunks)
  .done (patchFile patches)

end ImgDiff
end OpenRecovery
