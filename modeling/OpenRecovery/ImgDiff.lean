import OpenRecovery.ImgPatch
import Mathlib

/-!
# The chunks of `imgdiff`

`imgdiff` cuts an image into chunks that point into its copy in memory.  A deflate
chunk also points at its inflated data, in a block of its own.  Runs of normal
chunks are merged in place: the slot of a merged chunk keeps what its other fields
held before.

`w` is the number of bits of `size_t`.
-/

namespace OpenRecovery
namespace ImgDiff

/-- A position in an allocated block. -/
structure Pointer where
  block : Nat
  offset : Nat
deriving DecidableEq, Inhabited

def Pointer.add (pointer : Pointer) (distance : Nat) : Pointer :=
  ⟨pointer.block, pointer.offset + distance⟩

/-- The allocated blocks, none of which is longer than `size_t` can count. -/
structure Memory (w : Nat) where
  blocks : Nat → Bytes
  small : ∀ block, (blocks block).length < 2 ^ w

/-- The bytes from a position on. -/
def Memory.read {w : Nat} (memory : Memory w) (pointer : Pointer) (len : Nat) : Bytes :=
  ((memory.blocks pointer.block).drop pointer.offset).take len

def chunkNormal : Int := 0

def chunkDeflate : Int := 2

/-- `ImageChunk`. -/
structure ImageChunk (w : Nat) where
  type : Int
  start : BitVec w
  len : BitVec w
  data : Pointer
  sourceStart : BitVec w
  sourceLen : BitVec w
  I : Option Pointer
  deflateLen : BitVec w
  deflateData : Pointer
  filename : Option CString
  level : Int
  method : Int
  windowBits : Int
  memLevel : Int
  strategy : Int
  sourceUncompressedLen : BitVec w
deriving DecidableEq, Inhabited

variable {w : Nat}

/-- The chunk in a slot of the array. -/
def slot (chunks : List (ImageChunk w)) (i : Nat) : ImageChunk w :=
  chunks.getD i default

/-- A chunk begins, in the image and in memory, where another one ends. -/
def ImageChunk.follows (chunk previous : ImageChunk w) : Prop :=
  chunk.type = chunkNormal ∧ chunk.start = previous.start + previous.len ∧
    chunk.data = previous.data.add previous.len.toNat

instance (chunk previous : ImageChunk w) : Decidable (chunk.follows previous) :=
  inferInstanceAs (Decidable (_ ∧ _ ∧ _))

/-- The end of the run of normal chunks; `inEnd` is the next one to look at. -/
def runEnd (chunks : List (ImageChunk w)) (numChunks inEnd : Nat) : Nat :=
  if inEnd < numChunks ∧ (slot chunks inEnd).follows (slot chunks (inEnd - 1)) then
    runEnd chunks numChunks (inEnd + 1)
  else inEnd
termination_by numChunks - inEnd

theorem le_runEnd (chunks : List (ImageChunk w)) (numChunks inEnd : Nat) :
    inEnd ≤ runEnd chunks numChunks inEnd := by
  induction inEnd using runEnd.induct chunks numChunks with
  | case1 inEnd hfollows ih =>
      rw [runEnd, if_pos hfollows]
      exact Nat.le_of_succ_le ih
  | case2 inEnd hstop =>
      rw [runEnd, if_neg hstop]

/-- The end of what goes into one slot from `inStart` on. -/
def nextStart (chunks : List (ImageChunk w)) (numChunks inStart : Nat) : Nat :=
  if (slot chunks inStart).type ≠ chunkNormal then inStart + 1
  else runEnd chunks numChunks (inStart + 1)

theorem lt_nextStart (chunks : List (ImageChunk w)) (numChunks inStart : Nat) :
    inStart < nextStart chunks numChunks inStart := by
  unfold nextStart
  split_ifs
  · exact Nat.lt_succ_self inStart
  · exact le_runEnd chunks numChunks (inStart + 1)

/-- Collapse a run into the slot `out`, one field after the other. -/
def collapseRun (chunks : List (ImageChunk w)) (out inStart inEnd : Nat) : List (ImageChunk w) :=
  let chunks := chunks.modify out fun chunk => { chunk with type := chunkNormal }
  let chunks := chunks.modify out fun chunk => { chunk with start := (slot chunks inStart).start }
  let chunks := chunks.modify out fun chunk => { chunk with data := (slot chunks inStart).data }
  chunks.modify out fun chunk =>
    { chunk with
      len := (slot chunks (inEnd - 1)).len +
        ((slot chunks (inEnd - 1)).start - (slot chunks inStart).start) }

/-- Fill the slot `out` with what stands from `inStart` up to `inEnd`. -/
def fillSlot (chunks : List (ImageChunk w)) (out inStart inEnd : Nat) : List (ImageChunk w) :=
  if inEnd = inStart + 1 then
    if out ≠ inStart then chunks.set out (slot chunks inStart) else chunks
  else collapseRun chunks out inStart inEnd

def mergeLoop (chunks : List (ImageChunk w)) (numChunks out inStart : Nat) :
    List (ImageChunk w) × Nat :=
  if inStart < numChunks then
    let inEnd := nextStart chunks numChunks inStart
    mergeLoop (fillSlot chunks out inStart inEnd) numChunks (out + 1) inEnd
  else (chunks, out)
termination_by numChunks - inStart
decreasing_by
  have hnext := lt_nextStart chunks numChunks inStart
  omega

/-- `MergeAdjacentNormalChunks`: the array and the number of chunks afterwards. -/
def mergeAdjacentNormalChunks (chunks : List (ImageChunk w)) (numChunks : Nat) :
    List (ImageChunk w) × Nat :=
  mergeLoop chunks numChunks 0 0

/-! ## Reading an image -/

/-- What a call of `inflate` leaves: the stream, the number of bytes written and
whether the call returns `Z_STREAM_END`. -/
structure Inflated (State : Type) where
  state : State
  written : Nat
  ended : Bool

/-- The raw inflate decoder.  `decode` says what a deflate stream at the beginning
of the input stands for: the number of bytes it inflates to and the number of bytes
it takes, or nothing if it is corrupt or does not end in the input.  `Reached` holds
of the states of the decoder after so many bytes of output. -/
structure Inflater where
  State : Type
  init : Bytes → State
  inflate : State → Nat → Inflated State
  availIn : State → Nat
  decode : Bytes → Option (Nat × Nat)
  Reached : Bytes → Nat → State → Prop
  decode_le : ∀ {input total used}, decode input = some (total, used) → used ≤ input.length
  init_reached : ∀ input, Reached input 0 (init input)
  inflate_ends : ∀ {input total used made state}, decode input = some (total, used) →
    Reached input made state → ∀ avail, total ≤ made + avail →
      (inflate state avail).ended = true ∧ made + (inflate state avail).written = total ∧
        availIn (inflate state avail).state = input.length - used
  inflate_fills : ∀ {input total used made state}, decode input = some (total, used) →
    Reached input made state → ∀ avail, made + avail < total →
      (inflate state avail).ended = false ∧ (inflate state avail).written = avail ∧
        Reached input (made + avail) (inflate state avail).state
  inflate_fails : ∀ {input made state}, decode input = none → Reached input made state →
    ∀ avail, (inflate state avail).ended = false ∧
      Reached input (made + (inflate state avail).written) (inflate state avail).state

/-- How far a call of `ReadImage` has come: it is still running, it has left the
memory it owns, it has returned `NULL`, or it is done. -/
inductive Outcome (α : Type) where
  | running
  | stuck (reason : Stuck)
  | refused
  | done (value : α)
deriving DecidableEq

def Outcome.bind {α β : Type} (outcome : Outcome α) (rest : α → Outcome β) : Outcome β :=
  match outcome with
  | .running => .running
  | .stuck reason => .stuck reason
  | .refused => .refused
  | .done value => rest value

instance : Monad Outcome where
  pure := .done
  bind := .bind

/-- The loop that inflates a member: the number of bytes of output and the stream. -/
def inflateLoop (zlib : Inflater) : Nat → Nat → Nat → zlib.State → Outcome (Nat × zlib.State)
  | 0, _, _, _ => .running
  | fuel + 1, allocated, len, stream =>
      if allocated < len then .stuck .outOfBounds
      else
        let reply := zlib.inflate stream (allocated - len)
        let written := len + reply.written
        let enlarged := if written = allocated then 2 * allocated % 2 ^ 32 else allocated
        if reply.ended then .done (written, reply.state)
        else inflateLoop zlib fuel enlarged written reply.state

/-- A file that fits in memory with four bytes after it. -/
structure ImageFile where
  bytes : Bytes
  fits : bytes.length + 4 < 2 ^ 32

def ImageFile.size (file : ImageFile) : Nat :=
  file.bytes.length

/-- The copy of the file in memory. -/
def ImageFile.img (file : ImageFile) : Bytes :=
  file.bytes ++ List.replicate 4 0

def gzipHeaderLen : Nat := 10

def gzipFooterLen : Nat := 8

def gzipMagic : Bytes := [0x1f, 0x8b, 0x08, 0x00]

/-- The bytes in memory look like the beginning of a gzip member. -/
def ImageFile.MagicAt (file : ImageFile) (pos : Nat) : Prop :=
  (file.img.drop pos).take 4 = gzipMagic

instance (file : ImageFile) (pos : Nat) : Decidable (file.MagicAt pos) :=
  inferInstanceAs (Decidable (_ = _))

/-- The length of the normal chunk at `pos`, of which `len` bytes have been scanned. -/
def scan (file : ImageFile) (pos : Nat) : Nat → Nat → Nat
  | 0, len => len
  | left + 1, len => if file.MagicAt (pos + len) then len else scan file pos left (len + 1)

/-- A normal chunk of the image. -/
def normalChunk (pos len : Nat) : ImageChunk 32 :=
  { (default : ImageChunk 32) with
    type := chunkNormal, start := BitVec.ofNat 32 pos, len := BitVec.ofNat 32 len, data := ⟨0, pos⟩,
    I := none }

/-- A deflate chunk of the image, inflated into the block `block`. -/
def deflateChunk (block pos deflateLen len : Nat) : ImageChunk 32 :=
  { (default : ImageChunk 32) with
    type := chunkDeflate, start := BitVec.ofNat 32 pos, len := BitVec.ofNat 32 len,
    data := ⟨block, 0⟩, I := none, deflateLen := BitVec.ofNat 32 deflateLen,
    deflateData := ⟨0, pos⟩, filename := none }

/-- The three chunks of the gzip member at `pos`, and where it ends. -/
def readMember (zlib : Inflater) (file : ImageFile) (fuel pos numChunks : Nat) :
    Outcome (List (ImageChunk 32) × Nat) := do
  let body := pos + gzipHeaderLen
  if file.size < body then .stuck .outOfBounds
  else
    let (len, stream) ← inflateLoop zlib fuel 32768 0 (zlib.init (file.bytes.drop body))
    let deflateLen := file.size - zlib.availIn stream - body
    let footer := body + deflateLen
    let next := footer + gzipFooterLen
    let footerSize := (file.img.drop (next - 4)).take 4
    if footerSize.length < 4 then .stuck .outOfBounds
    else if BitVec.ofInt 32 (read4 footerSize) ≠ BitVec.ofNat 32 len then .refused
    else
      pure ([normalChunk pos gzipHeaderLen, deflateChunk (numChunks + 2) body deflateLen len,
        normalChunk footer gzipFooterLen], next)

def readLoop (zlib : Inflater) (file : ImageFile) :
    Nat → Nat → List (ImageChunk 32) → Outcome (List (ImageChunk 32))
  | 0, _, _ => .running
  | fuel + 1, pos, chunks =>
      if pos < file.size then
        if 4 ≤ file.size - pos ∧ file.MagicAt pos then do
          let (member, next) ← readMember zlib file fuel pos chunks.length
          readLoop zlib file fuel next (chunks ++ member)
        else
          let len := scan file pos (file.size - pos) 0
          readLoop zlib file fuel (pos + len) (chunks ++ [normalChunk pos len])
      else pure chunks

/-- `ReadImage`, on a file that can be read. -/
def readImage (zlib : Inflater) (file : ImageFile) (fuel : Nat) :
    Outcome (List (ImageChunk 32)) :=
  readLoop zlib file fuel 0 []

end ImgDiff
end OpenRecovery
