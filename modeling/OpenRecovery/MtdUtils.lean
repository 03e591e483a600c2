import OpenRecovery.Effects
import OpenRecovery.Words
import Mathlib

/-!
# Raw flash partitions and the routines of `mtdutils.c`

A partition is divided into erase blocks, and every routine below addresses it
in whole erase blocks, so file offsets are kept as block numbers.  The routines
are programs over the system calls they make on the partition's device file;
the file offset that the kernel keeps for the descriptor is the field `pos` of
the two contexts.
-/

namespace OpenRecovery

namespace Mtd

open Effects

/-- One line of `/proc/mtd`.  Offsets are 32-bit `off_t` values, and the size
is compared as a signed `int`, so a partition stays below two gigabytes. -/
structure MtdPartition where
  size : Nat
  eraseSize : Nat
  eraseSize_pos : 0 < eraseSize
  size_lt : size < 2 ^ 31

/-- Number of whole erase blocks, that is of positions accepted by
`pos + size <= partition->size`. -/
def MtdPartition.blockCount (partition : MtdPartition) : Nat :=
  partition.size / partition.eraseSize

/-- The system calls made on an open MTD device.  A seek to a block is folded
into the read or write that follows it. -/
inductive MtdOp where
  | eccGetStats
  | read (block : Nat)
  | memGetBadBlock (block : Nat)
  | memErase (block : Nat)
  | write (block : Nat) (data : Bytes)
  deriving DecidableEq

/-- `eccGetStats` yields the count of failed corrections, `read` the block or
an error, `memGetBadBlock` the result of the `ioctl`; the other two report
whether they succeeded. -/
def MtdOp.Reply : MtdOp → Type
  | .eccGetStats => Option Nat
  | .read _ => Option Bytes
  | .memGetBadBlock _ => Int
  | .memErase _ => Bool
  | .write _ _ => Bool

abbrev MtdProg (α : Type) := Prog MtdOp MtdOp.Reply α

def eccGetStats : MtdProg (Option Nat) := Prog.ask MtdOp.eccGetStats

def readAt (block : Nat) : MtdProg (Option Bytes) := Prog.ask (MtdOp.read block)

def memGetBadBlock (block : Nat) : MtdProg Int := Prog.ask (MtdOp.memGetBadBlock block)

def memErase (block : Nat) : MtdProg Bool := Prog.ask (MtdOp.memErase block)

def writeAt (block : Nat) (data : Bytes) : MtdProg Bool :=
  Prog.ask (MtdOp.write block data)

/-! ## Reading -/

/-- The test that ends `read_block`: some byte of the block is not zero. -/
def anyNonZero (data : Bytes) : Bool :=
  data.any (· != 0)

structure MtdReadContext where
  buffer : Bytes
  consumed : Nat
  pos : Nat

/-- `mtd_read_partition`: nothing is buffered and the offset is zero. -/
def mtdReadPartition (partition : MtdPartition) : MtdReadContext where
  buffer := List.replicate partition.eraseSize 0
  consumed := partition.eraseSize
  pos := 0

/-- The scan of `read_block`.  `left` counts the blocks from `pos` to the end
of the partition and `offset` is the file offset.  The statistics are compared
with those taken before the first read. -/
def readBlockLoop (before : Nat) :
    (left pos offset : Nat) → MtdProg (Option Bytes × Nat)
  | 0, _, offset => pure (none, offset)
  | left + 1, pos, _ => do
      match ← readAt pos with
      | none => readBlockLoop before left (pos + 1) pos
      | some data =>
          match ← eccGetStats with
          | none => pure (none, pos + 1)
          | some after =>
              if after ≠ before then
                readBlockLoop before left (pos + 1) (pos + 1)
              else if (← memGetBadBlock pos) ≠ 0 then
                readBlockLoop before left (pos + 1) (pos + 1)
              else if anyNonZero data then
                pure (some data, pos + 1)
              else
                readBlockLoop before left (pos + 1) (pos + 1)

def readBlock (partition : MtdPartition) (pos : Nat) :
    MtdProg (Option Bytes × Nat) := do
  match ← eccGetStats with
  | none => pure (none, pos)
  | some before => readBlockLoop before (partition.blockCount - pos) pos pos

/-- Whole blocks go straight to the caller's memory. -/
def readWholeBlocks (partition : MtdPartition) :
    (count : Nat) → MtdReadContext → (got : Bytes) →
      MtdProg (Option Bytes × MtdReadContext)
  | 0, ctx, got => pure (some got, ctx)
  | count + 1, ctx, got => do
      let (block, pos) ← readBlock partition ctx.pos
      match block with
      | none => pure (none, { ctx with pos := pos })
      | some data =>
          readWholeBlocks partition count { ctx with pos := pos } (got ++ data)

/-- The outer loop of `mtd_read_data`; `got` is what the caller's buffer holds
so far. -/
def mtdReadLoop (partition : MtdPartition) (len : Nat) :
    (fuel : Nat) → MtdReadContext → (got : Bytes) →
      MtdProg (Option Bytes × MtdReadContext)
  | 0, ctx, _ => pure (none, ctx)
  | fuel + 1, ctx, got => do
      if got.length < len then
        let avail := partition.eraseSize - ctx.consumed
        let copy := min (len - got.length) avail
        let got := got ++ (ctx.buffer.drop ctx.consumed).take copy
        let ctx := { ctx with consumed := ctx.consumed + copy }
        let count :=
          if ctx.consumed = partition.eraseSize then
            (len - got.length) / partition.eraseSize
          else 0
        let (result, ctx) ← readWholeBlocks partition count ctx got
        match result with
        | none => pure (none, ctx)
        | some got =>
            if len ≤ got.length then
              pure (some got, ctx)
            else if ctx.consumed = partition.eraseSize then
              let (block, pos) ← readBlock partition ctx.pos
              match block with
              | none => pure (none, { ctx with pos := pos })
              | some data =>
                  mtdReadLoop partition len fuel
                    { buffer := data, consumed := 0, pos := pos } got
            else
              mtdReadLoop partition len fuel ctx got
      else
        pure (some got, ctx)

/-- `mtd_read_data`; `none` stands for the result -1.  The loop compares with
`(int) len`, which is negative from two gigabytes on. -/
def mtdReadData (partition : MtdPartition) (ctx : MtdReadContext) (len : Nat) :
    MtdProg (Option Bytes × MtdReadContext) :=
  if 2 ^ 31 ≤ len then pure (some [], ctx)
  else mtdReadLoop partition len (len + 2) ctx []

/-! ## Writing -/

/-- `stored` holds the pending bytes of `buffer`. -/
structure MtdWriteContext where
  stored : Bytes
  pos : Nat
  badBlockOffsets : List Nat

def mtdWritePartition : MtdWriteContext where
  stored := []
  pos := 0
  badBlockOffsets := []

def addBadBlockOffset (ctx : MtdWriteContext) (pos : Nat) : MtdWriteContext :=
  { ctx with badBlockOffsets := ctx.badBlockOffsets ++ [pos] }

/-- The retry loop of `write_block` on one block.  The result of the write
itself is only printed; what counts is the verification. -/
def tryBlock (pos : Nat) (data : Bytes) :
    (retries offset : Nat) → MtdProg (Bool × Nat)
  | 0, offset => pure (false, offset)
  | retries + 1, offset => do
      if ← memErase pos then
        let _ ← writeAt pos data
        match ← readAt pos with
        | none => tryBlock pos data retries pos
        | some verify =>
            if verify = data then pure (true, pos + 1)
            else tryBlock pos data retries (pos + 1)
      else
        tryBlock pos data retries offset

def writeBlockLoop (data : Bytes) :
    (left pos : Nat) → MtdWriteContext → MtdProg (Int × MtdWriteContext)
  | 0, _, ctx => pure (-1, ctx)
  | left + 1, pos, ctx => do
      if 0 < (← memGetBadBlock pos) then
        writeBlockLoop data left (pos + 1) (addBadBlockOffset ctx pos)
      else
        let (verified, offset) ← tryBlock pos data 2 ctx.pos
        let ctx := { ctx with pos := offset }
        if verified then
          pure (0, ctx)
        else
          let _ ← memErase pos
          writeBlockLoop data left (pos + 1) (addBadBlockOffset ctx pos)

def writeBlock (partition : MtdPartition) (ctx : MtdWriteContext) (data : Bytes) :
    MtdProg (Int × MtdWriteContext) :=
  writeBlockLoop data (partition.blockCount - ctx.pos) ctx.pos ctx

/-- Whole blocks are written straight from the caller's memory; the bytes not
yet written are returned. -/
def writeWholeBlocks (partition : MtdPartition) :
    (count : Nat) → MtdWriteContext → (data : Bytes) →
      MtdProg (Option Bytes × MtdWriteContext)
  | 0, ctx, data => pure (some data, ctx)
  | count + 1, ctx, data => do
      let (failed, ctx) ← writeBlock partition ctx (data.take partition.eraseSize)
      if failed ≠ 0 then pure (none, ctx)
      else writeWholeBlocks partition count ctx (data.drop partition.eraseSize)

/-- Write the pending bytes as one block. -/
def flushStored (partition : MtdPartition) (ctx : MtdWriteContext) (block : Bytes) :
    MtdProg (Int × MtdWriteContext) := do
  let (failed, ctx) ← writeBlock partition ctx block
  if failed ≠ 0 then pure (failed, ctx)
  else pure (0, { ctx with stored := [] })

/-- The outer loop of `mtd_write_data` on the bytes still to be taken from the
caller; it reports whether all of them were taken. -/
def mtdWriteLoop (partition : MtdPartition) :
    (fuel : Nat) → MtdWriteContext → (data : Bytes) →
      MtdProg (Bool × MtdWriteContext)
  | 0, ctx, data => pure (data.isEmpty, ctx)
  | fuel + 1, ctx, data => do
      if data.isEmpty then
        pure (true, ctx)
      else
        let copy :=
          if 0 < ctx.stored.length ∨ data.length < partition.eraseSize then
            min data.length (partition.eraseSize - ctx.stored.length)
          else 0
        let ctx := { ctx with stored := ctx.stored ++ data.take copy }
        let data := data.drop copy
        let (failed, ctx) ←
          if ctx.stored.length = partition.eraseSize then
            flushStored partition ctx ctx.stored
          else pure (0, ctx)
        if failed ≠ 0 then
          pure (false, ctx)
        else
          let count :=
            if ctx.stored.length = 0 then data.length / partition.eraseSize else 0
          let (rest, ctx) ← writeWholeBlocks partition count ctx data
          match rest with
          | none => pure (false, ctx)
          | some data => mtdWriteLoop partition fuel ctx data

/-- `mtd_write_data`: the number of bytes written, which is all of them, or -1. -/
def mtdWriteData (partition : MtdPartition) (ctx : MtdWriteContext) (data : Bytes) :
    MtdProg (Int × MtdWriteContext) := do
  let (done, ctx) ← mtdWriteLoop partition (data.length + 1) ctx data
  pure (if done then data.length else -1, ctx)

def eraseLoop : (blocks pos : Nat) → MtdProg Nat
  | 0, pos => pure pos
  | blocks + 1, pos => do
      if 0 < (← memGetBadBlock pos) then
        eraseLoop blocks (pos + 1)
      else
        let _ ← memErase pos
        eraseLoop blocks (pos + 1)

/-- Zero-pad and write any pending data to get to a block boundary. -/
def flushPending (partition : MtdPartition) (ctx : MtdWriteContext) :
    MtdProg (Int × MtdWriteContext) :=
  if 0 < ctx.stored.length then
    flushStored partition ctx
      (ctx.stored ++ List.replicate (partition.eraseSize - ctx.stored.length) 0)
  else pure (0, ctx)

/-- `mtd_erase_blocks`: zero-pad and write the pending data, then erase
`blocks` blocks (all remaining ones if negative).  The result is a byte
offset, or -1. -/
def mtdEraseBlocks (partition : MtdPartition) (ctx : MtdWriteContext) (blocks : Int) :
    MtdProg (Int × MtdWriteContext) := do
  let (failed, ctx) ← flushPending partition ctx
  if failed ≠ 0 then
    pure (-1, ctx)
  else
    let total := (partition.size - ctx.pos * partition.eraseSize) / partition.eraseSize
    let blocks := if blocks < 0 then (total : Int) else blocks
    if (total : Int) < blocks then
      pure (-1, ctx)
    else
      let pos ← eraseLoop blocks.toNat ctx.pos
      pure ((pos * partition.eraseSize : Nat), ctx)

def mtdWriteClose (partition : MtdPartition) (ctx : MtdWriteContext) : MtdProg Int := do
  let (pos, _) ← mtdEraseBlocks partition ctx 0
  pure (if pos = -1 then -1 else 0)

/-! ## The device -/

/-- The contents of one erase block. -/
abbrev Block (partition : MtdPartition) :=
  { data : Bytes // data.length = partition.eraseSize }

/-- The state of a partition: what each block holds and which blocks carry a
factory bad-block mark. -/
structure Flash (partition : MtdPartition) where
  block : Nat → Block partition
  bad : Nat → Bool

variable {partition : MtdPartition}

/-- An erased block reads as all ones. -/
def erasedBlock (partition : MtdPartition) : Block partition :=
  ⟨List.replicate partition.eraseSize 0xFF, by simp⟩

def Flash.setBlock (flash : Flash partition) (pos : Nat) (data : Block partition) :
    Flash partition :=
  { flash with block := Function.update flash.block pos data }

/-- The replies of a device on which nothing goes wrong. -/
def Flash.handle : (op : MtdOp) → Flash partition → op.Reply × Flash partition
  | .eccGetStats, flash => (some 0, flash)
  | .read pos, flash =>
      (if pos < partition.blockCount then some (flash.block pos).val else none, flash)
  | .memGetBadBlock pos, flash => ((if flash.bad pos then 1 else 0 : Int), flash)
  | .memErase pos, flash => (true, flash.setBlock pos (erasedBlock partition))
  | .write pos data, flash =>
      if hlength : data.length = partition.eraseSize then
        (true, flash.setBlock pos ⟨data, hlength⟩)
      else (false, flash)

/-- A partition of two erase blocks of the usual size, for examples. -/
def samplePartition : MtdPartition where
  size := 0x40000
  eraseSize := 0x20000
  eraseSize_pos := by decide
  size_lt := by decide

def sampleFlash : Flash samplePartition where
  block _ := erasedBlock samplePartition
  bad _ := false

end Mtd

end OpenRecovery
