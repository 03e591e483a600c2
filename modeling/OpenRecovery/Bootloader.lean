import OpenRecovery.Roots
import Mathlib

/-!
# The bootloader message of `bootloader.c`

The message lives in the second page of the partition `misc`, or, on a system
with the bootstrap mark, in the presence of a marker file.  A message is read
and written together with the page before and the page after it.  Messages to
the log are left out.
-/

namespace OpenRecovery

open Effects Mtd

/-- The bytes of a string literal. -/
def ascii (text : String) : Bytes :=
  text.toList.map fun c => UInt8.ofNat c.toNat

/-! ## Character arrays -/

/-- The first `count` bytes of a memory area, with zeros after its end. -/
def fieldOf (count : Nat) (data : Bytes) : List.Vector UInt8 count :=
  ⟨(data ++ List.replicate count 0).take count, by simp⟩

/-- The string that starts at the beginning of an array. -/
def cString (data : Bytes) : Bytes :=
  data.takeWhile (· ≠ 0)

/-- `strcpy` of a string that fits. -/
def strcpy {count : Nat} (field : List.Vector UInt8 count) (text : Bytes) :
    List.Vector UInt8 count :=
  fieldOf count (text ++ 0 :: field.toList.drop (text.length + 1))

def strlcpy {count : Nat} (field : List.Vector UInt8 count) (text : Bytes) (size : Nat) :
    List.Vector UInt8 count :=
  strcpy field (text.take (size - 1))

def strlcat {count : Nat} (field : List.Vector UInt8 count) (text : Bytes) (size : Nat) :
    List.Vector UInt8 count :=
  let start := (cString field.toList).take size
  if start.length = size then field
  else strcpy field (start ++ text.take (size - 1 - start.length))

/-- `strcmp` with a literal that is shorter than the array. -/
def holdsText {count : Nat} (field : List.Vector UInt8 count) (text : Bytes) : Bool :=
  field.toList.take (text.length + 1) = text ++ [0]

/-! ## Messages -/

structure BootloaderMessage where
  command : List.Vector UInt8 32
  status : List.Vector UInt8 32
  recovery : List.Vector UInt8 1024
  deriving DecidableEq

namespace BootloaderMessage

/-- `sizeof(struct bootloader_message)`. -/
def size : Nat := 1088

/-- The memory that a message occupies. -/
def bytes (message : BootloaderMessage) : Bytes :=
  message.command.toList ++ (message.status.toList ++ message.recovery.toList)

def ofBytes (data : Bytes) : BootloaderMessage where
  command := fieldOf 32 data
  status := fieldOf 32 (data.drop 32)
  recovery := fieldOf 1024 (data.drop 64)

/-- A structure after `memset` with zero. -/
def zero : BootloaderMessage :=
  ofBytes []

end BootloaderMessage

def orIsBootstrapMark : CString := "/etc/bootstrap".toList

def orDoBootstrapMark : CString := "/cache/.boot_to_or".toList

/-- `MISC_PAGES`; the message is in the second of the three pages. -/
def miscPages : Nat := 3

/-! ## Reading and writing -/

/-- What was read from the partition `misc`. -/
structure MiscPages where
  name : CString
  partition : MtdPartition
  writeSize : Nat
  data : Bytes

section Messages

variable (build : Build)

/-- The common beginning of the two functions below: the three pages, or
nothing if they cannot be read.  The message must lie inside of them. -/
def readMisc : Checked (Option MiscPages) := do
  match ← ExceptT.lift (getRootMtdPartition build "MISC:".toList) with
  | none => pure none
  | some (name, partition) =>
      match ← call (.writeSize name) with
      | none => pure none
      | some writeSize =>
          if ← call (.openPartition name) then
            let size := writeSize * miscPages % 2 ^ 32
            let (data, _) ← ExceptT.lift
              (onPartition name (mtdReadData partition (mtdReadPartition partition) size))
            match data with
            | none => pure none
            | some data =>
                if data.length ≠ size then pure none
                else if size < writeSize + BootloaderMessage.size then throw .outOfBounds
                else pure (some ⟨name, partition, writeSize, data⟩)
          else pure none

/-- `get_bootloader_message` after its first call. -/
def loadMessage (out : BootloaderMessage) : Checked (Int × BootloaderMessage) := do
  match ← call (.stat orIsBootstrapMark) with
  | some _ =>
      match ← call (.stat orDoBootstrapMark) with
      | some _ =>
          pure (0, { out with
            command := strcpy out.command (ascii "boot-recovery")
            recovery := strcpy out.recovery (ascii "recovery\n") })
      | none =>
          pure (0, { out with
            command := strcpy out.command []
            recovery := strcpy out.recovery [] })
  | none =>
      match ← readMisc build with
      | none => pure (-1, out)
      | some misc => pure (0, .ofBytes (misc.data.drop misc.writeSize))

/-- `get_bootloader_message` into a structure that holds `out`. -/
def getBootloaderMessage (out : BootloaderMessage) : Checked (Int × BootloaderMessage) := do
  let _ ← ensureRootPathMounted build "CACHE:".toList
  loadMessage build out

/-- Copy a message into the second of the pages. -/
def splice (writeSize : Nat) (data : Bytes) (message : BootloaderMessage) : Bytes :=
  data.take writeSize ++ (message.bytes ++ data.drop (writeSize + BootloaderMessage.size))

/-- The writing in `set_bootloader_message`. -/
def writeMisc (partition : MtdPartition) (data : Bytes) : MtdProg Int := do
  let (written, ctx) ← mtdWriteData partition mtdWritePartition data
  if written ≠ data.length then do
    let _ ← mtdWriteClose partition ctx
    pure (-1)
  else do
    if (← mtdWriteClose partition ctx) ≠ 0 then pure (-1) else pure 0

/-- The part of `set_bootloader_message` for a system with the bootstrap mark. -/
def setBootstrapMark (message : BootloaderMessage) : Checked Int := do
  if holdsText message.command (ascii "boot-recovery") ∧
      holdsText message.recovery (ascii "recovery\n") then
    let _ ← call (.create orDoBootstrapMark)
    let _ ← call (.close (.file orDoBootstrapMark))
    pure 0
  else
    let _ ← call (.unlink orDoBootstrapMark)
    pure 0

/-- `set_bootloader_message` after its first call. -/
def storeMessage (message : BootloaderMessage) : Checked Int := do
  match ← call (.stat orIsBootstrapMark) with
  | some _ => setBootstrapMark message
  | none =>
      match ← readMisc build with
      | none => pure (-1)
      | some misc =>
          if ← call (.openPartition misc.name) then
            ExceptT.lift (onPartition misc.name
              (writeMisc misc.partition (splice misc.writeSize misc.data message)))
          else pure (-1)

/-- `set_bootloader_message`. -/
def setBootloaderMessage (message : BootloaderMessage) : Checked Int := do
  let _ ← ensureRootPathMounted build "CACHE:".toList
  storeMessage build message

end Messages

end OpenRecovery
