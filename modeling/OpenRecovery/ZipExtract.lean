import OpenRecovery.Bootloader
import OpenRecovery.Traces
import OpenRecovery.ZipContents
import Mathlib

/-!
# Recursive extraction, `mzExtractRecursive` of `minzip/Zip.c`

The requests are the calls of the system and of the callback, and those that the callers
in `updater/install.c` and `install.c` make.  What they return, and what new memory holds,
is left to the system.  Messages are left out, and `free`.
-/

namespace OpenRecovery.Minzip

open Deflate Effects Words

/-- A text in memory: it has no zero but the one behind it, and does not use the page
at address zero. -/
structure MemoryText where
  text : Bytes
  no_zero : 0 ∉ text
  length_lt : text.length + 1 + 4096 ≤ 2 ^ 32

def slash : UInt8 := 47

/-- `struct utimbuf`. -/
structure Utimbuf where
  actime : Int
  modtime : Int

inductive ExtractOp where
  | malloc (size : Nat)
  | realloc (size : Nat)
  | dirCreateHierarchy (path : Bytes) (mode : Nat) (timestamp : Option Utimbuf)
      (stripFileName : Bool)
  | creat (path : Bytes) (mode : Nat)
  | write (fd : Int) (buf : Bytes)
  | close (fd : Int)
  | symlink (oldpath newpath : Bytes)
  | utime (path : Bytes) (times : Utimbuf)
  | callback (fn : Bytes)
  | mkdirRecursive (path : Bytes)
  | runShellScript (command : Bytes)

/-- The value that `write` returns, and whether `errno` is `EINTR`. -/
structure WriteReply where
  n : Int
  interrupted : Bool

/-- A new block of memory holds any bytes. -/
abbrev ExtractReply : ExtractOp → Type
  | .malloc size => Option (List.Vector UInt8 size)
  | .realloc size => Option (List.Vector UInt8 size)
  | .dirCreateHierarchy .. => Int
  | .creat .. => Int
  | .write .. => WriteReply
  | .close _ => Int
  | .symlink .. => Int
  | .utime .. => Int
  | .callback _ => Unit
  | .mkdirRecursive _ => Int
  | .runShellScript _ => Unit

abbrev ExtractProg (α : Type) := ExceptT Stuck (Prog ExtractOp ExtractReply) α

def call (op : ExtractOp) : ExtractProg (ExtractReply op) :=
  ExceptT.lift (Prog.ask op)

def fallible {α : Type} (result : Except Stuck α) : ExtractProg α :=
  ExceptT.mk (pure result)

/-- Read in the mapping of an archive. -/
def readMapped (map : MemMapping) (ptr len : Nat) : Except Stuck Bytes :=
  (map.read ptr len).mapError fun _ => .outOfBounds

/-- The text that a buffer holds. -/
def textOf (buf : Bytes) : Except Stuck Bytes :=
  if 0 ∈ buf then .ok (buf.takeWhile (· ≠ 0)) else .error .outOfBounds

/-! ## The path of an entry -/

/-- `MzPathHelper`; there may be no buffer yet. -/
structure MzPathHelper where
  targetDir : Bytes
  buf : Option Bytes
  targetDirLen : Int
  zipDirLen : Int
  bufLen : Int

/-- The size of the buffer for a path of some length. -/
def pathSize (needLen : Int) : Nat :=
  (wrap32 (needLen * 2) % 2 ^ 32).toNat

/-- The buffer in new memory, with what there was in the old one. -/
def MzPathHelper.grown (helper : MzPathHelper) (needLen : Int)
    (memory : List.Vector UInt8 (pathSize needLen)) : MzPathHelper :=
  let old := helper.buf.getD []
  { helper with
    buf := some (old.take (pathSize needLen) ++ memory.toList.drop old.length)
    bufLen := wrap32 (needLen * 2) }

/-- Make the buffer larger, if it has to be. -/
def MzPathHelper.grow (helper : MzPathHelper) (needLen : Int) :
    ExtractProg (Option MzPathHelper) :=
  if helper.bufLen < needLen then do
    let newBuf ← call (.realloc (pathSize needLen))
    pure (newBuf.map (helper.grown needLen))
  else pure (some helper)

/-- Every path starts with the target path and a slash. -/
def MzPathHelper.begin (helper : MzPathHelper) : Except Stuck MzPathHelper := do
  let len := (helper.targetDirLen % 2 ^ 32).toNat
  if helper.targetDir.length + 1 < len then .error .outOfBounds
  else do
    let buf ← store (helper.buf.getD []) 0 ((helper.targetDir ++ [0]).take len)
    if len = 0 ∨ buf[len - 1]? ≠ some slash then do
      let buf ← store buf len [slash]
      pure { helper with buf := some buf, targetDirLen := wrap32 (helper.targetDirLen + 1) }
    else pure { helper with buf := some buf }

/-- Replace the custom part of the path. -/
def MzPathHelper.finish (map : MemMapping) (helper : MzPathHelper) (pEntry : ZipEntry) :
    Except Stuck (Bytes × MzPathHelper) := do
  let count := ((pEntry.fileNameLen - helper.zipDirLen) % 2 ^ 32).toNat
  let name ← readMapped map (add32 pEntry.fileName (helper.zipDirLen % 2 ^ 32).toNat) count
  let epath := (helper.targetDirLen % 2 ^ 32).toNat
  let buf ← store (helper.buf.getD []) epath name
  let buf ← store buf (epath + count) [0]
  let path ← textOf buf
  pure (path, { helper with buf := some buf })

/-- The part of `targetEntryPath` that writes into the buffer. -/
def MzPathHelper.assemble (map : MemMapping) (firstTime : Bool) (helper : MzPathHelper)
    (pEntry : ZipEntry) : Except Stuck (Bytes × MzPathHelper) :=
  if firstTime then helper.begin >>= fun started => started.finish map pEntry
  else helper.finish map pEntry

def targetEntryPath (map : MemMapping) (helper : MzPathHelper) (pEntry : ZipEntry) :
    ExtractProg (Option Bytes × MzPathHelper) := do
  let firstTime := helper.buf.isNone
  let needLen := wrap32 (helper.targetDirLen + 1 + pEntry.fileNameLen - helper.zipDirLen + 1)
  match ← helper.grow needLen with
  | none => pure (none, helper)
  | some grown => do
      let (path, finished) ← fallible (grown.assemble map firstTime pEntry)
      pure (some path, finished)

/-! ## Data of an entry -/

/-- `writeProcessFunction`, with the data that are still to be written. -/
def writeProcessFunction (fd : Int) : (fuel : Nat) → (data : Bytes) → ExtractProg Bool
  | 0, _ => throw .hang
  | fuel + 1, data => do
      let reply ← call (.write fd data)
      if reply.n ≤ 0 then
        if reply.interrupted then writeProcessFunction fd fuel data else pure false
      else if reply.n = data.length then pure true
      else if data.length < reply.n then pure false
      else writeProcessFunction fd fuel (data.drop reply.n.toNat)

/-- An archive that the parser has accepted.  Its file stands at some position, and some
reads of it may fail. -/
structure OpenArchive where
  map : MemMapping
  archive : ZipArchive
  accepted : ∃ alloc, parseZipArchive map alloc = .ok archive
  failing : (position count : Nat) → Bool
  position : Nat

def OpenArchive.fd (pArchive : OpenArchive) : ArchiveFd :=
  ⟨pArchive.map.data, pArchive.failing⟩

section Extraction

variable (zlib : Zlib) (fuel : Nat) (pArchive : OpenArchive)

/-- The calls of a function for the contents of an entry. -/
def OpenArchive.contents (pEntry : ZipEntry) : ContentsProg Bool :=
  mzProcessZipEntryContents zlib fuel pArchive.fd pEntry pArchive.position

def mzExtractZipEntryToFile (pEntry : ZipEntry) (fd : Int) : ExtractProg Bool :=
  (pArchive.contents zlib fuel pEntry).run.interpret (writeProcessFunction fd fuel)

def mzIsZipEntrySymlink (pEntry : ZipEntry) : Bool :=
  pEntry.versionMadeBy / 2 ^ 8 * 2 ^ 8 = cenvemUnix &&
    pEntry.externalFileAttributes / 2 ^ 16 % 2 ^ 16 / 2 ^ 12 = 10

/-! ## The loop over the entries -/

def mzExtractFilesOnly : Nat := 1

def mzExtractDryRun : Nat := 2

def unzipDirmode : Nat := 0o755

def unzipFilemode : Nat := 0o644

/-- The last arguments of `mzExtractRecursive`; of the callback only whether there is one. -/
structure ExtractArgs where
  flags : Nat
  timestamp : Option Utimbuf
  callback : Bool

def ExtractArgs.filesOnly (args : ExtractArgs) : Bool :=
  args.flags &&& mzExtractFilesOnly ≠ 0

def ExtractArgs.dryRun (args : ExtractArgs) : Bool :=
  args.flags &&& mzExtractDryRun ≠ 0

/-- The rest of the loop body, or a `break`; with the variable `ok` of the loop. -/
inductive LoopStep where
  | proceed (ok : Bool)
  | leave (ok : Bool)
  deriving DecidableEq

variable (args : ExtractArgs)

/-- An entry whose name ends in a slash. -/
def extractDirectory (targetFile : Bytes) (ok : Bool) : ExtractProg LoopStep :=
  if args.filesOnly then pure (.proceed ok)
  else do
    let ret ← call (.dirCreateHierarchy targetFile unzipDirmode args.timestamp false)
    if ret ≠ 0 then pure (.leave false) else pure (.proceed ok)

/-- An entry that is a symbolic link. -/
def extractLink (pEntry : ZipEntry) (targetFile : Bytes) : ExtractProg LoopStep :=
  if pEntry.uncompLen = 0 then pure (.leave false)
  else do
    match ← call (.malloc ((pEntry.uncompLen + 1) % 2 ^ 32).toNat) with
    | none => pure (.leave false)
    | some memory => do
        let (ok, linkTarget) ← fallible (mzReadZipEntry zlib fuel pArchive.fd pEntry
          pArchive.position memory.toList pEntry.uncompLen)
        if ok = false then pure (.leave ok)
        else if pEntry.uncompLen < 0 then throw .outOfBounds
        else do
          let linkTarget ← fallible (store linkTarget pEntry.uncompLen.toNat [0])
          let target ← fallible (textOf linkTarget)
          let ret ← call (.symlink target targetFile)
          if ret ≠ 0 then pure (.leave false) else pure (.proceed ok)

/-- A regular file.  The result of the extraction is put into a variable `ok` of the
block, and the one of the loop stays as it is. -/
def extractFile (pEntry : ZipEntry) (targetFile : Bytes) (ok : Bool) : ExtractProg LoopStep := do
  let fd ← call (.creat targetFile unzipFilemode)
  if fd < 0 then pure (.leave false)
  else do
    let inner ← mzExtractZipEntryToFile zlib fuel pArchive pEntry fd
    let _ ← call (.close fd)
    if inner = false then pure (.leave ok)
    else
      match args.timestamp with
      | none => pure (.proceed ok)
      | some timestamp => do
          let ret ← call (.utime targetFile timestamp)
          if ret ≠ 0 then pure (.leave ok) else pure (.proceed ok)

/-- The part of the loop body that creates the file or directory. -/
def extractEntry (pEntry : ZipEntry) (targetFile : Bytes) (ok : Bool) : ExtractProg LoopStep := do
  let last ← fallible (readMapped pArchive.map
    (add32 pEntry.fileName (pEntry.fileNameLen + (2 ^ 32 - 1))) 1)
  if last = [slash] then extractDirectory args targetFile ok
  else do
    let ret ← call (.dirCreateHierarchy targetFile unzipDirmode args.timestamp true)
    if ret ≠ 0 then pure (.leave false)
    else if !args.filesOnly && mzIsZipEntrySymlink pEntry then
      extractLink zlib fuel pArchive pEntry targetFile
    else extractFile zlib fuel pArchive args pEntry targetFile ok

/-- The end of the loop body. -/
def notify (targetFile : Bytes) : LoopStep → ExtractProg LoopStep
  | .leave ok => pure (.leave ok)
  | .proceed ok =>
      if args.callback then do
        call (.callback targetFile)
        pure (.proceed ok)
      else pure (.proceed ok)

/-- The loop body behind `targetEntryPath`. -/
def extractTarget (pEntry : ZipEntry) (targetFile : Bytes) (ok : Bool) : ExtractProg LoopStep :=
  if args.dryRun then notify args targetFile (.proceed ok)
  else extractEntry zlib fuel pArchive args pEntry targetFile ok >>= notify args targetFile

/-- The loop, which gives the value of `ok`. -/
def extractEntries (zpath : Bytes) :
    List ZipEntry → (seenMatch ok : Bool) → MzPathHelper → ExtractProg Bool
  | [], _, ok, _ => pure ok
  | pEntry :: entries, seenMatch, ok, helper =>
      if pEntry.fileNameLen < zpath.length then
        if seenMatch then pure ok else extractEntries zpath entries seenMatch ok helper
      else do
        let start ← fallible (readMapped pArchive.map pEntry.fileName zpath.length)
        if strncmp start zpath ≠ .eq then
          if seenMatch then pure ok else extractEntries zpath entries seenMatch ok helper
        else do
          let (targetFile, helper) ← targetEntryPath pArchive.map helper pEntry
          match targetFile with
          | none => pure false
          | some targetFile => do
              match ← extractTarget zlib fuel pArchive args pEntry targetFile ok with
              | .leave ok => pure ok
              | .proceed ok => extractEntries zpath entries true ok helper

end Extraction

/-- A slash at the end of a path, if there is none. -/
def withSlash (path : Bytes) : Bytes :=
  if path.getLast? = some slash then path else path ++ [slash]

/-- `zpath`, the canonical form of `zipDir`. -/
def canonicalDir (zipDir : Bytes) : Bytes :=
  if zipDir = [] then [] else withSlash zipDir

def mzExtractRecursive (zlib : Zlib) (fuel : Nat) (pArchive : OpenArchive)
    (zipDir targetDir : MemoryText) (args : ExtractArgs) : ExtractProg Bool :=
  if zipDir.text.head? = some slash then pure false
  else if targetDir.text.head? ≠ some slash then pure false
  else do
    match ← call (.malloc (zipDir.text.length + 2)) with
    | none => pure false
    | some memory => do
        let zpath := canonicalDir zipDir.text
        let _ ← fallible (store memory.toList 0 (zpath ++ [0]))
        extractEntries zlib fuel pArchive args zpath pArchive.archive.pEntries false true
          ⟨targetDir.text, none, wrap32 targetDir.text.length, wrap32 zpath.length, 0⟩

/-! ## The callers -/

section Callers

variable (zlib : Zlib) (fuel : Nat) (pArchive : OpenArchive)

/-- `PackageExtractDirFn`, when its two arguments have been read. -/
def packageExtractDirFn (zipPath destPath : MemoryText) : ExtractProg Bytes := do
  let timestamp := ⟨1217592000, 1217592000⟩
  let success ← mzExtractRecursive zlib fuel pArchive zipPath destPath
    ⟨mzExtractFilesOnly, some timestamp, false⟩
  pure (if success then ascii "t" else [])

def orUpdateExtractDirName : MemoryText where
  text := ascii "/sdcard/OpenRecovery/tmp/update"
  no_zero := by decide
  length_lt := by decide

def assumedOrUpdateScriptName : Bytes :=
  ascii "META-INF/update-or.sh"

def orScriptUpdaterName : Bytes :=
  ascii "/sbin/script-updater"

def installSuccess : Int := 0

def installError : Int := 1

def handleOrUpdate : ExtractProg Int := do
  let clear := ascii "rm -rf " ++ orUpdateExtractDirName.text
  call (.runShellScript clear)
  let made ← call (.mkdirRecursive orUpdateExtractDirName.text)
  if made ≠ 0 then pure installError
  else do
    let ok ← mzExtractRecursive zlib fuel pArchive ⟨[], by decide, by decide⟩
      orUpdateExtractDirName ⟨0, none, false⟩
    if ok = false then do
      call (.runShellScript clear)
      pure 1
    else do
      call (.runShellScript (orScriptUpdaterName ++ ascii " \"" ++ orUpdateExtractDirName.text ++
        [slash] ++ assumedOrUpdateScriptName ++ ascii "\" \"" ++ orUpdateExtractDirName.text ++
        ascii "\""))
      call (.runShellScript clear)
      pure installSuccess

end Callers

end OpenRecovery.Minzip
