import OpenRecovery.ApplyPatch
import OpenRecovery.Roots
import OpenRecovery.RecoveryArgs
import OpenRecovery.Edify
import Mathlib

/-!
# The functions of `updater/install.c`

What the updater adds to the evaluator.  Mounted volumes, partitions, patches
and plain files go through the same requests as in the rest of the recovery;
the package, directory trees, properties, the command pipe and other programs
are reached by requests of their own.  Messages to `stderr` and `stdout` are
left out.
-/

namespace OpenRecovery.Edify

open Effects Mtd

inductive UpdaterOp where
  | sys (op : SysOp)
  | mkdir (path : Bytes) (mode : Nat)
  | dirUnlinkHierarchy (path : Bytes)
  | dirSetHierarchyPermissions (path : Bytes) (uid gid dirMode fileMode : Nat)
  | symlink (target path : Bytes)
  | mzExtractRecursive (zipDir targetDir : Bytes) (timestamp : Nat)
  | mzFindZipEntry (name : Bytes)
  | mzExtractZipEntryToFile (name path : Bytes)
  | mzExtractZipEntryToBuffer (name : Bytes)
  | propertyGet (key : Bytes)
  | cmdPipe (text : Bytes)
  | runProgram (args : List Bytes)
  | strerror

/-- `mzFindZipEntry` gives the length of the entry, and `runProgram` the status
that `waitpid` reports. -/
@[reducible] def UpdaterOp.Reply : UpdaterOp → Type
  | .sys op => op.Reply
  | .mkdir _ _ => Unit
  | .dirUnlinkHierarchy _ => Bool
  | .dirSetHierarchyPermissions _ _ _ _ _ => Unit
  | .symlink _ _ => Bool
  | .mzExtractRecursive _ _ _ => Bool
  | .mzFindZipEntry _ => Option Nat
  | .mzExtractZipEntryToFile _ _ => Bool
  | .mzExtractZipEntryToBuffer _ => Option Bytes
  | .propertyGet _ => Bytes
  | .cmdPipe _ => Unit
  | .runProgram _ => Int
  | .strerror => Bytes

abbrev UpdaterEval (α : Type) := Eval UpdaterOp UpdaterOp.Reply α

/-- What a function does once its arguments have been read. -/
abbrev Update (α : Type) := EvalT Stuck UpdaterOp UpdaterOp.Reply α

abbrev UpdaterArg := Arg UpdaterOp UpdaterOp.Reply

abbrev UpdaterFunction := Function UpdaterOp UpdaterOp.Reply

/-- What the functions find around them: the libraries, the hash, the text that
`%f` gives for a string read by `strtod`, what an uninitialised `FileContents`
holds, what `printf` takes for a missing argument, and a number of rounds after
which a loop over a file counts as endless. -/
structure Platform where
  lib : Library
  sha : Bytes → Digest
  printDouble : Bytes → Bytes
  garbage : FileContents
  missingArgument : Int
  rounds : Nat

/-- Run the part of a function that reads no arguments. -/
def act {α : Type} (program : Update α) : UpdaterEval α := fun state =>
  ExceptT.mk ((program.run state).run >>= fun result => .pure (result.mapError Fault.stuck))

def other (op : UpdaterOp) : Update op.Reply :=
  request (EdifyOp.other op)

def sys (op : SysOp) : Update op.Reply :=
  request (EdifyOp.other (UpdaterOp.sys op))

/-- A part of the recovery that can get stuck, run by the updater. -/
def liftChecked {α : Type} (program : Checked α) : Update α := fun state =>
  ExceptT.mk <| (Prog.translate (fun op => Prog.ask (EdifyOp.other (UpdaterOp.sys op)))
    program.run) >>= fun result => .pure (result.map fun value => (value, state))

def liftSys {α : Type} (program : SysProg α) : Update α :=
  liftChecked (ExceptT.lift program)

/-- A string as the name of a file. -/
def pathOf (text : Bytes) : CString :=
  text.map fun byte => Char.ofNat byte.toNat

def number (value : Int) : Bytes :=
  ascii (toString value)

/-- `ErrorAbort` for a wrong number of arguments. -/
def expects (name : Bytes) (wanted : String) (argc : Nat) : UpdaterEval (Option Value) :=
  errorAbort (name ++ ascii "() expects " ++ ascii wanted ++ ascii ", got " ++ number argc)

def cantBeEmpty (argument : String) (name : Bytes) : Update (Option Value) :=
  errorAbort (ascii argument ++ ascii " argument to " ++ name ++ ascii " can't be empty")

/-! ## Reading a fixed number of arguments -/

section Reading

variable {α : Type}

def readOne (argv : List UpdaterArg) (rest : Bytes → UpdaterEval (Option α)) :
    UpdaterEval (Option α) :=
  unlessNull (readArgs argv 1) fun
    | [first] => rest first
    | _ => stuck (.stuck .outOfBounds)

def readTwo (argv : List UpdaterArg)
    (rest : Bytes → Bytes → UpdaterEval (Option α)) : UpdaterEval (Option α) :=
  unlessNull (readArgs argv 2) fun
    | [first, second] => rest first second
    | _ => stuck (.stuck .outOfBounds)

def readThree (argv : List UpdaterArg)
    (rest : Bytes → Bytes → Bytes → UpdaterEval (Option α)) : UpdaterEval (Option α) :=
  unlessNull (readArgs argv 3) fun
    | [first, second, third] => rest first second third
    | _ => stuck (.stuck .outOfBounds)

def readFour (argv : List UpdaterArg)
    (rest : Bytes → Bytes → Bytes → Bytes → UpdaterEval (Option α)) : UpdaterEval (Option α) :=
  unlessNull (readArgs argv 4) fun
    | [first, second, third, fourth] => rest first second third fourth
    | _ => stuck (.stuck .outOfBounds)

end Reading

/-! ## Mounting and formatting -/

def mountFlags : CString := "rw,nodev,noatime,nodiratime".toList

/-- The part of `MountFn` after its checks; the result says whether it worked. -/
def mountAt (type location mountPoint : Bytes) : Update Bool := do
  other (.mkdir mountPoint 0o755)
  if type = ascii "MTD" then
    let _ ← sys .scanPartitions
    match ← sys (.findPartition (pathOf location)) with
    | none => pure false
    | some _ =>
        let mounted ← liftChecked
          (mtdMountPartition (pathOf location) (pathOf mountPoint) "yaffs2".toList)
        pure (mounted = 0)
  else
    sys (.mount ⟨pathOf location, pathOf mountPoint, pathOf type, mountFlags⟩)

def mountFn : UpdaterFunction := fun name argv =>
  if argv.length ≠ 3 then expects name "3 args" argv.length
  else
    readThree argv fun type location mountPoint => act <|
      if type = [] then cantBeEmpty "type" (name ++ ascii "()")
      else if location = [] then cantBeEmpty "location" (name ++ ascii "()")
      else if mountPoint = [] then cantBeEmpty "mount_point" (name ++ ascii "()")
      else do
        if ← mountAt type location mountPoint then stringValue mountPoint else stringValue []

/-- The volume that is mounted at a place. -/
def findVolume (mountPoint : Bytes) : Update (Option Mount) := do
  let volumes ← liftChecked scanMountedVolumes
  pure (findMountedVolumeByMountPoint (volumes.getD []) (pathOf mountPoint))

def isMountedFn : UpdaterFunction := fun name argv =>
  if argv.length ≠ 1 then expects name "1 arg" argv.length
  else
    readOne argv fun mountPoint => act <|
      if mountPoint = [] then cantBeEmpty "mount_point" (ascii "unmount()")
      else do
        match ← findVolume mountPoint with
        | none => stringValue []
        | some _ => stringValue mountPoint

def unmountFn : UpdaterFunction := fun name argv =>
  if argv.length ≠ 1 then expects name "1 arg" argv.length
  else
    readOne argv fun mountPoint => act <|
      if mountPoint = [] then cantBeEmpty "mount_point" (ascii "unmount()")
      else do
        match ← findVolume mountPoint with
        | none => stringValue []
        | some volume =>
            let _ ← liftChecked (unmountMountedVolume volume)
            stringValue mountPoint

/-- Erase an open partition; the result says whether it worked. -/
def eraseWhole (partition : MtdPartition) : MtdProg Bool := do
  let (erased, ctx) ← mtdEraseBlocks partition mtdWritePartition (-1)
  if erased = -1 then do
    let _ ← mtdWriteClose partition ctx
    pure false
  else
    pure ((← mtdWriteClose partition ctx) = 0)

/-- `FormatFn`.  A type that is not supported gives a null pointer without a
message. -/
def formatFn : UpdaterFunction := fun name argv =>
  if argv.length ≠ 2 then expects name "2 args" argv.length
  else
    readTwo argv fun type location => act <|
      if type = [] then cantBeEmpty "type" (name ++ ascii "()")
      else if location = [] then cantBeEmpty "location" (name ++ ascii "()")
      else if type = ascii "MTD" then do
        match ← liftSys (openMtd (pathOf location)) with
        | none => stringValue []
        | some partition =>
            if ← liftSys (onPartition (pathOf location) (eraseWhole partition)) then
              stringValue location
            else stringValue []
      else pure none

/-! ## Files -/

/-- Delete one entry. -/
def deletePath (recursive : Bool) (path : Bytes) : Update Bool :=
  if recursive then other (.dirUnlinkHierarchy path) else sys (.unlink (pathOf path))

def deleteLoop (recursive : Bool) : List Bytes → (success : Nat) → Update Nat
  | [], success => pure success
  | path :: paths, success => do
      if ← deletePath recursive path then deleteLoop recursive paths (success + 1)
      else deleteLoop recursive paths success

/-- The first loop of `DeleteFn`, where `i` arguments have been read.  The
clean-up after a failed argument counts `i` up and leaves `j` at zero: it frees
`paths[0]` again and again, unless there is none. -/
def deletePaths : (i : Nat) → List UpdaterArg → UpdaterEval (Option (List Bytes))
  | _, [] => pure (some [])
  | i, arg :: argv => do
      match ← evaluate arg with
      | none => if 0 < i then stuck (.stuck .freedMemory) else pure none
      | some path =>
          unlessNull (deletePaths (i + 1) argv) fun paths => pure (some (path :: paths))

def deleteFn : UpdaterFunction := fun name argv =>
  unlessNull (deletePaths 0 argv) fun paths => act do
    let success ← deleteLoop (name = ascii "delete_recursive") paths 0
    stringValue (number success)

def symlinkLoop (target : Bytes) : List Bytes → Update Unit
  | [] => pure ()
  | src :: srcs => do
      let _ ← sys (.unlink (pathOf src))
      let _ ← other (.symlink target src)
      symlinkLoop target srcs

def symlinkFn : UpdaterFunction := fun name argv =>
  match argv with
  | [] => expects name "1+ args" 0
  | first :: rest =>
      unlessNull (evaluate first) fun target =>
        unlessNull (readVarArgs rest) fun srcs => act do
          symlinkLoop target srcs
          stringValue []

/-- Whether a byte is a digit in the base, and its value. -/
def digitIn (base : Nat) (byte : UInt8) : Option Nat :=
  match hexDigit (Char.ofNat byte.toNat) with
  | some digit => if digit < base then some digit else none
  | none => none

/-- The base that `strtoul` finds out by itself, and the digits. -/
def splitBase : Bytes → Nat × Bytes
  | 48 :: mark :: digit :: rest =>
      if (mark = 120 || mark = 88) && (digitIn 16 digit).isSome then (16, digit :: rest)
      else (8, 48 :: mark :: digit :: rest)
  | 48 :: rest => (8, 48 :: rest)
  | rest => (10, rest)

/-- `strtoul` with base zero: the number, and the text from where the scan ended. -/
def strtoul (text : Bytes) : Nat × Bytes :=
  let (negative, rest) := splitSign (text.dropWhile isSpace)
  let (base, digits) := splitBase rest
  let found := digits.takeWhile fun byte => (digitIn base byte).isSome
  let value := found.foldl (fun value byte => base * value + (digitIn base byte).getD 0) 0
  if found = [] then (0, text)
  else if 2 ^ 32 ≤ value then (2 ^ 32 - 1, digits.drop found.length)
  else (if negative then (2 ^ 32 - value) % 2 ^ 32 else value, digits.drop found.length)

/-- A whole string as a number of `SetPermFn`. -/
def permNumber (name text : Bytes) (what : String) (rest : Nat → Update (Option Value)) :
    Update (Option Value) :=
  if (strtoul text).2 ≠ [] ∨ text = [] then
    errorAbort (name ++ ascii ": \"" ++ text ++ ascii "\" not a valid " ++ ascii what)
  else rest (strtoul text).1

def setPermLoop (uid gid mode : Nat) : List Bytes → Update Unit
  | [] => pure ()
  | path :: paths => do
      let _ ← sys (.chown (pathOf path) uid gid)
      let _ ← sys (.chmod (pathOf path) mode)
      setPermLoop uid gid mode paths

def setPermRecursiveLoop (uid gid dirMode fileMode : Nat) : List Bytes → Update Unit
  | [] => pure ()
  | path :: paths => do
      other (.dirSetHierarchyPermissions path uid gid dirMode fileMode)
      setPermRecursiveLoop uid gid dirMode fileMode paths

/-- The part of `SetPermFn` after its arguments have been read. -/
def setPerm (name : Bytes) (recursive : Bool) : List Bytes → Update (Option Value)
  | uidStr :: gidStr :: modeStr :: rest =>
      permNumber name uidStr "uid" fun uid =>
        permNumber name gidStr "gid" fun gid =>
          if recursive then
            match rest with
            | fileModeStr :: paths =>
                permNumber name modeStr "dirmode" fun dirMode =>
                  permNumber name fileModeStr "filemode" fun fileMode => do
                    setPermRecursiveLoop uid gid dirMode fileMode paths
                    stringValue []
            | [] => stuck .outOfBounds
          else
            permNumber name modeStr "mode" fun mode => do
              setPermLoop uid gid mode rest
              stringValue []
  | _ => stuck .outOfBounds

variable (platform : Platform)

/-- `SetPermFn`.  The message for too few arguments is formatted without the
number that was wanted, so that `argc` stands in its place. -/
def setPermFn : UpdaterFunction := fun name argv =>
  let recursive := name = ascii "set_perm_recursive"
  if argv.length < 4 + (if recursive then 1 else 0) then
    errorAbort (name ++ ascii "() expects " ++ number argv.length ++ ascii "+ args, got " ++
      number platform.missingArgument)
  else
    unlessNull (readVarArgs argv) fun args => act (setPerm name recursive args)

/-! ## Progress and the package -/

def showProgressFn : UpdaterFunction := fun name argv =>
  if argv.length ≠ 2 then expects name "2 args" argv.length
  else
    readTwo argv fun fracStr secStr => act do
      other (.cmdPipe (ascii "progress " ++ platform.printDouble fracStr ++ ascii " " ++
        number (strtol secStr).1 ++ ascii "\n"))
      stringValue fracStr

def setProgressFn : UpdaterFunction := fun name argv =>
  if argv.length ≠ 1 then expects name "1 arg" argv.length
  else
    readOne argv fun fracStr => act do
      other (.cmdPipe (ascii "set_progress " ++ platform.printDouble fracStr ++ ascii "\n"))
      stringValue fracStr

def packageExtractDirFn : UpdaterFunction := fun name argv =>
  if argv.length ≠ 2 then expects name "2 args" argv.length
  else
    readTwo argv fun zipPath destPath => act do
      let success ← other (.mzExtractRecursive zipPath destPath 1217592000)
      stringValue (boolean success)

/-- Extract one entry of the package to a file. -/
def extractToFile (zipPath destPath : Bytes) : Update Bool := do
  match ← other (.mzFindZipEntry zipPath) with
  | none => pure false
  | some _ =>
      if ← sys (.create (pathOf destPath)) then
        let success ← other (.mzExtractZipEntryToFile zipPath destPath)
        let _ ← sys (.close (.file (pathOf destPath)))
        pure success
      else pure false

/-- Extract one entry of the package to memory. -/
def extractToBuffer (zipPath : Bytes) : Update (Option Bytes) := do
  match ← other (.mzFindZipEntry zipPath) with
  | none => pure none
  | some size =>
      if platform.lib.malloc size then other (.mzExtractZipEntryToBuffer zipPath) else pure none

def packageExtractFileFn : UpdaterFunction := fun name argv =>
  if argv.length ≠ 1 ∧ argv.length ≠ 2 then expects name "1 or 2 args" argv.length
  else if argv.length = 2 then
    readTwo argv fun zipPath destPath => act do
      let success ← extractToFile zipPath destPath
      stringValue (boolean success)
  else
    readOne argv fun zipPath => act do
      let data ← extractToBuffer platform zipPath
      pure (some (.blob data))

/-! ## Properties -/

def getPropFn : UpdaterFunction := fun name argv =>
  if argv.length ≠ 1 then expects name "1 arg" argv.length
  else do
    let arg ← argAt argv 0
    unlessNull (evaluate arg) fun key => act do
      let value ← other (.propertyGet key)
      stringValue value

/-- The loop of `FileGetPropFn` over the lines: a line that is malformed, or the
value of the key, if there is one. -/
def findProperty (key : Bytes) : List Bytes → Except Bytes (Option Bytes)
  | [] => .ok none
  | line :: lines =>
      let line := line.dropWhile isSpace
      if line = [] ∨ line.head? = some 35 then findProperty key lines
      else if 61 ∈ line then
        if (line.takeWhile (· ≠ 61)).rdropWhile isSpace = key then
          .ok (some ((((line.dropWhile (· ≠ 61)).drop 1).dropWhile isSpace).rdropWhile isSpace))
        else findProperty key lines
      else .error line

/-- The lines that `strtok` finds. -/
def linesOf (buffer : Bytes) : List Bytes :=
  ((cString buffer).splitOn newline).filter (· ≠ [])

/-- The part of `FileGetPropFn` after the file has been read.  Without a line it
follows a null pointer. -/
def searchProperty (name filename key buffer : Bytes) : Update (Option Value) :=
  match linesOf buffer with
  | [] => stuck .outOfBounds
  | lines =>
      match findProperty key lines with
      | .error line =>
          errorAbort (name ++ ascii ": malformed line \"" ++ line ++ ascii "\": " ++ filename ++
            ascii " not a prop file?")
      | .ok value => stringValue (value.getD [])

/-- Read the whole property file. -/
def readPropertyFile (name filename : Bytes) (size : Nat) : Update (Option Bytes) := do
  if platform.lib.malloc (size + 1) then
    if ← sys (.openRead (pathOf filename)) then
      match ← sys (.read (pathOf filename) 0 size) with
      | none =>
          errorAbort (name ++ ascii ": failed to read " ++ number (size + 1) ++
            ascii " bytes from " ++ filename)
      | some data =>
          if data.length = size then pure (some data)
          else
            errorAbort (name ++ ascii ": failed to read " ++ number (size + 1) ++
              ascii " bytes from " ++ filename)
    else
      let error ← other .strerror
      errorAbort (name ++ ascii ": failed to open " ++ filename ++ ascii ": " ++ error)
  else
    errorAbort (name ++ ascii ": failed to alloc " ++ number (size + 1) ++ ascii " bytes")

def fileGetPropFn : UpdaterFunction := fun name argv =>
  readTwo argv fun filename key => act do
    match ← sys (.stat (pathOf filename)) with
    | none =>
        let error ← other .strerror
        errorAbort (name ++ ascii ": failed to stat \"" ++ filename ++ ascii "\": " ++ error)
    | some st =>
        if 65536 < st.size then
          errorAbort (filename ++ ascii " too large for " ++ name ++ ascii " (max 65536)")
        else
          unlessNull (readPropertyFile platform name filename st.size) fun buffer =>
            searchProperty name filename key buffer

/-! ## Images -/

def bufsiz : Nat := 1024

/-- The copy loop of `WriteRawImageFn`: whether every block could be written. -/
def copyImage (location image : CString) (partition : MtdPartition) :
    (rounds offset : Nat) → MtdWriteContext → Update (Bool × MtdWriteContext)
  | 0, _, _ => stuck .hang
  | rounds + 1, offset, ctx => do
      match ← sys (.read image offset bufsiz) with
      | none => pure (true, ctx)
      | some [] => pure (true, ctx)
      | some block =>
          let (wrote, ctx) ← liftSys (onPartition location (mtdWriteData partition ctx block))
          if wrote = block.length then
            copyImage location image partition rounds (offset + block.length) ctx
          else pure (false, ctx)

/-- Write a file to an open partition. -/
def writeRaw (location image : CString) (partition : MtdPartition) : Update Bool := do
  if ← sys (.openRead image) then
    let (success, ctx) ← copyImage location image partition platform.rounds 0 mtdWritePartition
    let (_, ctx) ← liftSys (onPartition location (mtdEraseBlocks partition ctx (-1)))
    let _ ← liftSys (onPartition location (mtdWriteClose partition ctx))
    pure success
  else pure false

def writeRawImageFn : UpdaterFunction := fun name argv =>
  readTwo argv fun filename location => act <|
    if location = [] then cantBeEmpty "partition" name
    else if filename = [] then cantBeEmpty "file" name
    else do
      match ← liftSys (openMtd (pathOf location)) with
      | none => stringValue []
      | some partition =>
          if ← writeRaw platform (pathOf location) (pathOf filename) partition then
            stringValue location
          else stringValue []

/-! ## Patches -/

/-- A number of bytes as a `size_t`, unless nothing could be parsed. -/
def byteCount (text : Bytes) : Option Nat :=
  let (bytes, stop) := strtol text
  if bytes = 0 ∧ stop = text then none else some (bytes % 2 ^ 32).toNat

def applyPatchSpaceFn : UpdaterFunction := fun name argv =>
  readOne argv fun bytesStr => act <|
    match byteCount bytesStr with
    | none =>
        errorAbort (name ++ ascii "(): can't parse \"" ++ bytesStr ++ ascii "\" as byte count\n\n")
    | some bytes => do
        let code ← liftSys (makeFreeSpaceOnCache bytes)
        stringValue (boolean (0 ≤ code))

/-- The pairs of a hash and a patch, or a message about the first bad one. -/
def patchPairs (name : Bytes) : (i : Nat) → List Value → Except Bytes (List Patch)
  | i, .string sha1 :: .blob data :: rest => do
      let patches ← patchPairs name (i + 1) rest
      pure (⟨pathOf sha1, ⟨true, data.getD []⟩⟩ :: patches)
  | i, .string _ :: .string _ :: _ =>
      .error (name ++ ascii "(): patch #" ++ number i ++ ascii " is not blob")
  | i, .blob _ :: _ :: _ =>
      .error (name ++ ascii "(): sha-1 #" ++ number i ++ ascii " is not string")
  | _, _ => .ok []

/-- The call of `applypatch` with the patches that were read, which may be a null
pointer. -/
def applyPatches (name source target targetSha1 : Bytes) (targetSize : Nat) :
    Option (List Value) → Update (Option Value)
  | none => stuck .outOfBounds
  | some values =>
      match patchPairs name 0 values with
      | .error message => errorAbort message
      | .ok patches => do
          let result ← liftChecked (applypatch platform.lib platform.sha
            ⟨pathOf source, pathOf target, pathOf targetSha1, targetSize, patches⟩
            platform.garbage platform.garbage)
          stringValue (boolean (result = 0))

/-- `ApplyPatchFn`, which does not ask whether the patches could be read. -/
def applyPatchFn : UpdaterFunction := fun name argv =>
  if argv.length < 6 ∨ argv.length % 2 = 1 then
    errorAbort (name ++ ascii "(): expected at least 6 args and an even number, got " ++
      number argv.length)
  else
    readFour argv fun source target targetSha1 sizeStr =>
      match byteCount sizeStr with
      | none =>
          errorAbort (name ++ ascii "(): can't parse \"" ++ sizeStr ++ ascii "\" as byte count")
      | some targetSize => do
          let patches ← readValueVarArgs (argv.drop 4)
          act (applyPatches platform name source target targetSha1 targetSize patches)

/-- `applypatch_check` with the hashes that were read.  With a null pointer in
their place the first use of a hash, or at last the clean-up, follows it. -/
def checkHashes (filename : CString) : Option (List Bytes) → Checked Int
  | some sha1s =>
      applypatchCheck platform.lib platform.sha filename (sha1s.map pathOf) platform.garbage
  | none => do
      let (code, file) ← loadFileContents platform.lib platform.sha filename platform.garbage
      if code ≠ 0 then
        let _ ← loadFileContents platform.lib platform.sha cacheTempSource file
        throw .outOfBounds
      else throw .outOfBounds

/-- `ApplyPatchCheckFn`, which does not ask whether the hashes could be read. -/
def applyPatchCheckFn : UpdaterFunction := fun name argv =>
  if argv.length < 1 then
    errorAbort (name ++ ascii "(): expected at least 1 arg, got " ++ number argv.length)
  else
    readOne argv fun filename => do
      let sha1s ← readVarArgs (argv.drop 1)
      act do
        let result ← liftChecked (checkHashes platform (pathOf filename) sha1s)
        stringValue (boolean (result = 0))

/-! ## Output, programs and contents -/

def printLines : List Bytes → Update Unit
  | [] => other (.cmdPipe (ascii "ui_print\n"))
  | line :: lines => do
      other (.cmdPipe (ascii "ui_print " ++ line ++ ascii "\n"))
      printLines lines

/-- `UIPrintFn`.  The string it returns ends where `strtok` has cut the first
line. -/
def uiPrintFn : UpdaterFunction := fun _ argv =>
  unlessNull (readVarArgs argv) fun args => act do
    let (lines, buffer) := strtokLoop isNewline args.flatten.length [] args.flatten
    printLines lines
    stringValue (cString buffer)

def runProgramFn : UpdaterFunction := fun name argv =>
  if argv.length < 1 then errorAbort (name ++ ascii "() expects at least 1 arg")
  else
    unlessNull (readVarArgs argv) fun args => act do
      let status ← other (.runProgram args)
      stringValue (number status)

/-- `PrintSha1`. -/
def printSha1 (digest : Digest) : Bytes :=
  digest.toList.flatMap fun byte =>
    [byte / 16, byte % 16].map fun digit => if digit < 10 then 48 + digit else 87 + digit

/-- The first of the strings that is the given hash. -/
def matchingSha1 (digest : Digest) : List Value → Option Value
  | [] => none
  | .string text :: rest =>
      if parseSha1 (pathOf text) = some digest then some (.string text)
      else matchingSha1 digest rest
  | .blob _ :: rest => matchingSha1 digest rest

/-- `Sha1CheckFn` after its arguments have been read. -/
def sha1Check : List Value → Update (Option Value)
  | [] => stuck .outOfBounds
  | .blob none :: _ => stringValue []
  | first :: rest => do
      let data := match first with
        | .string data => data
        | .blob data => data.getD []
      let digest := platform.sha data
      if rest = [] then stringValue (printSha1 digest)
      else
        match matchingSha1 digest rest with
        | none => stringValue []
        | some value => pure (some value)

def sha1CheckFn : UpdaterFunction := fun name argv =>
  if argv.length < 1 then errorAbort (name ++ ascii "() expects at least 1 arg")
  else unlessNull (readValueVarArgs argv) fun args => act (sha1Check platform args)

def readFileFn : UpdaterFunction := fun name argv =>
  if argv.length ≠ 1 then expects name "1 arg" argv.length
  else
    readOne argv fun filename => act do
      let (code, file) ← liftChecked
        (loadFileContents platform.lib platform.sha (pathOf filename) platform.garbage)
      if code ≠ 0 then
        let error ← other .strerror
        errorAbort (name ++ ascii "() loading \"" ++ filename ++ ascii "\" failed: " ++ error)
      else
        match file.data with
        | .live bytes => pure (some (.blob (some bytes)))
        | .null => pure (some (.blob none))
        | .freed => stuck .freedMemory

/-! ## The table -/

/-- The functions that `RegisterInstallFunctions` registers. -/
inductive InstallFunction where
  | mount
  | isMounted
  | unmount
  | format
  | showProgress
  | setProgress
  | delete
  | deleteRecursive
  | packageExtractDir
  | packageExtractFile
  | symlink
  | setPerm
  | setPermRecursive
  | getprop
  | fileGetprop
  | writeRawImage
  | applyPatch
  | applyPatchCheck
  | applyPatchSpace
  | readFile
  | sha1Check
  | uiPrint
  | runProgram
  deriving DecidableEq

/-- The name under which a function is registered. -/
def InstallFunction.name : InstallFunction → Bytes
  | .mount => ascii "mount"
  | .isMounted => ascii "is_mounted"
  | .unmount => ascii "unmount"
  | .format => ascii "format"
  | .showProgress => ascii "show_progress"
  | .setProgress => ascii "set_progress"
  | .delete => ascii "delete"
  | .deleteRecursive => ascii "delete_recursive"
  | .packageExtractDir => ascii "package_extract_dir"
  | .packageExtractFile => ascii "package_extract_file"
  | .symlink => ascii "symlink"
  | .setPerm => ascii "set_perm"
  | .setPermRecursive => ascii "set_perm_recursive"
  | .getprop => ascii "getprop"
  | .fileGetprop => ascii "file_getprop"
  | .writeRawImage => ascii "write_raw_image"
  | .applyPatch => ascii "apply_patch"
  | .applyPatchCheck => ascii "apply_patch_check"
  | .applyPatchSpace => ascii "apply_patch_space"
  | .readFile => ascii "read_file"
  | .sha1Check => ascii "sha1_check"
  | .uiPrint => ascii "ui_print"
  | .runProgram => ascii "run_program"

def InstallFunction.fn : InstallFunction → UpdaterFunction
  | .mount => mountFn
  | .isMounted => isMountedFn
  | .unmount => unmountFn
  | .format => formatFn
  | .showProgress => showProgressFn platform
  | .setProgress => setProgressFn platform
  | .delete => deleteFn
  | .deleteRecursive => deleteFn
  | .packageExtractDir => packageExtractDirFn
  | .packageExtractFile => packageExtractFileFn platform
  | .symlink => symlinkFn
  | .setPerm => setPermFn platform
  | .setPermRecursive => setPermFn platform
  | .getprop => getPropFn
  | .fileGetprop => fileGetPropFn platform
  | .writeRawImage => writeRawImageFn platform
  | .applyPatch => applyPatchFn platform
  | .applyPatchCheck => applyPatchCheckFn platform
  | .applyPatchSpace => applyPatchSpaceFn
  | .readFile => readFileFn platform
  | .sha1Check => sha1CheckFn platform
  | .uiPrint => uiPrintFn
  | .runProgram => runProgramFn

end OpenRecovery.Edify
