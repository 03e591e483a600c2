import OpenRecovery.FileContents
import Mathlib

/-!
# `applypatch` and `applypatch_check`

The target is produced from a source that has one of the given hashes: from the
file itself, or from the copy that an earlier run left in the cache.  The loop
of `applypatch` never comes to a second round: its flag `enough_space` is
declared again in an inner block, so that the outer one stays zero and `retry`
is cleared in the first round.
-/

namespace OpenRecovery

open Effects Mtd Words

structure Value where
  isBlob : Bool
  data : Bytes
  deriving DecidableEq

/-- An entry of `patch_sha1_str` with that of `patch_data`. -/
structure Patch where
  sha1Str : CString
  value : Value
  deriving DecidableEq

/-- The arguments of `applypatch`. -/
structure PatchArgs where
  sourceFilename : CString
  targetFilename : CString
  targetSha1Str : CString
  targetSize : Nat
  patches : List Patch

def PatchArgs.patchSha1Str (args : PatchArgs) : List CString :=
  args.patches.map Patch.sha1Str

/-- The target, where a single dash stands for the source. -/
def PatchArgs.target (args : PatchArgs) : CString :=
  if args.targetFilename = ['-'] then args.sourceFilename else args.targetFilename

/-- `free` on the data. -/
def FileContents.free (file : FileContents) : FileContents :=
  { file with data := if file.data = .null then .null else .freed }

/-- How the search for a source ends: the call returns, or the source or the copy
has the hash at index `toUse`. -/
inductive Selection where
  | returned (code : Int)
  | source (sourceFile : FileContents) (toUse : Int)
  | copy (sourceFile copyFile : FileContents) (toUse : Int)
  deriving DecidableEq

/-- Where the patched data is: in memory, or in a file of the given name. -/
inductive Output where
  | memory (bytes : Bytes)
  | file (outname : CString)
  deriving DecidableEq

/-- What is known when the patched data is complete. -/
inductive Produced where
  | returned (code : Int)
  | output (output : Output) (sourceToUse : FileContents) (madeCopy : Bool)
  deriving DecidableEq

section ApplyPatch

variable (lib : Library) (sha : Bytes → Digest)

/-- The part of `applypatch_check` that looks at the copy in the cache. -/
def checkCopy (patchSha1Str : List CString) (file : FileContents) : Checked Int := do
  let (code, file) ← loadFileContents lib sha cacheTempSource file
  if code ≠ 0 then pure 1
  else if findMatchingPatch file.sha1 patchSha1Str < 0 then pure 1
  else pure 0

/-- `applypatch_check`; `file` is what its local variable holds at first. -/
def applypatchCheck (filename : CString) (patchSha1Str : List CString) (file : FileContents) :
    Checked Int := do
  let (code, file) ← loadFileContents lib sha filename file
  if code ≠ 0 ∨ (patchSha1Str ≠ [] ∧ findMatchingPatch file.sha1 patchSha1Str < 0) then
    checkCopy lib sha patchSha1Str file
  else pure 0

variable (args : PatchArgs)

/-- Load the source, unless `sourceFile` holds it already. -/
def reloadSource (sourceFile : FileContents) : Checked FileContents :=
  if sourceFile.data = .null ∨ args.target ≠ args.sourceFilename then do
    let (_, sourceFile) ← loadFileContents lib sha args.sourceFilename sourceFile
    pure sourceFile
  else pure sourceFile

/-- The index of the patch for a loaded source. -/
def sourcePatch (sourceFile : FileContents) : Int :=
  if sourceFile.data = .null then -1
  else findMatchingPatch sourceFile.sha1 args.patchSha1Str

/-- Try the copy in the cache.  Its hash is not accepted at index zero. -/
def selectCopy (sourceFile copyFile : FileContents) : Checked Selection := do
  let (code, copyFile) ← loadFileContents lib sha cacheTempSource copyFile
  if code < 0 then pure (.returned 1)
  else
    let toUse := findMatchingPatch copyFile.sha1 args.patchSha1Str
    if 0 < toUse then pure (.copy sourceFile.free copyFile toUse)
    else pure (.returned 1)

/-- The part of `applypatch` that finds the source; the two structures are what
its local variables hold at first. -/
def selectSource (targetSha1 : Digest) (sourceFile copyFile : FileContents) :
    Checked Selection := do
  let (code, sourceFile) ← loadFileContents lib sha args.target sourceFile
  if code = 0 ∧ sourceFile.sha1 = targetSha1 then
    pure (.returned 0)
  else
    let sourceFile ← reloadSource lib sha args sourceFile
    if 0 ≤ sourcePatch args sourceFile then
      pure (.source sourceFile (sourcePatch args sourceFile))
    else selectCopy lib sha args sourceFile copyFile

/-- The top-level directory of the target. -/
def targetFs : CString → Except Stuck CString
  | [] => .error .outOfBounds
  | c :: rest => .ok (c :: rest.takeWhile (· ≠ '/'))

/-- Copy the source to the cache; `false` if that fails. -/
def backUpSource (sourceFile : FileContents) : Checked Bool := do
  let free ← ExceptT.lift (makeFreeSpaceOnCache (sourceFile.size % 2 ^ 32).toNat)
  if free < 0 then pure false
  else
    let saved ← saveFileContents cacheTempSource sourceFile
    pure (0 ≤ saved)

/-- Make room for the target.  The result is the flag `made_copy`, or nothing if
the call returns. -/
def makeRoom (sourceFile : FileContents) (useSource : Bool) : Checked (Option Bool) := do
  let fs ← targetFs args.target
  if isMtd args.target then
    if ← backUpSource sourceFile then pure (some true) else pure none
  else
    let _ ← ExceptT.lift (freeSpaceForFile fs)
    if useSource then
      if isMtd args.sourceFilename then pure none
      else if ← backUpSource sourceFile then
        let _ ← call (.unlink args.sourceFilename)
        let _ ← ExceptT.lift (freeSpaceForFile fs)
        pure (some true)
      else pure none
    else pure (some false)

/-- Apply a patch of either format.  Nothing is returned for other data. -/
def applyEither (sink : Sink) (patch source : Bytes) : Checked (Option (Int × OutState)) :=
  if patch.take 8 = bsdiffMagic then
    some <$> ExceptT.mk
      (applyBSDiffPatch lib sink patch (OldData.ofBytes source) 0 ⟨[], []⟩)
  else if patch.take 8 = imgdiffMagic then
    some <$> ExceptT.mk (applyImagePatch lib sink patch source ⟨[], []⟩)
  else pure none

def outname : CString := args.target ++ ".patch".toList

/-- Decode into `sink`; what it took counts only if it has the right hash. -/
def decode (targetSha1 : Digest) (sink : Sink) (patch source : Bytes) (close : Checked Unit) :
    Checked (Option OutState) := do
  match ← applyEither lib sink patch source with
  | none => pure none
  | some (result, out) =>
      close
      if result ≠ 0 then pure none
      else if sha out.hashed ≠ targetSha1 then pure none
      else pure (some out)

/-- Produce the target from a source. -/
def produce (targetSha1 : Digest) (sourceToUse : FileContents) (patch : Value) :
    Checked (Option Output) :=
  match patch.isBlob, sourceToUse.data with
  | false, _ => pure none
  | true, .null => throw .outOfBounds
  | true, .freed => throw .freedMemory
  | true, .live source =>
      if isMtd args.target then
        if lib.malloc args.targetSize then do
          let out ← decode lib sha targetSha1 (memorySink (wrap32 args.targetSize)) patch.data
            source (pure ())
          pure (out.map fun out => .memory out.memory)
        else pure none
      else do
        if ← call (.create (outname args)) then
          let out ← decode lib sha targetSha1 (fileSink (outname args)) patch.data source
            (do let _ ← call (.close (.file (outname args))))
          pure (out.map fun _ => .file (outname args))
        else pure none

/-- Make room and produce the target, from the source or from the copy. -/
def produceFrom (targetSha1 : Digest) (sourceFile : FileContents) (useSource : Bool)
    (sourceToUse : FileContents) (toUse : Int) : Checked Produced := do
  match ← makeRoom args sourceFile useSource with
  | none => pure (.returned 1)
  | some madeCopy =>
      match args.patches[toUse.toNat]? with
      | none => throw .outOfBounds
      | some patch =>
          match ← produce lib sha args targetSha1 sourceToUse patch.value with
          | none => pure (.returned 1)
          | some output => pure (.output output sourceToUse madeCopy)

/-- Everything up to the complete patched data. -/
def produceTarget (targetSha1 : Digest) (sourceFile copyFile : FileContents) :
    Checked Produced := do
  match ← selectSource lib sha args targetSha1 sourceFile copyFile with
  | .returned code => pure (.returned code)
  | .source sourceFile toUse =>
      produceFrom lib sha args targetSha1 sourceFile true sourceFile toUse
  | .copy sourceFile copyFile toUse =>
      produceFrom lib sha args targetSha1 sourceFile false copyFile toUse

/-- Put the patched data in the place of the target. -/
def installOutput (output : Output) (sourceToUse : FileContents) : Checked Bool :=
  match output with
  | .memory bytes => do
      let failed ← ExceptT.lift (writeToMTDPartition bytes args.target)
      pure (failed = 0)
  | .file outname => do
      if ← call (.chmod outname sourceToUse.mode) then
        if ← call (.chown outname sourceToUse.uid sourceToUse.gid) then
          call (.rename outname args.target)
        else pure false
      else pure false

/-- Install the target and delete the copy that this call made. -/
def deliver : Produced → Checked Int
  | .returned code => pure code
  | .output output sourceToUse madeCopy => do
      if ← installOutput args output sourceToUse then
        if madeCopy then
          let _ ← call (.unlink cacheTempSource)
          pure 0
        else pure 0
      else pure 1

/-- `applypatch`. -/
def applypatch (sourceFile copyFile : FileContents) : Checked Int :=
  match parseSha1 args.targetSha1Str with
  | none => pure 1
  | some targetSha1 => do
      let produced ← produceTarget lib sha args targetSha1 sourceFile copyFile
      deliver args produced

end ApplyPatch

end OpenRecovery
