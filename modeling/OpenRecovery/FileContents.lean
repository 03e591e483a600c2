import OpenRecovery.ImgPatch
import Mathlib

/-!
# Loading and saving in `applypatch.c`, and `freecache.c`

A source or a target is a file, or an MTD partition whose name lists the sizes
and hashes that its contents may have.  SHA-1 is a parameter.
-/

namespace OpenRecovery

open Effects Mtd

/-- A program that can get stuck. -/
abbrev Checked (α : Type) := ExceptT Stuck (Prog SysOp SysOp.Reply) α

/-- A system call that cannot get stuck. -/
def call (op : SysOp) : Checked op.Reply :=
  ExceptT.lift (Prog.ask op)

abbrev Digest := List.Vector UInt8 20

def cacheTempSource : CString := "/cache/saved.file".toList

/-! ## Hashes -/

def hexDigit (c : Char) : Option Nat :=
  if '0' ≤ c ∧ c ≤ '9' then some (c.toNat - '0'.toNat)
  else if 'a' ≤ c ∧ c ≤ 'f' then some (c.toNat - 'a'.toNat + 10)
  else if 'A' ≤ c ∧ c ≤ 'F' then some (c.toNat - 'A'.toNat + 10)
  else none

/-- Read `count` pairs of hexadecimal digits. -/
def parsePairs : (count : Nat) → CString → Option (List.Vector UInt8 count × CString)
  | 0, str => some (.nil, str)
  | count + 1, high :: low :: rest => do
      let highDigit ← hexDigit high
      let lowDigit ← hexDigit low
      let (digest, rest) ← parsePairs count rest
      some (UInt8.ofNat (16 * highDigit + lowDigit) ::ᵥ digest, rest)
  | _ + 1, _ => none

/-- `ParseSha1`; nothing may follow the forty digits. -/
def parseSha1 (str : CString) : Option Digest :=
  match parsePairs 20 str with
  | some (digest, []) => some digest
  | _ => none

/-- The search of `FindMatchingPatch` from index `start` on. -/
def findMatchingFrom (sha1 : Digest) : (start : Nat) → List CString → Int
  | _, [] => -1
  | start, str :: rest =>
      if parseSha1 str = some sha1 then start else findMatchingFrom sha1 (start + 1) rest

def findMatchingPatch (sha1 : Digest) (patchSha1Str : List CString) : Int :=
  findMatchingFrom sha1 0 patchSha1Str

/-! ## Loading -/

/-- What the field `data` of a `FileContents` points to. -/
inductive FileData where
  | null
  | live (bytes : Bytes)
  | freed
  deriving DecidableEq

/-- `FileContents` with the fields of its `st` that are used. -/
structure FileContents where
  sha1 : Digest
  data : FileData
  size : Int
  mode : Nat
  uid : Nat
  gid : Nat
  deriving DecidableEq

def isSpace (c : Char) : Bool :=
  [' ', '\t', '\n', '\x0b', '\x0c', '\r'].contains c

def decimal (digits : CString) : Nat :=
  (digits.takeWhile Char.isDigit).foldl (fun value c => 10 * value + (c.toNat - '0'.toNat)) 0

/-- `strtol` in base ten, with a 32-bit result. -/
def strtol (str : CString) : Int :=
  match str.dropWhile isSpace with
  | '-' :: digits => max (-2 ^ 31) (-(decimal digits : Int))
  | '+' :: digits => min (2 ^ 31 - 1) (decimal digits)
  | digits => min (2 ^ 31 - 1) (decimal digits)

/-- What `strtok` finds between colons. -/
def tokens (str : CString) : List CString :=
  (str.splitOn ':').filter (· ≠ [])

/-- The pairs of a size and a hash in the name of a partition; nothing if a size
is zero.  The hash may be missing. -/
def sizePairs : (count : Nat) → List CString → Except Stuck (Option (List (Nat × Option CString)))
  | 0, _ => .ok (some [])
  | _ + 1, [] => .error .outOfBounds
  | count + 1, sizeStr :: rest =>
      let size := (strtol sizeStr % 2 ^ 32).toNat
      if size = 0 then .ok none
      else do
        match ← sizePairs count (rest.drop 1) with
        | none => .ok none
        | some pairs => .ok (some ((size, rest.head?) :: pairs))

/-- Read the bytes up to the next size, if there are any. -/
def readNext (name : CString) (partition : MtdPartition) (ctx : MtdReadContext) (next : Nat) :
    SysProg (Option Bytes × MtdReadContext) :=
  if 0 < next then onPartition name (mtdReadData partition ctx next) else pure (some [], ctx)

section Loading

variable (lib : Library) (sha : Bytes → Digest)

/-- Try the pairs in order of increasing size; `data` was read so far.  The
result is the data that has the right hash, and the number of bytes read. -/
def loadPairs (name : CString) (partition : MtdPartition) :
    List (Nat × Option CString) → MtdReadContext → (data : Bytes) →
      Checked (Option Bytes × Nat)
  | [], _, data => pure (none, data.length)
  | (size, sha1sum) :: rest, ctx, data => do
      let next := size - data.length
      let (got, ctx) ← ExceptT.lift (readNext name partition ctx next)
      match got with
      | none => pure (none, data.length)
      | some bytes =>
          if bytes.length ≠ next then pure (none, data.length)
          else
            match sha1sum with
            | none => throw .outOfBounds
            | some str =>
                match parseSha1 str with
                | none => pure (none, (data ++ bytes).length)
                | some digest =>
                    if sha (data ++ bytes) = digest then
                      pure (some (data ++ bytes), (data ++ bytes).length)
                    else
                      loadPairs name partition rest ctx (data ++ bytes)

/-- Look a partition up and open it.  The partitions are scanned once in a
process; a further scan finds the same. -/
def openMtd (name : CString) : SysProg (Option MtdPartition) := do
  let _ ← Prog.ask SysOp.scanPartitions
  match ← Prog.ask (SysOp.findPartition name) with
  | none => pure none
  | some partition =>
      if ← Prog.ask (SysOp.openPartition name) then pure (some partition) else pure none

/-- Load a partition, given the pairs in order of increasing size. -/
def loadSorted (name : CString) (sorted : List (Nat × Option CString)) (file : FileContents) :
    Checked (Int × FileContents) := do
  match ← ExceptT.lift (openMtd name) with
  | none => pure (-1, file)
  | some partition =>
      match sorted.getLast? with
      | none => throw .outOfBounds
      | some (largest, _) =>
          if lib.malloc largest then do
            let (result, size) ←
              loadPairs sha name partition sorted (mtdReadPartition partition) []
            match result with
            | none => pure (-1, { file with data := .null, size := size })
            | some data => pure (0, ⟨sha data, .live data, data.length, 0o644, 0, 0⟩)
          else throw .outOfBounds

/-- `LoadMTDContents`.  A name with a wrong number of colons is reported but not
refused; without a pair there is no largest size. -/
def loadMTDContents (filename : CString) (file : FileContents) :
    Checked (Int × FileContents) :=
  match (tokens filename).drop 1 with
  | [] => throw .outOfBounds
  | name :: sizes =>
      match sizePairs ((filename.count ':' - 1) / 2) sizes with
      | .error stuck => throw stuck
      | .ok none => pure (-1, file)
      | .ok (some pairs) =>
          loadSorted lib sha name (pairs.mergeSort fun first second => first.1 ≤ second.1) file

def isMtd (filename : CString) : Bool :=
  "MTD:".toList.isPrefixOf filename

/-- `LoadFileContents` into a structure that holds `file`. -/
def loadFileContents (filename : CString) (file : FileContents) :
    Checked (Int × FileContents) :=
  let file := { file with data := .null }
  if isMtd filename then
    loadMTDContents lib sha filename file
  else do
    match ← call (.stat filename) with
    | none => pure (-1, file)
    | some st =>
        let file := { file with size := st.size, mode := st.mode, uid := st.uid, gid := st.gid }
        if ← call (.openRead filename) then
          if lib.malloc st.size then
            match ← call (.read filename 0 st.size) with
            | none => pure (-1, file)
            | some bytes =>
                if bytes.length ≠ st.size then pure (-1, file)
                else pure (0, { file with data := .live bytes, sha1 := sha bytes })
          else throw .outOfBounds
        else pure (-1, file)

end Loading

/-! ## Saving -/

/-- `FileSink` on the memory of a `FileContents`.  A write from a null pointer
fails. -/
def sinkContents (path : CString) (file : FileContents) : Checked Int :=
  if file.size ≤ 0 then pure 0
  else
    match file.data with
    | .null => pure 0
    | .live bytes => ExceptT.lift (fileSinkLoop path bytes.length bytes 0)
    | .freed => throw .freedMemory

/-- `SaveFileContents`. -/
def saveFileContents (filename : CString) (file : FileContents) : Checked Int := do
  if ← call (.create filename) then
    let written ← sinkContents filename file
    let _ ← call (.close (.file filename))
    if written ≠ file.size then pure (-1)
    else if ← call (.chmod filename file.mode) then
      if ← call (.chown filename file.uid file.gid) then pure 0 else pure (-1)
    else pure (-1)
  else pure (-1)

/-- The part of a target name between the first two colons. -/
def targetPartition (targetMtd : CString) : CString :=
  ((targetMtd.dropWhile (· ≠ ':')).drop 1).takeWhile (· ≠ ':')

/-- The calls of `WriteToMTDPartition` on the open partition. -/
def writeWhole (partition : MtdPartition) (data : Bytes) : MtdProg Int := do
  let (written, ctx) ← mtdWriteData partition mtdWritePartition data
  if written ≠ data.length then do
    let _ ← mtdWriteClose partition ctx
    pure (-1)
  else do
    let (erased, ctx) ← mtdEraseBlocks partition ctx (-1)
    if erased < 0 then do
      let _ ← mtdWriteClose partition ctx
      pure (-1)
    else do
      if (← mtdWriteClose partition ctx) ≠ 0 then pure (-1) else pure 0

/-- `WriteToMTDPartition`. -/
def writeToMTDPartition (data : Bytes) (targetMtd : CString) : SysProg Int :=
  if ':' ∈ targetMtd then do
    match ← openMtd (targetPartition targetMtd) with
    | none => pure (-1)
    | some partition => onPartition (targetPartition targetMtd) (writeWhole partition data)
  else pure (-1)

/-! ## Free space -/

def freeSpaceForFile (filename : CString) : SysProg Nat := do
  match ← Prog.ask (SysOp.statfs filename) with
  | none => pure (2 ^ 32 - 1)
  | some (bsize, bfree) => pure (bsize * bfree % 2 ^ 32)

def cacheDirs : List CString := ["/cache".toList, "/cache/recovery/otatest".toList]

/-- The regular files among the entries of a directory, but not the copy of the
source. -/
def regularFiles (dir : CString) : List CString → SysProg (List CString)
  | [] => pure []
  | name :: names => do
      let path := dir ++ '/' :: name
      if path = cacheTempSource then
        regularFiles dir names
      else
        match ← Prog.ask (SysOp.stat path) with
        | some st =>
            let rest ← regularFiles dir names
            pure (if st.isReg then path :: rest else rest)
        | none => regularFiles dir names

def filesInDirs : List CString → SysProg (List CString)
  | [] => pure []
  | dir :: dirs => do
      match ← Prog.ask (SysOp.readdir dir) with
      | none => filesInDirs dirs
      | some names =>
          let files ← regularFiles dir names
          let rest ← filesInDirs dirs
          pure (files ++ rest)

/-- `EliminateOpenFiles`: an open file leaves a gap. -/
def eliminateOpenFiles (files : List CString) : SysProg (Option (List (Option CString))) := do
  match ← Prog.ask SysOp.openFiles with
  | none => pure none
  | some links =>
      pure (some (files.map fun file =>
        if "/cache/".toList.isPrefixOf file ∧ file ∈ links then none else some file))

def findExpendableFiles : SysProg (Option (List (Option CString))) := do
  let files ← filesInDirs cacheDirs
  eliminateOpenFiles files

/-- Delete files until there is enough space. -/
def deleteFiles (bytesNeeded : Nat) : List (Option CString) → (freeNow : Nat) → SysProg Nat
  | [], freeNow => pure freeNow
  | name :: names, freeNow => do
      if bytesNeeded ≤ freeNow then
        pure freeNow
      else
        match name with
        | none => deleteFiles bytesNeeded names freeNow
        | some path =>
            let _ ← Prog.ask (SysOp.unlink path)
            let freeNow ← freeSpaceForFile "/cache".toList
            deleteFiles bytesNeeded names freeNow

/-- `MakeFreeSpaceOnCache`. -/
def makeFreeSpaceOnCache (bytesNeeded : Nat) : SysProg Int := do
  let freeNow ← freeSpaceForFile "/cache".toList
  if bytesNeeded ≤ freeNow then
    pure 0
  else
    match ← findExpendableFiles with
    | none => pure (-1)
    | some [] => pure (-1)
    | some names =>
        let freeNow ← deleteFiles bytesNeeded names freeNow
        pure (if bytesNeeded ≤ freeNow then 0 else -1)

end OpenRecovery
