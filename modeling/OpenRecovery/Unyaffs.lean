import OpenRecovery.MkYaffsImage
import Mathlib

/-!
# unyaffs

The tool reads an image chunk by chunk and makes the objects in it below a directory.  The
path of every object is kept under its number, so that its entries and its hard links find
it.
-/

namespace OpenRecovery.Yaffs

/-! ## Paths -/

def splitPath : Bytes → List Bytes
  | [] => [[]]
  | byte :: bytes =>
      if byte = slash then [] :: splitPath bytes
      else
        match splitPath bytes with
        | [] => [[byte]]
        | first :: rest => (byte :: first) :: rest

/-- The names in a path; empty ones and `.` say nothing. -/
def components (path : Bytes) : List Bytes :=
  (splitPath path).filter fun name => name ≠ [] ∧ name ≠ [46]

/-- The names from the root directory on. -/
def resolve (cwd : List Bytes) (path : Bytes) : List Bytes :=
  if path.head? = some slash then components path else cwd ++ components path

/-! ## The file system -/

inductive FileObject where
  | directory
  | file (data : Bytes)
  | link (target : Bytes)
  deriving DecidableEq

/-- Names refer to files by their numbers; hard links are names with the same number.  A number
from `next` on has not been used yet. -/
structure Disk where
  names : List Bytes → Option Nat
  files : Nat → FileObject
  next : Nat
  used : ∀ path number, names path = some number → number < next

namespace Disk

def isDirectory (disk : Disk) (path : List Bytes) : Bool :=
  match disk.names path with
  | some number => disk.files number = .directory
  | none => false

/-- A new name can be made. -/
def IsFree (disk : Disk) (path : List Bytes) : Prop :=
  disk.names path = none ∧ path ≠ [] ∧ disk.isDirectory path.dropLast = true

instance (disk : Disk) (path : List Bytes) : Decidable (disk.IsFree path) :=
  inferInstanceAs (Decidable (_ ∧ _ ∧ _))

/-- A name for a number. -/
def name (disk : Disk) (path : List Bytes) (number : Nat) (hnumber : number < disk.next) :
    Disk where
  names := Function.update disk.names path (some number)
  files := disk.files
  next := disk.next
  used := by
    intro other old hold
    by_cases hsame : other = path
    · rw [hsame, Function.update_self] at hold
      cases hold
      exact hnumber
    · rw [Function.update_of_ne hsame] at hold
      exact disk.used other old hold

/-- A number for a new file. -/
def allocate (disk : Disk) (object : FileObject) : Disk where
  names := disk.names
  files := Function.update disk.files disk.next object
  next := disk.next + 1
  used := fun path number hnumber => Nat.lt_succ_of_lt (disk.used path number hnumber)

def add (disk : Disk) (path : List Bytes) (object : FileObject) : Disk :=
  (disk.allocate object).name path disk.next (Nat.lt_succ_self _)

def setFile (disk : Disk) (number : Nat) (object : FileObject) : Disk :=
  { disk with files := Function.update disk.files number object }

def mkdir (disk : Disk) (path : List Bytes) : Disk :=
  if disk.IsFree path then disk.add path .directory else disk

def symlink (disk : Disk) (target : Bytes) (path : List Bytes) : Disk :=
  if disk.IsFree path ∧ target ≠ [] then disk.add path (.link target) else disk

/-- A directory has no hard links; a link is not followed. -/
def link (disk : Disk) (old new : List Bytes) : Disk :=
  match hold : disk.names old with
  | some number =>
      if disk.IsFree new ∧ disk.files number ≠ .directory then
        disk.name new number (disk.used old number hold)
      else disk
  | none => disk

/-- The open file, if there is one, and the disk. -/
def creat (disk : Disk) (path : List Bytes) : Option Nat × Disk :=
  if disk.IsFree path then (some disk.next, disk.add path (.file []))
  else
    match disk.names path with
    | some number =>
        match disk.files number with
        | .file _ => (some number, disk.setFile number (.file []))
        | _ => (none, disk)
    | none => (none, disk)

def write (disk : Disk) (number : Nat) (data : Bytes) : Disk :=
  match disk.files number with
  | .file before => disk.setFile number (.file (before ++ data))
  | _ => disk

end Disk

/-! ## Extraction -/

/-- A change of owner or permissions, which touches neither names nor contents. -/
inductive AttributeRequest where
  | chown (path : Bytes) (uid gid : UInt32)
  | chmod (path : Bytes) (mode : UInt32)
  deriving DecidableEq

structure Extraction where
  objList : Nat → Option Bytes
  disk : Disk
  requests : List AttributeRequest

/-- The next chunk with its spare area; a broken image ends the extraction like its end. -/
def readChunk (input : Bytes) : Option (Bytes × Bytes) :=
  if input.length < chunkSize + spareSize then none
  else some (input.take (chunkSize + spareSize), input.drop (chunkSize + spareSize))

/-- The string in an array. -/
def readString {count : Nat} (field : List.Vector UInt8 count) : Except Fault Bytes :=
  if 0 ∈ field.toList then .ok (cString field.toList) else .error .unterminated

/-- The path of an object. -/
def pathOf (objList : Nat → Option Bytes) (objectId : UInt32) : Except Fault Bytes :=
  if objectId.toNat < maxObjects then
    match objList objectId.toNat with
    | some path => .ok path
    | none => .error .noParent
  else .error .objectId

/-- The loop that copies the data chunks of a file; tells whether it came to the end. -/
def extractData (number : Option Nat) :
    (fuel remain : Nat) → (input : Bytes) → Disk → Except Fault (Bool × Bytes × Disk)
  | 0, _, _, _ => .error .fuel
  | fuel + 1, remain, input, disk =>
      if remain = 0 then .ok (true, input, disk)
      else
        match readChunk input with
        | none => .ok (false, [], disk)
        | some (data, rest) =>
            let byteCount := (PackedTags.ofBytes (data.drop chunkSize)).byteCount.toNat
            let s := if remain < byteCount then remain else byteCount
            if chunkSize + spareSize < s then .error .buffer
            else
              match number with
              | none => .ok (false, rest, disk)
              | some opened =>
                  extractData number fuel (remain - s) rest (disk.write opened (data.take s))

/-- In the beginning only the root directory has a path. -/
def beginExtraction (root : Bytes) (disk : Disk) : Extraction where
  objList := Function.update (fun _ => none) objectIdRoot (some root)
  disk := disk
  requests := []

section Chunks

variable (cwd : List Bytes)

/-- The owner and, but for links, the permissions of a new object. -/
def setAttributes (oh : ObjectHeader) (path : Bytes) (doChmod : Bool) (state : Extraction) :
    Extraction :=
  { state with
    requests := state.requests ++ .chown path oh.uid oh.gid ::
      (if doChmod then [.chmod path oh.mode] else []) }

/-- A new object; yields the rest of the input. -/
def processObject (oh : ObjectHeader) (path : Bytes) (input : Bytes) (state : Extraction) :
    Except Fault (Bytes × Extraction) :=
  match ObjectType.ofCode oh.type with
  | some .file => do
      let (number, disk) := state.disk.creat (resolve cwd path)
      let (complete, rest, disk) ←
        extractData number (input.length + 1) oh.fileSize.toNat input disk
      let state := { state with disk := disk }
      pure (rest, if complete then setAttributes oh path true state else state)
  | some .symlink => do
      let target ← readString oh.aliasName
      pure (input, setAttributes oh path false
        { state with disk := state.disk.symlink target (resolve cwd path) })
  | some .directory =>
      .ok (input, setAttributes oh path true
        { state with disk := state.disk.mkdir (resolve cwd path) })
  | some .hardlink => do
      let old ← pathOf state.objList oh.equivalentObjectId
      pure (input, setAttributes oh path true
        { state with disk := state.disk.link (resolve cwd old) (resolve cwd path) })
  | some .special => .ok (input, state)
  | some .unknown => .ok (input, state)
  | none => .ok (input, setAttributes oh path true state)

/-- A chunk that does not begin an object is skipped. -/
def processChunk (data input : Bytes) (state : Extraction) :
    Except Fault (Bytes × Extraction) :=
  let tags := PackedTags.ofBytes (data.drop chunkSize)
  if tags.byteCount = 0xffff then do
    let oh := ObjectHeader.ofBytes data
    let name ← readString oh.name
    let parentPath ← pathOf state.objList oh.parentObjectId
    let path := parentPath ++ [slash] ++ name
    if tags.objectId.toNat < maxObjects then
      processObject cwd oh path input
        { state with objList := Function.update state.objList tags.objectId.toNat (some path) }
    else .error .objectId
  else .ok (input, state)

def extractLoop : (fuel : Nat) → Bytes → Extraction → Except Fault Extraction
  | 0, _, _ => .error .fuel
  | fuel + 1, input, state =>
      match readChunk input with
      | none => .ok state
      | some (data, rest) => do
          let (rest, state) ← processChunk cwd data rest state
          extractLoop fuel rest state

/-- The directory to extract into, without a leading `./`. -/
def dirName (argument : Bytes) : Bytes :=
  if argument.take 2 = [46, slash] then argument.drop 2 else argument

def rootPath (argument : Bytes) : Bytes :=
  if (dirName argument).head? = some slash then dirName argument else [46, slash] ++ argument

def sizeofRootPath : Nat := 100

def unyaffs (argument image : Bytes) (disk : Disk) : Except Fault Extraction :=
  let disk := if dirName argument = [] then disk else disk.mkdir (resolve cwd (dirName argument))
  if dirName argument = [] ∨ disk.names (resolve cwd (dirName argument)) = none then .error .exit
  else if (rootPath argument).length < sizeofRootPath then
    extractLoop cwd (image.length + 1) image (beginExtraction (rootPath argument) disk)
  else .error .rootPath

end Chunks

end OpenRecovery.Yaffs
