import OpenRecovery.MkYaffsImage
import Mathlib

/-!
# Runs of mkyaffs2image

The tool with its exceptions file, on a system where calls may fail: a write to the image may
take only the first bytes or nothing, and directories and files may be unreadable from some
point on.  Files are given by their inodes, since none of them is read twice.
-/

namespace OpenRecovery.Yaffs

/-! ## Trees -/

/-- The inodes of the entries of a tree. -/
def Listing.inodes (files : Inode → SourceFile) : Listing → List Inode
  | .done => []
  | .entry name inode inside rest =>
      if IsDot name then rest.inodes files
      else
        inode :: ((if (files inode).kind = .directory then inside.inodes files else []) ++
          rest.inodes files)

/-- A directory tree, in which no directory has a second name. -/
structure SourceTree where
  files : Inode → SourceFile
  path : Bytes
  directory : SourceFile
  listing : Listing
  directories :
    ((listing.inodes files).filter fun inode => (files inode).kind = .directory).Nodup

namespace Backup

/-! ## The exceptions file -/

def newline : UInt8 := 10

/-- What `fgets` with a buffer of that size takes from the rest of a file. -/
def fgets (size : Nat) (text : Bytes) : Bytes :=
  let window := text.take (size - 1)
  window.take ((window.takeWhile (· ≠ newline)).length + 1)

def sizeofExclList : Nat := 50

/-- The table of excluded paths, which ends with a null pointer. -/
structure Exceptions where
  paths : List Bytes
  room : paths.length < sizeofExclList

/-- The string in the buffer without a newline at its end.  Without any byte in front of the
terminator the byte in front of the buffer is read. -/
def chomp (buffer : Bytes) : Except Fault Bytes :=
  let line := cString buffer
  if line = [] then .error .buffer
  else if line.getLast? = some newline then .ok line.dropLast
  else .ok line

/-- The lines are stored one after the other; with a table full of them the search for a path
would not end in it. -/
def readExceptions : (rounds : Nat) → Bytes → Exceptions → Except Fault Exceptions
  | 0, _, _ => .error .fuel
  | rounds + 1, text, exclList =>
      let taken := fgets 255 text
      if taken = [] then .ok exclList
      else do
        let line ← chomp taken
        let rest := text.drop taken.length
        if line = [] then readExceptions rounds rest exclList
        else if hroom : (exclList.paths ++ [line]).length < sizeofExclList then
          readExceptions rounds rest ⟨exclList.paths ++ [line], hroom⟩
        else .error .buffer

/-- Whether `strncmp` finds no difference between two strings. -/
def strncmpZero (left right : Bytes) (count : Nat) : Bool :=
  (left ++ [0]).take count = (right ++ [0]).take count

def isEntryException (exclList : Exceptions) (direntry : Bytes) : Bool :=
  exclList.paths.any fun path => strncmpZero direntry path path.length

/-! ## Calls that fail -/

/-- What goes wrong: whether the image cannot be opened, how many bytes a write to it takes at
most, which directories cannot be opened or read to their end, and which files. -/
structure Faults where
  openImage : Bool
  write : Nat → Option Nat
  opendir : Bytes → Bool
  readdir : Bytes → Option Nat
  openFile : Inode → Bool
  read : Inode → Option Nat

/-- The number of entries after which a directory seems to end. -/
def Faults.cut (faults : Faults) (path : Bytes) : Option Nat :=
  if faults.opendir path then some 0 else faults.readdir path

/-- The global variables, the bytes in the image and the number of writes to it. -/
structure Run where
  objList : List ObjItem
  objId : Nat
  error : Int
  image : Bytes
  writes : Nat

section Tool

variable (leftover : UInt32 → UInt32 → Nat → UInt8) (faults : Faults)

def write (data : Bytes) (run : Run) : Int × Run :=
  match faults.write run.writes with
  | none => (-1, { run with writes := run.writes + 1 })
  | some count =>
      ((data.take count).length,
        { run with writes := run.writes + 1, image := run.image ++ data.take count })

def spareArea (objId chunkId nBytes : UInt32) : Bytes :=
  let t := { initialiseTags with
    chunkId := chunkId
    byteCount := nBytes
    objectId := objId
    sequenceNumber := lowestSequenceNumber }
  (packTags2 t).bytes ++ (List.range 48).map (leftover objId chunkId)

def writeChunk (data : Bytes) (objId chunkId nBytes : UInt32) (run : Run) : Int × Run :=
  let (error, run) := write faults data run
  let run := { run with error := error }
  if error < 0 then (error, run)
  else write faults (spareArea leftover objId chunkId nBytes) run

def writeObjectHeader (objId : Nat) (t : ObjectType) (s : SourceFile) (parent : Nat)
    (name : Bytes) (equivalentObj : Int) (aliasName : Bytes) (run : Run) : Int × Run :=
  writeChunk leftover faults (objectHeader t s parent name equivalentObj aliasName).bytes
    (UInt32.ofNat objId) 0 0xffff run

/-- The loop that copies a file. -/
def copyData (inode : Inode) (objId : Nat) :
    (fuel chunk : Nat) → (unread : Bytes) → Run → Run
  | 0, _, _, run => run
  | fuel + 1, chunk, unread, run =>
      if faults.read inode = some chunk then { run with error := -1 }
      else
        let bytes := unread.take chunkSize
        if 0 < bytes.length then
          copyData inode objId fuel (chunk + 1) (unread.drop chunkSize)
            (writeChunk leftover faults (bytes ++ filled (chunkSize - bytes.length))
              (UInt32.ofNat objId) (UInt32.ofNat (chunk + 1)) (UInt32.ofNat bytes.length) run).2
        else run

variable (files : Inode → SourceFile)

/-- The header of an object, with its result in `error`. -/
def makeHeader (newObj : Nat) (t : ObjectType) (file : SourceFile) (parent : Nat) (name : Bytes)
    (equivalentObj : Int) (aliasName : Bytes) (run : Run) : Run :=
  let (error, run) :=
    writeObjectHeader leftover faults newObj t file parent name equivalentObj aliasName run
  { run with error := error }

/-- What is written for an inode that is seen for the first time, but for what is inside a
directory. -/
def writeObject (newObj parent : Nat) (name : Bytes) (inode : Inode) (run : Run) : Run :=
  let file := files inode
  match file.kind with
  | .link =>
      makeHeader leftover faults newObj .symlink file parent name (-1)
        (file.data.take (sizeofSymname - 1)) run
  | .regular =>
      let run := makeHeader leftover faults newObj .file file parent name (-1) [] run
      if run.error ≥ 0 then
        if faults.openFile inode then run
        else copyData leftover faults inode newObj (file.data.length + 1) 0 file.data run
      else run
  | .directory => makeHeader leftover faults newObj .directory file parent name (-1) [] run
  | _ => makeHeader leftover faults newObj .special file parent name (-1) [] run

variable (exclList : Exceptions)

/-- The body of the loop behind `lstat`, without the recursive call; tells whether the entry is a
directory to go into. -/
def processEntry (parent : Nat) (name fullName : Bytes) (inode : Inode) (run : Run) :
    Except Fault (Run × Bool) :=
  let file := files inode
  if file.kind = .other then .ok (run, false)
  else if isEntryException exclList fullName then .ok (run, false)
  else
    let newObj := run.objId
    let run := { run with objId := newObj + 1 }
    let equivalentObj := findObjInList run.objList inode
    if equivalentObj > 0 then
      .ok (makeHeader leftover faults newObj .hardlink file parent name equivalentObj [] run, false)
    else do
      let objList ← addObjToList run.objList inode newObj
      pure (writeObject leftover faults files newObj parent name inode
        { run with objList := objList }, decide (file.kind = .directory))

/-- The loop over the entries of a directory that has been opened. -/
def processEntries (parent : Nat) (path : Bytes) :
    (left : Option Nat) → Listing → Run → Except Fault Run
  | _, .done, run => .ok run
  | some 0, .entry _ _ _ _, run => .ok run
  | left, .entry name inode inside rest, run =>
      if IsDot name then processEntries parent path (left.map (· - 1)) rest run
      else
        let fullName := path ++ [slash] ++ name
        if fullName.length < sizeofFullName then do
          let (next, descend) ←
            processEntry leftover faults files exclList parent name fullName inode run
          let next ←
            if descend then processEntries run.objId fullName (faults.cut fullName) inside next
            else pure next
          processEntries parent path (left.map (· - 1)) rest next
        else .error .fullName

def processDirectory (parent : Nat) (path : Bytes) (listing : Listing) (run : Run) :
    Except Fault Run :=
  processEntries leftover faults files exclList parent path (faults.cut path) listing run

end Tool

/-- The part of `main` behind the exceptions file: the exit status and the image. -/
def makeImage (leftover : UInt32 → UInt32 → Nat → UInt8) (faults : Faults)
    (exclList : Exceptions) (tree : SourceTree) : Except Fault (Int × Bytes) :=
  if faults.openImage then .ok (1, [])
  else
    let run := makeHeader leftover faults objectIdRoot .directory tree.directory objectIdRoot []
      (-1) [] ⟨[], nobjectBuckets + 1, 0, [], 0⟩
    if run.error ≠ 0 then do
      let run ← processDirectory leftover faults tree.files exclList objectIdRoot tree.path
        tree.listing run
      let run := { run with error := 0 }
      pure (if run.error < 0 then 1 else 0, run.image)
    else pure (if run.error < 0 then 1 else 0, run.image)

/-- The tool, with the exceptions file if it can be opened. -/
def mkyaffs2image (leftover : UInt32 → UInt32 → Nat → UInt8) (faults : Faults)
    (exceptions : Option Bytes) (tree : SourceTree) : Except Fault (Int × Bytes) := do
  let exclList ←
    match exceptions with
    | none => pure ⟨[], Nat.zero_lt_succ _⟩
    | some text => readExceptions (text.length + 1) text ⟨[], Nat.zero_lt_succ _⟩
  makeImage leftover faults exclList tree

end Backup

end OpenRecovery.Yaffs
