import OpenRecovery.SortedTable
import OpenRecovery.YaffsImage
import Mathlib

/-!
# mkyaffs2image

The tool walks through a directory tree in the order in which `readdir` yields the entries,
numbers the objects and writes them into an image.  A table of the inodes seen so far, sorted
by device and inode number, tells hard links.  All reads and writes are complete.
-/

namespace OpenRecovery.Yaffs

open SortedTable

/-! ## The directory tree -/

/-- A device and an inode number. -/
@[ext]
structure Inode where
  dev : Nat
  ino : Nat
  deriving DecidableEq

inductive FileKind where
  | link
  | regular
  | directory
  | fifo
  | block
  | character
  | socket
  | other
  deriving DecidableEq

/-- What `lstat` says about an inode, and the bytes of a file or the target of a link. -/
structure SourceFile where
  mode : UInt32
  uid : UInt32
  gid : UInt32
  atime : UInt32
  mtime : UInt32
  ctime : UInt32
  rdev : UInt32
  data : Bytes

/-- The file type in `st_mode`. -/
def SourceFile.kind (file : SourceFile) : FileKind :=
  match file.mode.toNat / 2 ^ 12 % 2 ^ 4 with
  | 0o12 => .link
  | 0o10 => .regular
  | 0o04 => .directory
  | 0o01 => .fifo
  | 0o06 => .block
  | 0o02 => .character
  | 0o14 => .socket
  | _ => .other

/-- What `readdir` yields of a directory, with what it yields of an entry that is a directory
itself. -/
inductive Listing where
  | done
  | entry (name : Bytes) (inode : Inode) (inside rest : Listing)

/-! ## The table of inodes -/

structure ObjItem where
  inode : Inode
  obj : Nat
  deriving DecidableEq

def objCompare (a b : ObjItem) : Int :=
  if a.inode.dev < b.inode.dev then -1
  else if a.inode.dev > b.inode.dev then 1
  else if a.inode.ino < b.inode.ino then -1
  else if a.inode.ino > b.inode.ino then 1
  else 0

inductive Fault where
  | fullName
  | objectArray
  | objectId
  | noParent
  | unterminated
  | rootPath
  | buffer
  | fuel
  | exit
  deriving DecidableEq

/-- The program exits when the table is full. -/
def addObjToList (objList : List ObjItem) (inode : Inode) (obj : Nat) :
    Except Fault (List ObjItem) :=
  if objList.length < maxObjects then .ok (qsort objCompare (objList ++ [⟨inode, obj⟩]))
  else .error .objectArray

def findObjInList (objList : List ObjItem) (inode : Inode) : Int :=
  match bsearch objCompare ⟨inode, 0⟩ objList with
  | some item => item.obj
  | none => -1

/-! ## Chunks -/

/-- A chunk with its spare area, of which only the tags are set; `leftover` is what the stack
holds behind them. -/
def writeChunk (leftover : UInt32 → UInt32 → Nat → UInt8) (data : Bytes)
    (objId chunkId nBytes : UInt32) : Bytes :=
  let t := { initialiseTags with
    chunkId := chunkId
    byteCount := nBytes
    objectId := objId
    sequenceNumber := lowestSequenceNumber }
  data ++ (packTags2 t).bytes ++ (List.range 48).map (leftover objId chunkId)

/-- The header of an object.  A hard link has no attributes of its own. -/
def objectHeader (t : ObjectType) (s : SourceFile) (parent : Nat) (name : Bytes)
    (equivalentObj : Int) (aliasName : Bytes) : ObjectHeader :=
  let oh := { ObjectHeader.blank with
    type := t.code
    parentObjectId := UInt32.ofNat parent
    name := strncpy ObjectHeader.blank.name name maxNameLength }
  let oh :=
    if t ≠ .hardlink then
      { oh with
        mode := s.mode
        uid := s.uid
        gid := s.gid
        atime := s.atime
        mtime := s.mtime
        ctime := s.ctime
        rdev := s.rdev }
    else oh
  let oh := if t = .file then { oh with fileSize := UInt32.ofNat s.data.length } else oh
  let oh :=
    if t = .hardlink then { oh with equivalentObjectId := UInt32.ofInt equivalentObj } else oh
  if t = .symlink then { oh with aliasName := strncpy oh.aliasName aliasName maxAliasLength }
  else oh

def writeObjectHeader (leftover : UInt32 → UInt32 → Nat → UInt8) (objId : Nat) (t : ObjectType)
    (s : SourceFile) (parent : Nat) (name : Bytes) (equivalentObj : Int) (aliasName : Bytes) :
    Bytes :=
  writeChunk leftover (objectHeader t s parent name equivalentObj aliasName).bytes
    (UInt32.ofNat objId) 0 0xffff

/-- The data chunks of a file. -/
def writeData (leftover : UInt32 → UInt32 → Nat → UInt8) (objId : Nat) :
    (fuel chunk : Nat) → (unread : Bytes) → Bytes
  | 0, _, _ => []
  | fuel + 1, chunk, unread =>
      let bytes := unread.take chunkSize
      if 0 < bytes.length then
        writeChunk leftover (bytes ++ filled (chunkSize - bytes.length)) (UInt32.ofNat objId)
            (UInt32.ofNat (chunk + 1)) (UInt32.ofNat bytes.length) ++
          writeData leftover objId fuel (chunk + 1) (unread.drop chunkSize)
      else []

/-! ## The traversal -/

/-- The inodes seen so far, the next object number and what has been written. -/
structure Writer where
  objList : List ObjItem
  objId : Nat
  image : Bytes

def slash : UInt8 := 47

/-- The entries `.` and `..`. -/
def IsDot (name : Bytes) : Prop :=
  name = [46] ∨ name = [46, 46]

instance (name : Bytes) : Decidable (IsDot name) :=
  inferInstanceAs (Decidable (_ ∨ _))

def sizeofFullName : Nat := 500

def sizeofSymname : Nat := 500

section Traversal

variable (leftover : UInt32 → UInt32 → Nat → UInt8) (files : Inode → SourceFile)

/-- What is written for an inode that is seen for the first time, but for what is inside a
directory. -/
def writeObject (newObj parent : Nat) (name : Bytes) (file : SourceFile) : Bytes :=
  match file.kind with
  | .link =>
      writeObjectHeader leftover newObj .symlink file parent name (-1)
        (file.data.take (sizeofSymname - 1))
  | .regular =>
      writeObjectHeader leftover newObj .file file parent name (-1) [] ++
        writeData leftover newObj (file.data.length + 1) 0 file.data
  | .directory => writeObjectHeader leftover newObj .directory file parent name (-1) []
  | _ => writeObjectHeader leftover newObj .special file parent name (-1) []

/-- The body of the loop, without the recursive call; tells whether the entry is a directory to
go into. -/
def processEntry (parent : Nat) (name : Bytes) (inode : Inode) (state : Writer) :
    Except Fault (Writer × Bool) :=
  let file := files inode
  if file.kind = .other then .ok (state, false)
  else
    let newObj := state.objId
    let equivalentObj := findObjInList state.objList inode
    if equivalentObj > 0 then
      .ok ({ state with
        objId := newObj + 1
        image := state.image ++
          writeObjectHeader leftover newObj .hardlink file parent name equivalentObj [] }, false)
    else do
      let objList ← addObjToList state.objList inode newObj
      pure (⟨objList, newObj + 1, state.image ++ writeObject leftover newObj parent name file⟩,
        decide (file.kind = .directory))

def processDirectory (parent : Nat) (path : Bytes) : Listing → Writer → Except Fault Writer
  | .done, state => .ok state
  | .entry name inode inside rest, state =>
      if IsDot name then processDirectory parent path rest state
      else
        let fullName := path ++ [slash] ++ name
        if fullName.length < sizeofFullName then do
          let (next, descend) ← processEntry leftover files parent name inode state
          let next ←
            if descend then processDirectory state.objId fullName inside next else pure next
          processDirectory parent path rest next
        else .error .fullName

/-- The image of a directory. -/
def mkyaffs2image (path : Bytes) (directory : SourceFile) (listing : Listing) :
    Except Fault Bytes := do
  let header :=
    writeObjectHeader leftover objectIdRoot .directory directory objectIdRoot [] (-1) []
  let last ← processDirectory leftover files objectIdRoot path listing
    ⟨[], nobjectBuckets + 1, header⟩
  pure last.image

end Traversal

end OpenRecovery.Yaffs
