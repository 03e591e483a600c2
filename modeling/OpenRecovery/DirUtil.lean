import OpenRecovery.FileTrees
import OpenRecovery.Words
import Mathlib

/-!
# Directory hierarchies

The three functions of `DirUtil.c` that create, delete and change a whole hierarchy.  They go
through the file system by its calls, each of which may fail, and tell each other about failures
by what they return and by `errno`.
-/

namespace OpenRecovery.DirUtil


/-! ## Paths -/

def slash : UInt8 := 47

def dot : Bytes := [46]

def dotDot : Bytes := [46, 46]

/-- A name of a file in a directory. -/
def IsName (name : Bytes) : Prop :=
  name ≠ [] ∧ slash ∉ name ∧ name ≠ dot ∧ name ≠ dotDot

instance (name : Bytes) : Decidable (IsName name) :=
  inferInstanceAs (Decidable (_ ∧ _ ∧ _ ∧ _))

abbrev FileName := { name : Bytes // IsName name }

abbrev Place := List FileName

abbrev Tree := FileTree FileName

def stepOf (component : Bytes) : Option (Step FileName) :=
  if component = dot then some .here
  else if component = dotDot then some .up
  else if hname : IsName component then some (.name ⟨component, hname⟩)
  else none

def steps (path : Bytes) : List (Step FileName) :=
  (path.splitOn slash).filterMap stepOf

/-- A path that ends in a slash is one of a directory. -/
def endsInSlash (path : Bytes) : Bool :=
  path.getLast? = some slash

/-! ## The calls of the system -/

inductive Call where
  | stat (path : Bytes)
  | lstat (path : Bytes)
  | opendir (path : Bytes)
  | readdir
  | closedir
  | unlink (path : Bytes)
  | rmdir (path : Bytes)
  | mkdir (path : Bytes)
  | utime (path : Bytes)
  | chown (path : Bytes)
  | chmod (path : Bytes)

/-- How many links are followed on the way. -/
def maxLinks : Nat := 40

/-- Where a path begins. -/
def startOf (cwd : Place) (path : Bytes) : Place :=
  if path.head? = some slash then [] else cwd

/-- The directory that a path leads to, if its last name is looked up in it, and that name. -/
def entryOf (cwd : Place) (tree : Tree) (path : Bytes) : Except Errno (Place × FileName) :=
  match (steps path).getLast? with
  | some (.name name) => do
      let (place, _) ← tree.resolve maxLinks (startOf cwd path) (steps path).dropLast
      if tree.isDirectory place then .ok (place, name) else .error .notDirectory
  | _ => .error .invalid

/-- `stat`: what the path leads to when links are followed. -/
def statPlace (cwd : Place) (tree : Tree) (path : Bytes) : Except Errno Place :=
  if path = [] then .error .noEntry
  else do
    let (place, _) ← tree.resolve maxLinks (startOf cwd path) (steps path)
    if endsInSlash path && !tree.isDirectory place then .error .notDirectory else .ok place

/-- `lstat`: a link at the end is not followed. -/
def lstatPlace (cwd : Place) (tree : Tree) (path : Bytes) : Except Errno Place :=
  match (steps path).getLast?, endsInSlash path with
  | some (.name _), false => do
      let (place, name) ← entryOf cwd tree path
      if tree.number (place ++ [name]) = none then .error .noEntry else .ok (place ++ [name])
  | _, _ => statPlace cwd tree path

/-- What the files see of the calls: where relative paths begin, the mask and the time for new
directories, and which calls fail. -/
structure System where
  cwd : Place
  umask : UInt32
  now : Int
  faults : Nat → Call → Option Errno

/-- The tree, `errno` and the calls so far with whether they succeeded. -/
structure Process where
  tree : Tree
  errno : Int
  calls : List (Call × Bool)

/-- A call: its value, or nothing if it fails, and then the tree is as it was. -/
def perform {Value : Type} (system : System) (call : Call)
    (act : Tree → Except Errno (Value × Tree)) (process : Process) : Option Value × Process :=
  match system.faults process.calls.length call with
  | some errno =>
      (none, { process with errno := errno.code, calls := process.calls ++ [(call, false)] })
  | none =>
      match act process.tree with
      | .error errno =>
          (none, { process with errno := errno.code, calls := process.calls ++ [(call, false)] })
      | .ok (value, tree) =>
          (some value, { process with tree := tree, calls := process.calls ++ [(call, true)] })

structure Stat where
  directory : Bool
  link : Bool

def statOf (tree : Tree) (place : Place) : Stat where
  directory := tree.isDirectory place
  link :=
    match tree.kindAt place with
    | some (.link _) => true
    | _ => false

def statAct (cwd : Place) (path : Bytes) (tree : Tree) : Except Errno (Stat × Tree) := do
  let place ← statPlace cwd tree path
  .ok (statOf tree place, tree)

def lstatAct (cwd : Place) (path : Bytes) (tree : Tree) : Except Errno (Stat × Tree) := do
  let place ← lstatPlace cwd tree path
  .ok (statOf tree place, tree)

/-- The names that `readdir` will give one after the other. -/
def opendirAct (cwd : Place) (path : Bytes) (tree : Tree) :
    Except Errno (List Bytes × Tree) := do
  let place ← statPlace cwd tree path
  if tree.isDirectory place then
    .ok (dot :: dotDot :: (tree.entries place).map Subtype.val, tree)
  else .error .notDirectory

/-- `readdir` and `closedir`. -/
def streamAct (tree : Tree) : Except Errno (Unit × Tree) :=
  .ok ((), tree)

/-- `unlink` of something that is no directory. -/
def unlinkAct (cwd : Place) (path : Bytes) (tree : Tree) : Except Errno (Unit × Tree) :=
  if endsInSlash path then .error .notDirectory
  else do
    let (place, name) ← entryOf cwd tree path
    if tree.number (place ++ [name]) = none then .error .noEntry
    else if hfile : tree.isDirectory (place ++ [name]) = false then
      .ok ((), tree.remove (place ++ [name]) (by simp) (FileTree.childless hfile))
    else .error .isDirectory

theorem number_eq_none_of_entries {tree : Tree} {place : Place} (hempty : tree.entries place = [])
    (name : FileName) : tree.number (place ++ [name]) = none := by
  have hnot := (tree.mem_entries place name).not
  rw [hempty] at hnot
  exact Option.not_isSome_iff_eq_none.mp (hnot.mp List.not_mem_nil)

/-- `rmdir` of a directory that is empty. -/
def rmdirAct (cwd : Place) (path : Bytes) (tree : Tree) : Except Errno (Unit × Tree) := do
  let (place, name) ← entryOf cwd tree path
  if tree.number (place ++ [name]) = none then .error .noEntry
  else if tree.isDirectory (place ++ [name]) then
    if hempty : tree.entries (place ++ [name]) = [] then
      .ok ((), tree.remove (place ++ [name]) (by simp) (number_eq_none_of_entries hempty))
    else .error .notEmpty
  else .error .notDirectory

/-- A change of what the path leads to. -/
def changeAct (cwd : Place) (path : Bytes) (change : Inode FileName → Inode FileName)
    (hkind : ∀ inode, (change inode).kind = inode.kind) (tree : Tree) :
    Except Errno (Unit × Tree) := do
  let place ← statPlace cwd tree path
  match tree.number place with
  | none => .error .noEntry
  | some n => .ok ((), tree.changeInode n change hkind)

/-- An owner of -1 is no change.  A file loses its set-id bits. -/
def chowned (uid gid : Int32) (inode : Inode FileName) : Inode FileName :=
  { inode with
    uid := if uid = -1 then inode.uid else uid.toUInt32
    gid := if gid = -1 then inode.gid else gid.toUInt32
    mode :=
      match inode.kind with
      | .directory => inode.mode
      | _ => inode.mode &&& 0x3FF }

def chmodded (mode : Int32) (inode : Inode FileName) : Inode FileName :=
  { inode with mode := mode.toUInt32 &&& 0xFFF }

def utimed (times : Int × Int) (inode : Inode FileName) : Inode FileName :=
  { inode with times := times }

def newDirectory (system : System) (mode : Int32) : Inode FileName where
  kind := .directory
  uid := 0
  gid := 0
  mode := mode.toUInt32 &&& 0x3FF &&& ~~~system.umask
  times := (system.now, system.now)

def mkdirAct (system : System) (path : Bytes) (mode : Int32) (tree : Tree) :
    Except Errno (Unit × Tree) := do
  let (place, name) ← entryOf system.cwd tree path
  if hplace : tree.isDirectory place = true then
    if hfree : tree.number (place ++ [name]) = none then
      .ok ((), tree.add place name (newDirectory system mode) hplace hfree)
    else .error .exists'
  else .error .notDirectory

/-! ## The functions of `DirUtil.c` -/

/-- What a function returns whose last part is a call. -/
def returned (result : Option Unit × Process) : Int × Process :=
  match result with
  | (none, process) => (-1, process)
  | (some (), process) => (0, process)

inductive DirStatus where
  | missing
  | directory
  | illegal
  deriving DecidableEq

def getPathDirStatus (system : System) (path : Bytes) (process : Process) : DirStatus × Process :=
  match perform system (.stat path) (statAct system.cwd path) process with
  | (some st, process) =>
      if st.directory then (.directory, process)
      else (.illegal, { process with errno := Errno.notDirectory.code })
  | (none, process) =>
      if process.errno ≠ Errno.noEntry.code then (.illegal, process) else (.missing, process)

/-- The part of the body of the loop behind the end of a path component. -/
def createLevel (system : System) (mode : Int32) (timestamp : Option (Int × Int)) (path : Bytes)
    (process : Process) : Bool × Process :=
  match getPathDirStatus system path process with
  | (.illegal, process) => (false, process)
  | (.directory, process) => (true, process)
  | (.missing, process) =>
      match perform system (.mkdir path) (mkdirAct system path mode) process with
      | (none, process) => (false, process)
      | (some (), process) =>
          match timestamp with
          | none => (true, process)
          | some times =>
              match perform system (.utime path)
                  (changeAct system.cwd path (utimed times) fun _ => rfl) process with
              | (none, process) => (false, process)
              | (some (), process) => (true, process)

/-- The walk up the path from the root, where `p` is an index.  Without an end of the next
component the loop would run out of the path. -/
def createLevels (system : System) (mode : Int32) (timestamp : Option (Int × Int))
    (cpath : Bytes) : (rounds p : Nat) → Process → Option (Int × Process)
  | 0, _, _ => none
  | rounds + 1, p, process =>
      let p := p + ((cpath.drop p).takeWhile (· = slash)).length
      if p = cpath.length then some (0, process)
      else
        let p := p + ((cpath.drop p).takeWhile (· ≠ slash)).length
        if p = cpath.length then none
        else
          match createLevel system mode timestamp (cpath.take p) process with
          | (false, process) => some (-1, process)
          | (true, process) => createLevels system mode timestamp cpath rounds p process

/-- The path with everything behind the last slash stripped, if that is not the first byte, or
with a slash behind it. -/
def directoryPath (path : Bytes) (stripFileName : Bool) : Option Bytes :=
  if stripFileName then
    let c := path.length - 1 - (path.reverse.takeWhile (· ≠ slash)).length
    if c = 0 then none else some (path.take (c + 1))
  else some (path ++ [slash])

def dirCreateHierarchy (system : System) (path : Bytes) (mode : Int32)
    (timestamp : Option (Int × Int)) (stripFileName : Bool) (process : Process) :
    Option (Int × Process) :=
  if path = [] then some (-1, { process with errno := Errno.noEntry.code })
  else
    match directoryPath path stripFileName with
    | none => some (-1, { process with errno := Errno.noEntry.code })
    | some cpath =>
        match getPathDirStatus system cpath process with
        | (.directory, process) => some (0, process)
        | (.illegal, process) => some (-1, process)
        | (.missing, process) =>
            createLevels system mode timestamp cpath (cpath.length + 1) 0 process

def pathMax : Nat := 4096

/-- `snprintf` of a path and a name into an array of `pathMax` bytes. -/
def joined (path name : Bytes) : Bytes :=
  (path ++ slash :: name).take (pathMax - 1)

/-- The loop over the entries of a directory, with whether it was left for a failure. -/
def unlinkEntries (system : System) (unlinkBelow : Bytes → Process → Option (Int × Process))
    (path : Bytes) : (stream : List Bytes) → Process → Option (Bool × Process)
  | [], process => some (false, (perform system .readdir streamAct process).2)
  | name :: stream, process =>
      match perform system .readdir streamAct process with
      | (none, process) => some (false, process)
      | (some (), process) =>
          if name = dotDot ∨ name = dot then unlinkEntries system unlinkBelow path stream process
          else
            match unlinkBelow (joined path name) process with
            | none => none
            | some (result, process) =>
                if result < 0 then some (true, process)
                else unlinkEntries system unlinkBelow path stream { process with errno := 0 }

def dirUnlinkHierarchy (system : System) : (depth : Nat) → Bytes → Process →
    Option (Int × Process)
  | 0, _, _ => none
  | depth + 1, path, process =>
      match perform system (.lstat path) (lstatAct system.cwd path) process with
      | (none, process) => some (-1, process)
      | (some st, process) =>
          if !st.directory then
            some (returned (perform system (.unlink path) (unlinkAct system.cwd path) process))
          else
            match perform system (.opendir path) (opendirAct system.cwd path) process with
            | (none, process) => some (-1, process)
            | (some stream, process) =>
                match unlinkEntries system (dirUnlinkHierarchy system depth) path stream
                    { process with errno := 0 } with
                | none => none
                | some (fail, process) =>
                    if fail || process.errno < 0 then
                      let save := process.errno
                      let (_, process) := perform system .closedir streamAct process
                      some (-1, { process with errno := save })
                    else
                      match perform system .closedir streamAct process with
                      | (none, process) => some (-1, process)
                      | (some (), process) =>
                          some (returned
                            (perform system (.rmdir path) (rmdirAct system.cwd path) process))

/-- The loop over the entries of a directory, which goes on while `errno` is 0. -/
def permitEntries (system : System) (permitBelow : Bytes → Process → Option (Int × Process))
    (path : Bytes) : (stream : List Bytes) → Process → Option Process
  | [], process =>
      if process.errno ≠ 0 then some process
      else some (perform system .readdir streamAct process).2
  | name :: stream, process =>
      if process.errno ≠ 0 then some process
      else
        match perform system .readdir streamAct process with
        | (none, process) => some process
        | (some (), process) =>
            if name = dotDot ∨ name = dot then
              permitEntries system permitBelow path stream process
            else
              match permitBelow (joined path name) process with
              | none => none
              | some (result, process) =>
                  if result = 0 then
                    permitEntries system permitBelow path stream { process with errno := 0 }
                  else if process.errno = 0 then
                    permitEntries system permitBelow path stream { process with errno := -1 }
                  else permitEntries system permitBelow path stream process

def dirSetHierarchyPermissions (system : System) (uid gid dirMode fileMode : Int32) :
    (depth : Nat) → Bytes → Process → Option (Int × Process)
  | 0, _, _ => none
  | depth + 1, path, process =>
      match perform system (.lstat path) (lstatAct system.cwd path) process with
      | (none, process) => some (-1, process)
      | (some st, process) =>
          if st.link then some (0, process)
          else
            match perform system (.chown path)
                (changeAct system.cwd path (chowned uid gid) fun _ => rfl) process with
            | (none, process) => some (-1, process)
            | (some (), process) =>
                match perform system (.chmod path)
                    (changeAct system.cwd path
                      (chmodded (if st.directory then dirMode else fileMode)) fun _ => rfl)
                    process with
                | (none, process) => some (-1, process)
                | (some (), process) =>
                    if !st.directory then some (0, process)
                    else
                      match perform system (.opendir path) (opendirAct system.cwd path)
                          process with
                      | (none, process) => some (-1, process)
                      | (some stream, process) =>
                          match permitEntries system
                              (dirSetHierarchyPermissions system uid gid dirMode fileMode depth)
                              path stream { process with errno := 0 } with
                          | none => none
                          | some process =>
                              if process.errno ≠ 0 then
                                let save := process.errno
                                let (_, process) := perform system .closedir streamAct process
                                some (-1, { process with errno := save })
                              else
                                some (returned (perform system .closedir streamAct process))

end OpenRecovery.DirUtil
