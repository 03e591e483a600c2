import OpenRecovery.Unyaffs
import Mathlib

/-!
# Owners and permissions

Owners and permissions belong to the numbers of the files.  `chown` and `chmod` are given a path,
which the kernel walks from directory to directory, through symbolic links, also where the last
name is one.
-/

namespace OpenRecovery.Yaffs

/-! ## Attributes -/

/-- The permission bits with set-user-ID, set-group-ID and sticky, and the owner. -/
structure Attributes where
  mode : UInt32
  uid : UInt32
  gid : UInt32
  deriving DecidableEq

def permissionBits (mode : UInt32) : UInt32 :=
  mode &&& 0o7777

def SourceFile.attributes (file : SourceFile) : Attributes :=
  ⟨permissionBits file.mode, file.uid, file.gid⟩

/-- A change of owner takes the set-user-ID bit away, and the set-group-ID bit where the group may
execute the file. -/
def dropPrivileges (mode : UInt32) : UInt32 :=
  mode &&& ~~~(if mode &&& 0o010 = 0 then 0o4000 else 0o6000)

inductive Change where
  | owner (uid gid : UInt32)
  | permissions (mode : UInt32)
  deriving DecidableEq

/-- An owner of -1 is left as it is. -/
def Change.applyTo (isDirectory : Bool) (attributes : Attributes) : Change → Attributes
  | .owner uid gid =>
      { mode := if isDirectory then attributes.mode else dropPrivileges attributes.mode
        uid := if uid = 0xffffffff then attributes.uid else uid
        gid := if gid = 0xffffffff then attributes.gid else gid }
  | .permissions mode => { attributes with mode := permissionBits mode }

/-- What a list of changes leaves. -/
def applyChanges (isDirectory : Bool) (attributes : Attributes) (changes : List Change) :
    Attributes :=
  changes.foldl (Change.applyTo isDirectory) attributes

/-- The change made by path. -/
def Change.request (path : Bytes) : Change → AttributeRequest
  | .owner uid gid => .chown path uid gid
  | .permissions mode => .chmod path mode

def AttributeRequest.path : AttributeRequest → Bytes
  | .chown path _ _ => path
  | .chmod path _ => path

def AttributeRequest.change : AttributeRequest → Change
  | .chown _ uid gid => .owner uid gid
  | .chmod _ mode => .permissions mode

@[simp] theorem Change.request_path (path : Bytes) (change : Change) :
    (change.request path).path = path := by
  cases change <;> rfl

@[simp] theorem Change.request_change (path : Bytes) (change : Change) :
    (change.request path).change = change := by
  cases change <;> rfl

def Disk.isFileDirectory (disk : Disk) (number : Nat) : Bool :=
  disk.files number = .directory

/-! ## The walk -/

/-- The directory a path starts from. -/
def startOf (directory : List Bytes) (path : Bytes) : List Bytes :=
  if path.head? = some slash then [] else directory

/-- The names of a path, one after the other; `onLink` goes on behind a symbolic link, with the
names of its target before those left over. -/
def walkNames (disk : Disk) (onLink : List Bytes → List Bytes → Option (List Bytes)) :
    (directory names : List Bytes) → Option (List Bytes)
  | directory, [] => some directory
  | directory, name :: names =>
      if disk.isDirectory directory = false then none
      else if name = [] ∨ name = [46] then walkNames disk onLink directory names
      else if name = [46, 46] then walkNames disk onLink directory.dropLast names
      else
        match (disk.names (directory ++ [name])).map disk.files with
        | none => none
        | some (.link target) => onLink (startOf directory target) (splitPath target ++ names)
        | some _ => walkNames disk onLink (directory ++ [name]) names

/-- The walk with a limit on the number of links. -/
def walk (disk : Disk) : (links : Nat) → (directory names : List Bytes) → Option (List Bytes)
  | 0 => walkNames disk fun _ _ => none
  | links + 1 => walkNames disk (walk disk links)

section Extraction

variable (links : Nat) (cwd : List Bytes)

/-- The number of the file that a path leads to. -/
def follow (disk : Disk) (path : Bytes) : Option Nat :=
  (walk disk links (startOf cwd path) (splitPath path)).bind disk.names

/-- The owners and permissions of all files after `chown` or `chmod`, which may fail. -/
def performRequest (disk : Disk) (attributes : Nat → Attributes) (request : AttributeRequest) :
    Nat → Attributes :=
  match follow links cwd disk request.path with
  | none => attributes
  | some number => Function.update attributes number
      (request.change.applyTo (disk.isFileDirectory number) (attributes number))

/-- The loop of unyaffs with the owners and permissions.  The requests for an object are made as
soon as it is there; what a new file has before is in `attributes` already. -/
def extractAttributes : (fuel : Nat) → Bytes → Extraction → (Nat → Attributes) →
    Except Fault (Extraction × (Nat → Attributes))
  | 0, _, _, _ => .error .fuel
  | fuel + 1, input, state, attributes =>
      match readChunk input with
      | none => .ok (state, attributes)
      | some (data, rest) => do
          let (rest, next) ← processChunk cwd data rest state
          extractAttributes fuel rest next
            ((next.requests.drop state.requests.length).foldl
              (performRequest links cwd next.disk) attributes)

def unyaffsAttributes (argument image : Bytes) (disk : Disk) (attributes : Nat → Attributes) :
    Except Fault (Extraction × (Nat → Attributes)) :=
  let disk := if dirName argument = [] then disk else disk.mkdir (resolve cwd (dirName argument))
  if dirName argument = [] ∨ disk.names (resolve cwd (dirName argument)) = none then .error .exit
  else if (rootPath argument).length < sizeofRootPath then
    extractAttributes links cwd (image.length + 1) image
      (beginExtraction (rootPath argument) disk) attributes
  else .error .rootPath

/-- The attributes do not change what is extracted. -/
theorem extractAttributes_fst (fuel : Nat) (input : Bytes) (state : Extraction)
    (attributes : Nat → Attributes) :
    (extractAttributes links cwd fuel input state attributes).map Prod.fst =
      extractLoop cwd fuel input state := by
  induction fuel generalizing input state attributes with
  | zero => rfl
  | succ fuel ih =>
      rw [extractAttributes, extractLoop]
      cases readChunk input with
      | none => rfl
      | some chunk =>
          dsimp only
          cases processChunk cwd chunk.1 chunk.2 state with
          | error fault => rfl
          | ok result => exact ih result.1 result.2 _

theorem unyaffsAttributes_fst (argument image : Bytes) (disk : Disk)
    (attributes : Nat → Attributes) :
    (unyaffsAttributes links cwd argument image disk attributes).map Prod.fst =
      unyaffs cwd argument image disk := by
  rw [unyaffsAttributes, unyaffs]
  generalize (if dirName argument = [] then disk
    else disk.mkdir (resolve cwd (dirName argument))) = made
  split
  case isTrue => rfl
  case isFalse =>
      split
      case isTrue => exact extractAttributes_fst ..
      case isFalse => rfl

end Extraction

end OpenRecovery.Yaffs
