import OpenRecovery.MtdWriting
import Mathlib

/-!
# The system the recovery tools run on

The tools see a file system and a set of raw flash partitions.  Paths are keys
of a flat map: the model has no links, and directories appear only through the
listings that `opendir` and `readdir` give.  A descriptor is named by the path
it was opened with.
-/

namespace OpenRecovery

open Effects Mtd

/-- A NUL-terminated string without its terminator. -/
abbrev CString := List Char

/-- What holds of all elements of a list by evaluation. -/
theorem forall_mem_of_all
    {α : Type} {good : α → Prop} [DecidablePred good] {list : List α}
    (hall : (list.all fun element => decide (good element)) = true) :
    ∀ element ∈ list, good element := by
  simpa using hall

structure File where
  data : Bytes
  mode : Nat
  uid : Nat
  gid : Nat
  deriving DecidableEq

/-- The fields of `struct stat` that the tools look at. -/
structure FileStat where
  size : Nat
  mode : Nat
  uid : Nat
  gid : Nat
  isReg : Bool
  deriving DecidableEq

/-- A line of `/proc/mounts`, without its two last fields. -/
structure Mount where
  device : CString
  mountPoint : CString
  filesystem : CString
  flags : CString
  deriving DecidableEq

/-- Where output is written to. -/
inductive Descriptor where
  | file (path : CString)
  | stdout
  deriving DecidableEq

/-- The system calls of the tools.  `create` opens for writing and truncates,
`readdir` is a whole walk over a directory, and `openFiles` is the walk over
`/proc/<pid>/fd` that collects the targets of the links found there.
`readMounts` reads the beginning of `/proc/mounts`. -/
inductive SysOp where
  | stat (path : CString)
  | openRead (path : CString)
  | read (path : CString) (offset len : Nat)
  | create (path : CString)
  | write (fd : Descriptor) (data : Bytes)
  | close (fd : Descriptor)
  | chmod (path : CString) (mode : Nat)
  | chown (path : CString) (uid gid : Nat)
  | unlink (path : CString)
  | rename (source target : CString)
  | statfs (path : CString)
  | readdir (path : CString)
  | openFiles
  | scanPartitions
  | findPartition (name : CString)
  | openPartition (name : CString)
  | partitionInfo (name : CString)
  | writeSize (name : CString)
  | mtd (name : CString) (op : MtdOp)
  | readMounts (len : Nat)
  | mount (mount : Mount)
  | mountPartition (name mountPoint filesystem flags : CString)
  | umount (path : CString)

/-- `statfs` gives the block size and the number of free blocks,
`partitionInfo` the total size and the erase size, `writeSize` the size of a
page; `write` gives the number of bytes taken, zero or less on an error. -/
@[reducible] def SysOp.Reply : SysOp → Type
  | .stat _ => Option FileStat
  | .openRead _ => Bool
  | .read _ _ _ => Option Bytes
  | .create _ => Bool
  | .write _ _ => Int
  | .close _ => Bool
  | .chmod _ _ => Bool
  | .chown _ _ _ => Bool
  | .unlink _ => Bool
  | .rename _ _ => Bool
  | .statfs _ => Option (Nat × Nat)
  | .readdir _ => Option (List CString)
  | .openFiles => Option (List CString)
  | .scanPartitions => Int
  | .findPartition _ => Option MtdPartition
  | .openPartition _ => Bool
  | .partitionInfo _ => Option (Nat × Nat)
  | .writeSize _ => Option Nat
  | .mtd _ op => op.Reply
  | .readMounts _ => Option CString
  | .mount _ => Bool
  | .mountPartition _ _ _ _ => Bool
  | .umount _ => Bool

abbrev SysProg (α : Type) := Prog SysOp SysOp.Reply α

/-- Run a routine of `mtdutils.c` on the partition with the given name. -/
def onPartition {α : Type} (name : CString) (program : MtdProg α) : SysProg α :=
  program.translate fun op => Prog.ask (SysOp.mtd name op)

structure World where
  files : CString → Option File
  partitions : CString → Option (Σ partition : MtdPartition, Flash partition)
  stdout : Bytes
  mounts : List Mount := []

/-- A line of `/proc/mounts`. -/
def Mount.line (mount : Mount) : CString :=
  mount.device ++ ' ' :: (mount.mountPoint ++ ' ' :: (mount.filesystem ++
    ' ' :: (mount.flags ++ " 0 0\n".toList)))

/-- What `/proc/mounts` reads as. -/
def procMounts (mounts : List Mount) : CString :=
  mounts.flatMap Mount.line

/-- Unmounting takes the topmost, that is the latest mount away. -/
def unmountTop (path : CString) (mounts : List Mount) : List Mount :=
  (mounts.reverse.eraseP fun mount => mount.mountPoint = path).reverse

namespace World

def setFile (world : World) (path : CString) (file : Option File) : World :=
  { world with files := Function.update world.files path file }

def setFlash {partition : MtdPartition} (world : World) (name : CString)
    (flash : Flash partition) : World :=
  { world with partitions := Function.update world.partitions name (some ⟨partition, flash⟩) }

/-- What opening a file for writing leaves of it. -/
def truncated (world : World) (path : CString) : File :=
  match world.files path with
  | some file => { file with data := [] }
  | none => ⟨[], 0, 0, 0⟩

@[simp] theorem truncated_data (world : World) (path : CString) :
    (world.truncated path).data = [] := by
  unfold truncated
  split <;> rfl

/-- Append to what was written through a descriptor so far. -/
def append (world : World) : Descriptor → Bytes → World
  | .file path, data =>
      match world.files path with
      | some file => world.setFile path (some { file with data := file.data ++ data })
      | none => world
  | .stdout, data => { world with stdout := world.stdout ++ data }

@[simp] theorem setFile_files_self (world : World) (path : CString) (file : Option File) :
    (world.setFile path file).files path = file := by
  simp [setFile]

theorem setFile_files_ne
    (world : World) {path other : CString} (file : Option File) (hne : other ≠ path) :
    (world.setFile path file).files other = world.files other := by
  simp [setFile, hne]

@[simp] theorem setFile_partitions (world : World) (path : CString) (file : Option File) :
    (world.setFile path file).partitions = world.partitions := rfl

@[simp] theorem setFlash_files
    {partition : MtdPartition} (world : World) (name : CString) (flash : Flash partition) :
    (world.setFlash name flash).files = world.files := rfl

@[simp] theorem setFlash_partitions_self
    {partition : MtdPartition} (world : World) (name : CString) (flash : Flash partition) :
    (world.setFlash name flash).partitions name = some ⟨partition, flash⟩ := by
  simp [setFlash]

theorem setFlash_partitions_ne
    {partition : MtdPartition} (world : World) {name other : CString}
    (flash : Flash partition) (hne : other ≠ name) :
    (world.setFlash name flash).partitions other = world.partitions other := by
  simp [setFlash, hne]

@[simp] theorem setFlash_setFlash
    {partition : MtdPartition} (world : World) (name : CString)
    (first second : Flash partition) :
    (world.setFlash name first).setFlash name second = world.setFlash name second := by
  simp [setFlash]

theorem setFlash_eq_self
    {partition : MtdPartition} {world : World} {name : CString} {flash : Flash partition}
    (hflash : world.partitions name = some ⟨partition, flash⟩) :
    world.setFlash name flash = world := by
  rw [setFlash, ← hflash, Function.update_eq_self]

theorem setFile_eq_self
    {world : World} {path : CString} {file : Option File}
    (hfile : world.files path = file) :
    world.setFile path file = world := by
  rw [setFile, ← hfile, Function.update_eq_self]

@[simp] theorem setFile_setFile (world : World) (path : CString) (first second : Option File) :
    (world.setFile path first).setFile path second = world.setFile path second := by
  simp [setFile]

end World

/-- What the system decides outside the files and partitions: directory
listings, the files other processes hold open, free space, whether something can
be mounted or unmounted, and the block device and page size of a partition. -/
structure Env where
  readdir : World → CString → Option (List CString)
  openFiles : World → Option (List CString)
  statfs : World → CString → Option (Nat × Nat)
  canMount : World → Mount → Bool := fun _ _ => true
  canUmount : World → CString → Bool := fun _ _ => true
  blockDevice : CString → CString := fun _ => "/dev/block/mtdblock0".toList
  writeSize : CString → Nat := fun _ => 2048

/-- A system without directories, for examples. -/
def sampleEnv : Env where
  readdir _ _ := none
  openFiles _ := none
  statfs _ _ := none

/-- The reply to a request on a partition that does not exist. -/
def noDevice : (op : MtdOp) → op.Reply
  | .eccGetStats => (none : Option Nat)
  | .read _ => (none : Option Bytes)
  | .memGetBadBlock _ => (-1 : Int)
  | .memErase _ => false
  | .write _ _ => false

/-- `mount`. -/
def World.addMount (env : Env) (mount : Mount) (world : World) : Bool × World :=
  if env.canMount world mount then
    (true, { world with mounts := world.mounts ++ [mount] })
  else (false, world)

/-- The replies of a system on which no call fails without a reason. -/
def World.handle (env : Env) : (op : SysOp) → World → op.Reply × World
  | .stat path, world =>
      ((world.files path).map fun file =>
        ⟨file.data.length, file.mode, file.uid, file.gid, true⟩, world)
  | .openRead path, world => ((world.files path).isSome, world)
  | .read path offset len, world =>
      ((world.files path).map fun file => (file.data.drop offset).take len, world)
  | .create path, world => (true, world.setFile path (some (world.truncated path)))
  | .write fd data, world => (data.length, world.append fd data)
  | .close _, world => (true, world)
  | .chmod path mode, world =>
      match world.files path with
      | some file => (true, world.setFile path (some { file with mode := mode }))
      | none => (false, world)
  | .chown path uid gid, world =>
      match world.files path with
      | some file => (true, world.setFile path (some { file with uid := uid, gid := gid }))
      | none => (false, world)
  | .unlink path, world => ((world.files path).isSome, world.setFile path none)
  | .rename source target, world =>
      match world.files source with
      | some file =>
          if source = target then (true, world)
          else (true, (world.setFile source none).setFile target (some file))
      | none => (false, world)
  | .statfs path, world => (env.statfs world path, world)
  | .readdir path, world => (env.readdir world path, world)
  | .openFiles, world => (env.openFiles world, world)
  | .scanPartitions, world => (1, world)
  | .findPartition name, world => ((world.partitions name).map Sigma.fst, world)
  | .openPartition name, world => ((world.partitions name).isSome, world)
  | .partitionInfo name, world =>
      ((world.partitions name).map fun entry => (entry.1.size, entry.1.eraseSize), world)
  | .mtd name op, world =>
      match world.partitions name with
      | some ⟨_, flash⟩ =>
          ((Flash.handle op flash).1, world.setFlash name (Flash.handle op flash).2)
      | none => (noDevice op, world)
  | .writeSize name, world => ((world.partitions name).map fun _ => env.writeSize name, world)
  | .readMounts len, world => (some ((procMounts world.mounts).take len), world)
  | .mount mount, world => world.addMount env mount
  | .mountPartition name mountPoint filesystem flags, world =>
      match world.partitions name with
      | some _ => world.addMount env ⟨env.blockDevice name, mountPoint, filesystem, flags⟩
      | none => (false, world)
  | .umount path, world =>
      if (∃ mount ∈ world.mounts, mount.mountPoint = path) ∧ env.canUmount world path then
        (true, { world with mounts := unmountTop path world.mounts })
      else (false, world)

theorem handle_mtd
    (env : Env) {name : CString} {partition : MtdPartition} {world : World}
    {flash : Flash partition} (op : MtdOp)
    (hflash : world.partitions name = some ⟨partition, flash⟩) :
    World.handle env (.mtd name op) world =
      ((Flash.handle op flash).1, world.setFlash name (Flash.handle op flash).2) := by
  simp [World.handle, hflash]

theorem onPartition_run
    {α : Type} (env : Env) {name : CString} {partition : MtdPartition} {world : World}
    {flash : Flash partition} (program : MtdProg α)
    (hflash : world.partitions name = some ⟨partition, flash⟩) :
    (onPartition name program).run (World.handle env) world =
      ((program.run Flash.handle flash).1,
        world.setFlash name (program.run Flash.handle flash).2) := by
  unfold onPartition
  induction program generalizing world flash with
  | pure value => simp [Prog.translate, World.setFlash_eq_self hflash]
  | request op next ih =>
      rw [Prog.translate, Prog.ask_bind_eq, Prog.run_request, handle_mtd env op hflash,
        ih _ (World.setFlash_partitions_self ..), World.setFlash_setFlash, Prog.run_request]

/-- A routine of `mtdutils.c` acts on its partition alone. -/
theorem onPartition_safe
    {α : Type} {env : Env} {name : CString} {partition : MtdPartition}
    {program : MtdProg α} {flash : Flash partition} {world : World}
    {post : α → World → Prop} {crash : World → Prop}
    (hsafe : program.Safe (Machine.atomic Flash.handle)
      (fun value flash' => post value (world.setFlash name flash'))
      (fun flash' => crash (world.setFlash name flash')) flash) :
    (onPartition name program).Safe (Machine.atomic (World.handle env))
      post crash (world.setFlash name flash) := by
  have htranslate := @Prog.Safe.translate _ _ _ _ _ _ (Machine.atomic Flash.handle) _ _ _
      (fun op => Prog.ask (SysOp.mtd name op)) (Machine.atomic (World.handle env))
      (fun part => world.setFlash name part) ?_ _ _ hsafe
  · refine htranslate.mono ?_ ?_
    · rintro value after ⟨flash', rfl, hpost⟩
      exact hpost
    · rintro after ⟨flash', rfl, hcrash⟩
      exact hcrash
  · intro op part
    rw [Prog.ask, Prog.safe_request_atomic,
      handle_mtd env op (World.setFlash_partitions_self ..), World.setFlash_setFlash]
    exact ⟨.inl rfl, ⟨_, rfl, rfl⟩, .inr ⟨_, .inr ⟨_, rfl⟩, rfl⟩⟩

/-- The same for a program that only reads, from its deterministic run. -/
theorem onPartition_safe_run
    {α : Type} {env : Env} {name : CString} {partition : MtdPartition}
    {program : MtdProg α} {flash : Flash partition} {world : World} {value : α}
    {post : α → World → Prop} {crash : World → Prop}
    (hreads : program.Uses MtdOp.Reads)
    (hrun : program.run Flash.handle flash = (value, flash))
    (hpost : post value (world.setFlash name flash))
    (hcrash : crash (world.setFlash name flash)) :
    (onPartition name program).Safe (Machine.atomic (World.handle env))
      post crash (world.setFlash name flash) := by
  apply onPartition_safe
  have hsafe := @Prog.Uses.safe_run _ _ _ _ Flash.handle (fun _ _ _ => False) _
      (fun flash' => flash' = flash) _ flash hreads (by
      rintro op before hop rfl
      exact Flash.handle_reads hop _) (fun _ _ _ _ _ h => h.elim) rfl
  refine hsafe.mono ?_ ?_
  · rintro result after ⟨hresult, rfl⟩
    rw [hrun, Prod.mk.injEq] at hresult
    rw [hresult.1]
    exact hpost
  · rintro after rfl
    exact hcrash

end OpenRecovery
