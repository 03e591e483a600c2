import OpenRecovery.FileContents
import Mathlib

/-!
# `roots.c` and `mounts.c`

A root names a device with its partition and its mount point.  What is mounted
is read from `/proc/mounts` into a table of 32 volumes, which every call builds
again.  The permissions of a mount point, which `mtd_mount_partition` repairs,
are left out.
-/

namespace OpenRecovery

open Effects Mtd

/-! ## The table of mounted volumes -/

/-- One `%s` conversion of `sscanf` with a maximal width. -/
def scanWord (width : Nat) (text : CString) : Option (CString × CString) :=
  let start := text.dropWhile isSpace
  let word := (start.take width).takeWhile fun c => !isSpace c
  if word = [] then none else some (word, start.drop word.length)

/-- `sscanf(bufp, "%63s %63s %63s %127s", ...)`, if it matches four times. -/
def scanFields (text : CString) : Option Mount := do
  let (device, text) ← scanWord 63 text
  let (mountPoint, text) ← scanWord 63 text
  let (filesystem, text) ← scanWord 63 text
  let (flags, _) ← scanWord 127 text
  some ⟨device, mountPoint, filesystem, flags⟩

/-- Go to the next line. -/
def eatLine (text : CString) : CString :=
  (text.dropWhile (· ≠ '\n')).drop 1

/-- The loop of `scan_mounted_volumes`. -/
def scanLines : (fuel : Nat) → (text : CString) → List Mount
  | 0, _ => []
  | fuel + 1, text =>
      if text = [] then []
      else
        match scanFields text with
        | some volume => volume :: scanLines fuel (eatLine text)
        | none => scanLines fuel (eatLine text)

/-- Number of bytes of `/proc/mounts` that are read. -/
def mountsSize : Nat := 2047

/-- Number of entries of the table. -/
def volumesAllocd : Nat := 32

/-- `scan_mounted_volumes`: the volumes, or nothing if the file cannot be read. -/
def scanMountedVolumes : Checked (Option (List Mount)) := do
  match ← call (.readMounts mountsSize) with
  | none => pure none
  | some text =>
      let volumes := scanLines text.length text
      if volumes.length ≤ volumesAllocd then pure (some volumes)
      else throw .outOfBounds

def findMountedVolumeByMountPoint (volumes : List Mount) (mountPoint : CString) : Option Mount :=
  volumes.find? fun volume => volume.mountPoint = mountPoint

/-- `unmount_mounted_volume`. -/
def unmountMountedVolume (volume : Mount) : Checked Int := do
  if ← call (.umount volume.mountPoint) then pure 0 else pure (-1)

/-! ## Roots -/

inductive RootDevice where
  | mtd
  | block (path : CString)
  deriving DecidableEq

inductive RootFilesystem where
  | raw
  | packageFile
  | named (filesystem : CString)
  deriving DecidableEq

/-- `RootInfo`; a null pointer is `none`. -/
structure RootInfo where
  name : CString
  device : Option RootDevice
  device2 : Option CString
  partitionName : Option CString
  mountPoint : Option CString
  filesystem : Option RootFilesystem
  deriving DecidableEq

/-- A raw MTD partition that is not mounted. -/
def rawRoot (name partitionName : String) : RootInfo :=
  ⟨name.toList, some .mtd, none, some partitionName.toList, none, some .raw⟩

/-- An MTD partition with a file system. -/
def yaffsRoot (name partitionName mountPoint : String) : RootInfo :=
  ⟨name.toList, some .mtd, none, some partitionName.toList, some mountPoint.toList,
    some (.named "yaffs2".toList)⟩

/-- The build options that the table of roots depends on. -/
structure Build where
  lite : Bool
  haveCust : Bool
  deriving DecidableEq

def gRoots (build : Build) : List RootInfo :=
  [ rawRoot "BOOT:" "boot",
    yaffsRoot "CACHE:" "cache" "/cache",
    yaffsRoot "DATA:" "userdata" "/data",
    rawRoot "MISC:" "misc",
    ⟨"PACKAGE:".toList, none, none, none, none, some .packageFile⟩,
    ⟨"RECOVERY:".toList, some .mtd, none, some "recovery".toList, some "/".toList, some .raw⟩,
    ⟨"SDCARD:".toList, some (.block "/dev/block/mmcblk0p1".toList),
      some "/dev/block/mmcblk0".toList, none, some "/sdcard".toList,
      some (.named "vfat".toList)⟩ ] ++
  (if build.lite then []
  else [⟨"SDDATA:".toList, some (.block "/dev/block/mmcblk0p2".toList), none, none,
    some "/sddata".toList, some (.named "ext2".toList)⟩]) ++
  [ yaffsRoot "SYSTEM:" "system" "/system",
    rawRoot "MBM:" "mbm",
    rawRoot "BPLOADER:" "bploader",
    rawRoot "CDT:" "cdt",
    rawRoot "LBL:" "lbl",
    rawRoot "BPSW:" "bpsw",
    ⟨"TMP:".toList, none, none, none, some "/tmp".toList, none⟩ ] ++
  (if build.haveCust then [yaffsRoot "CUST:" "cust" "/cust"] else [])

section Roots

variable (build : Build)

/-- `get_root_info_for_path`: compare up to the first colon. -/
def getRootInfoForPath (rootPath : CString) : Option RootInfo :=
  if ':' ∈ rootPath then
    let root := rootPath.takeWhile (· ≠ ':') ++ [':']
    (gRoots build).find? fun info => info.name.take root.length = root
  else none

/-- `translate_root_path` with a buffer of `outBufLen` bytes. -/
def translateRootPath (rootPath : CString) (outBufLen : Nat) : Option CString :=
  if outBufLen < 1 then none
  else
    match getRootInfoForPath build rootPath with
    | none => none
    | some info =>
        match info.mountPoint with
        | none => none
        | some mountPoint =>
            let path := (rootPath.drop info.name.length).dropWhile (· = '/')
            if outBufLen < mountPoint.length + 1 + path.length + 1 then none
            else if mountPoint.getLast? = some '/' then some (mountPoint ++ path)
            else some (mountPoint ++ '/' :: path)

/-- `internal_root_mounted`. -/
def internalRootMounted (info : RootInfo) : Checked Int :=
  match info.mountPoint with
  | none => pure (-1)
  | some mountPoint => do
      match ← scanMountedVolumes with
      | none => pure (-1)
      | some volumes =>
          match findMountedVolumeByMountPoint volumes mountPoint with
          | some _ => pure 0
          | none => pure (-1)

/-- `mtd_mount_partition`: read-only if it cannot be written to. -/
def mtdMountPartition (name mountPoint filesystem : CString) : Checked Int := do
  if ← call (.mountPartition name mountPoint filesystem "rw,nodev,noatime,nodiratime".toList) then
    pure 0
  else if ← call (.mountPartition name mountPoint filesystem
      "ro,nodev,noatime,nodiratime".toList) then
    pure 0
  else pure (-1)

/-- Mount the partition of a root.  Nothing can be mounted without a mount
point, or with a file system that only marks the root. -/
def mountMtdRoot (info : RootInfo) : Checked Int :=
  match info.partitionName with
  | none => pure (-1)
  | some name => do
      let _ ← call .scanPartitions
      match ← call (.findPartition name) with
      | none => pure (-1)
      | some _ =>
          match info.mountPoint, info.filesystem with
          | some mountPoint, some (.named filesystem) =>
              mtdMountPartition name mountPoint filesystem
          | _, _ => pure (-1)

/-- Mount a block device, or the second one if the first does not work. -/
def mountBlockRoot (info : RootInfo) (device : CString) : Checked Int :=
  match info.mountPoint, info.filesystem with
  | some mountPoint, some (.named filesystem) => do
      if ← call (.mount ⟨device, mountPoint, filesystem, "rw".toList⟩) then pure 0
      else
        match info.device2 with
        | none => pure (-1)
        | some device2 =>
            if ← call (.mount ⟨device2, mountPoint, filesystem, "rw".toList⟩) then pure 0
            else pure (-1)
  | _, _ => pure (-1)

/-- `ensure_root_path_mounted`. -/
def ensureRootPathMounted (rootPath : CString) : Checked Int :=
  match getRootInfoForPath build rootPath with
  | none => pure (-1)
  | some info => do
      if 0 ≤ (← internalRootMounted info) then pure 0
      else
        match info.device with
        | some .mtd => mountMtdRoot info
        | some (.block device) => mountBlockRoot info device
        | none => pure (-1)

/-- `ensure_root_path_unmounted`. -/
def ensureRootPathUnmounted (rootPath : CString) : Checked Int :=
  match getRootInfoForPath build rootPath with
  | none => pure (-1)
  | some info =>
      match info.mountPoint with
      | none => pure 0
      | some mountPoint => do
          match ← scanMountedVolumes with
          | none => pure (-1)
          | some volumes =>
              match findMountedVolumeByMountPoint volumes mountPoint with
              | none => pure 0
              | some volume => unmountMountedVolume volume

/-- `get_root_mtd_partition`, with the name of the partition. -/
def getRootMtdPartition (rootPath : CString) : SysProg (Option (CString × MtdPartition)) :=
  match getRootInfoForPath build rootPath with
  | some ⟨_, some .mtd, _, some name, _, _⟩ => do
      let _ ← Prog.ask SysOp.scanPartitions
      match ← Prog.ask (SysOp.findPartition name) with
      | some partition => pure (some (name, partition))
      | none => pure none
  | _ => pure none

/-- The erasure in `format_root_device`. -/
def eraseAll (partition : MtdPartition) : MtdProg Int := do
  let (erased, ctx) ← mtdEraseBlocks partition mtdWritePartition (-1)
  if erased = -1 then do
    let _ ← mtdWriteClose partition ctx
    pure (-1)
  else do
    if (← mtdWriteClose partition ctx) ≠ 0 then pure (-1) else pure 0

/-- Erase the partition of a root that has one, after it was unmounted. -/
def formatMtd (info : RootInfo) : Checked Int :=
  match info.partitionName with
  | none => throw .outOfBounds
  | some name => do
      let _ ← call .scanPartitions
      match ← call (.findPartition name) with
      | none => pure (-1)
      | some partition =>
          if info.filesystem = some .raw ∨ info.filesystem = some (.named "yaffs2".toList) then
            if ← call (.openPartition name) then
              ExceptT.lift (onPartition name (eraseAll partition))
            else pure (-1)
          else pure (-1)

/-- A root without a mount point need not be unmounted. -/
def unmountForFormat (root : CString) (info : RootInfo) : Checked Int :=
  if info.mountPoint = none then pure 0 else ensureRootPathUnmounted build root

/-- `format_root_device`. -/
def formatRootDevice (root : CString) : Checked Int :=
  if root.dropWhile (· ≠ ':') ≠ [':'] then pure (-1)
  else
    match getRootInfoForPath build root with
    | none => pure (-1)
    | some info =>
        match info.device with
        | none => pure (-1)
        | some device => do
            let ret ← unmountForFormat build root info
            if ret < 0 then pure ret
            else
              match device with
              | .mtd => formatMtd info
              | .block _ => pure (-1)

end Roots

end OpenRecovery
