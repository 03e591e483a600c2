import OpenRecovery.MountedRoots
import Mathlib

/-!
# What mounting leaves alone

Mounting and unmounting a root changes the list of mounts and nothing else, and
it gets stuck only when the table of mounted volumes overflows.
-/

namespace OpenRecovery

open Effects Mtd

/-- The requests made to mount and unmount. -/
def SysOp.Mounts : SysOp → Prop
  | .readMounts _ => True
  | .mount _ => True
  | .mountPartition _ _ _ _ => True
  | .umount _ => True
  | .scanPartitions => True
  | .findPartition _ => True
  | _ => False

/-- Two worlds that differ at most in their mounts. -/
def World.Remounted (before after : World) : Prop :=
  ∃ mounts, after = { before with mounts := mounts }

namespace World.Remounted

theorem refl (world : World) : Remounted world world :=
  ⟨world.mounts, rfl⟩

theorem trans
    {first second third : World} (hfirst : Remounted first second)
    (hsecond : Remounted second third) : Remounted first third := by
  obtain ⟨mounts, rfl⟩ := hfirst
  obtain ⟨mounts', rfl⟩ := hsecond
  exact ⟨mounts', rfl⟩

theorem files {before after : World} (h : Remounted before after) :
    after.files = before.files := by
  obtain ⟨mounts, rfl⟩ := h
  rfl

theorem partitions {before after : World} (h : Remounted before after) :
    after.partitions = before.partitions := by
  obtain ⟨mounts, rfl⟩ := h
  rfl

end World.Remounted

variable {build : Build} {env : Env} {world : World}

theorem addMount_remounted (mount : Mount) :
    World.Remounted world (world.addMount env mount).2 := by
  unfold World.addMount
  split
  · exact ⟨_, rfl⟩
  · exact .refl world

theorem handle_remounted {op : SysOp} (hop : op.Mounts) :
    World.Remounted world (World.handle env op world).2 := by
  cases op with
  | readMounts len => exact .refl world
  | scanPartitions => exact .refl world
  | findPartition name => exact .refl world
  | mount mount => exact addMount_remounted mount
  | mountPartition name mountPoint filesystem flags =>
      simp only [World.handle]
      split
      · exact addMount_remounted _
      · exact .refl world
  | umount path =>
      simp only [World.handle]
      split
      · exact ⟨_, rfl⟩
      · exact .refl world
  | _ => exact hop.elim

theorem run_remounted
    {α : Type} {program : SysProg α} (huses : program.Uses SysOp.Mounts) :
    World.Remounted world (program.run (World.handle env) world).2 := by
  induction program generalizing world with
  | pure value => exact .refl world
  | request op next ih => exact (handle_remounted huses.1).trans (ih _ (huses.2 _))

theorem call_mounts {op : SysOp} (hop : op.Mounts) : Prog.Uses SysOp.Mounts (call op).run :=
  Prog.uses_run_lift ⟨hop, fun _ => trivial⟩

theorem scanMountedVolumes_mounts : Prog.Uses SysOp.Mounts scanMountedVolumes.run := by
  refine Prog.uses_run_bind (call_mounts trivial) ?_
  rintro (_ | text)
  · trivial
  · simp only
    split_ifs
    · trivial
    · trivial

theorem mountMtdRoot_mounts (info : RootInfo) :
    Prog.Uses SysOp.Mounts (mountMtdRoot info).run := by
  unfold mountMtdRoot
  split
  · trivial
  · refine Prog.uses_run_bind (call_mounts trivial) fun _ => ?_
    refine Prog.uses_run_bind (call_mounts trivial) ?_
    rintro (_ | partition)
    · trivial
    · simp only
      split
      · refine Prog.uses_run_bind (call_mounts trivial) ?_
        rintro (_ | _)
        · refine Prog.uses_run_bind (call_mounts trivial) ?_
          rintro (_ | _)
          · trivial
          · trivial
        · trivial
      · trivial

theorem mountBlockRoot_mounts (info : RootInfo) (device : CString) :
    Prog.Uses SysOp.Mounts (mountBlockRoot info device).run := by
  unfold mountBlockRoot
  split
  · refine Prog.uses_run_bind (call_mounts trivial) ?_
    rintro (_ | _)
    · simp only [Bool.false_eq_true, if_false]
      split
      · trivial
      · refine Prog.uses_run_bind (call_mounts trivial) ?_
        rintro (_ | _)
        · trivial
        · trivial
    · trivial
  · trivial

theorem internalRootMounted_mounts (info : RootInfo) :
    Prog.Uses SysOp.Mounts (internalRootMounted info).run := by
  unfold internalRootMounted
  split
  · trivial
  · refine Prog.uses_run_bind scanMountedVolumes_mounts ?_
    rintro (_ | volumes)
    · trivial
    · simp only
      split
      · trivial
      · trivial

theorem ensureRootPathMounted_mounts (rootPath : CString) :
    Prog.Uses SysOp.Mounts (ensureRootPathMounted build rootPath).run := by
  unfold ensureRootPathMounted
  split
  · trivial
  · refine Prog.uses_run_bind (internalRootMounted_mounts _) fun result => ?_
    split_ifs
    · trivial
    · split
      · exact mountMtdRoot_mounts _
      · exact mountBlockRoot_mounts _ _
      · trivial

theorem ensureRootPathUnmounted_mounts (rootPath : CString) :
    Prog.Uses SysOp.Mounts (ensureRootPathUnmounted build rootPath).run := by
  unfold ensureRootPathUnmounted
  split
  · trivial
  · split
    · trivial
    · refine Prog.uses_run_bind scanMountedVolumes_mounts ?_
      rintro (_ | volumes)
      · trivial
      · simp only
        split
        · trivial
        · refine Prog.uses_run_bind (call_mounts trivial) ?_
          rintro (_ | _)
          · trivial
          · trivial

/-! ## Mounting does not get stuck -/

/-- Whatever the replies, the program returns. -/
def NeverStuck {α : Type} (program : Checked α) : Prop :=
  Prog.Returns (fun result => ∃ value, result = .ok value) program.run

namespace NeverStuck

variable {α β : Type}

theorem pure (value : α) : NeverStuck (Pure.pure value : Checked α) :=
  ⟨value, rfl⟩

theorem lift_bind
    {program : SysProg α} {rest : α → Checked β} (hrest : ∀ value, NeverStuck (rest value)) :
    NeverStuck (ExceptT.lift program >>= rest) := by
  unfold NeverStuck
  rw [ExceptT.run_bind, ExceptT.run_lift, map_eq_pure_bind, bind_assoc]
  exact (Prog.returns_trivial program).bind fun value _ => hrest value

theorem call_bind
    {op : SysOp} {rest : op.Reply → Checked β} (hrest : ∀ reply, NeverStuck (rest reply)) :
    NeverStuck (call op >>= rest) :=
  lift_bind hrest

theorem exec_ok {program : Checked α} (hnever : NeverStuck program) (env : Env) (world : World) :
    ∃ value, (Prog.exec (World.handle env) program world).1 = .ok value :=
  hnever.run_value world

end NeverStuck

theorem mountMtdRoot_neverStuck (info : RootInfo) : NeverStuck (mountMtdRoot info) := by
  unfold mountMtdRoot
  split
  · exact .pure _
  · refine .call_bind fun _ => .call_bind ?_
    rintro (_ | partition)
    · exact .pure _
    · simp only
      split
      · refine .call_bind ?_
        rintro (_ | _)
        · refine .call_bind ?_
          rintro (_ | _)
          · exact .pure _
          · exact .pure _
        · exact .pure _
      · exact .pure _

theorem mountBlockRoot_neverStuck (info : RootInfo) (device : CString) :
    NeverStuck (mountBlockRoot info device) := by
  unfold mountBlockRoot
  split
  · refine .call_bind ?_
    rintro (_ | _)
    · simp only [Bool.false_eq_true, if_false]
      split
      · exact .pure _
      · refine .call_bind ?_
        rintro (_ | _)
        · exact .pure _
        · exact .pure _
    · exact .pure _
  · exact .pure _

/-- What the scan makes of a list of mounts. -/
def scannedVolumes (mounts : List Mount) : List Mount :=
  scanLines ((procMounts mounts).take mountsSize).length ((procMounts mounts).take mountsSize)

theorem scanMountedVolumes_exec_eq (env : Env) (world : World) :
    Prog.exec (World.handle env) scanMountedVolumes world =
      (if (scannedVolumes world.mounts).length ≤ volumesAllocd then
        .ok (some (scannedVolumes world.mounts)) else .error .outOfBounds, world) := by
  have hread : Prog.exec (World.handle env) (call (.readMounts mountsSize)) world =
      (.ok (some ((procMounts world.mounts).take mountsSize)), world) := rfl
  rw [scanMountedVolumes, Prog.exec_bind_ok hread]
  simp only
  rw [← scannedVolumes]
  by_cases hfits : (scannedVolumes world.mounts).length ≤ volumesAllocd
  · rw [if_pos hfits, if_pos hfits]
    rfl
  · rw [if_neg hfits, if_neg hfits]
    rfl

theorem scanFits_iff_scanned :
    ScanFits world ↔ (scannedVolumes world.mounts).length ≤ volumesAllocd := by
  constructor
  · intro hfits
    have hresult := hfits sampleEnv
    rw [scanMountedVolumes_exec_eq] at hresult
    by_contra hlong
    rw [if_neg hlong] at hresult
    exact hresult rfl
  · intro hshort env
    rw [scanMountedVolumes_exec_eq, if_pos hshort]
    exact fun h => (nomatch h)

theorem ScanFits.exec (hfits : ScanFits world) (env : Env) :
    Prog.exec (World.handle env) scanMountedVolumes world =
      (.ok (some (scannedVolumes world.mounts)), world) := by
  rw [scanMountedVolumes_exec_eq, if_pos ((scanFits_iff_scanned).mp hfits)]

theorem ScanFits.ensureRootPathMounted_exec
    (hfits : ScanFits world) (env : Env) (build : Build) (rootPath : CString) :
    ∃ result after,
      Prog.exec (World.handle env) (ensureRootPathMounted build rootPath) world =
        (.ok result, after) ∧ World.Remounted world after := by
  have hframe := @run_remounted env world _ _
      (@ensureRootPathMounted_mounts build rootPath)
  have hok : ∃ result,
      (Prog.exec (World.handle env) (ensureRootPathMounted build rootPath) world).1 =
        .ok result := by
    unfold ensureRootPathMounted
    split
    · exact ⟨_, rfl⟩
    case h_2 info _ =>
      have hmounted : ∃ result,
          Prog.exec (World.handle env) (internalRootMounted info) world =
            (.ok result, world) := by
        unfold internalRootMounted
        split
        · exact ⟨_, rfl⟩
        · rw [Prog.exec_bind_ok (hfits.exec env)]
          simp only
          split
          · exact ⟨_, rfl⟩
          · exact ⟨_, rfl⟩
      obtain ⟨result, hexec⟩ := hmounted
      rw [Prog.exec_bind_ok hexec]
      split_ifs
      · exact ⟨_, rfl⟩
      · split
        · exact (mountMtdRoot_neverStuck info).exec_ok env world
        · exact (mountBlockRoot_neverStuck info _).exec_ok env world
        · exact ⟨_, rfl⟩
  obtain ⟨result, hresult⟩ := hok
  exact ⟨result, _, Prod.ext hresult rfl, hframe⟩

theorem scanFits_congr {after : World} (hmounts : after.mounts = world.mounts) :
    ScanFits after ↔ ScanFits world := by
  rw [scanFits_iff_scanned, scanFits_iff_scanned, hmounts]

theorem ScanFits.setFlash
    {partition : MtdPartition} (hfits : ScanFits world) (name : CString) (flash : Flash partition) :
    ScanFits (world.setFlash name flash) :=
  (@scanFits_congr world (world.setFlash name flash) rfl).mpr hfits

/-- Mounting a root changes at most the mounts. -/
theorem ensureRootPathMounted_remounted (rootPath : CString) :
    World.Remounted world
      (Prog.exec (World.handle env) (ensureRootPathMounted build rootPath) world).2 :=
  run_remounted (ensureRootPathMounted_mounts rootPath)


theorem getRootInfoForPath_cache (build : Build) :
    getRootInfoForPath build "CACHE:".toList = some (yaffsRoot "CACHE:" "cache" "/cache") := by
  rcases build with ⟨_ | _, _ | _⟩ <;> decide

/-- If the cache was looked for, the table of mounted volumes was large enough. -/
theorem scanFits_of_mounted
    {result : Int} {after : World}
    (hexec : Prog.exec (World.handle env) (ensureRootPathMounted build "CACHE:".toList) world =
      (.ok result, after)) : ScanFits world := by
  unfold ensureRootPathMounted at hexec
  simp only [getRootInfoForPath_cache] at hexec
  obtain ⟨mounted, middle, hmounted, -⟩ := Prog.exec_bind_eq_ok hexec
  unfold internalRootMounted at hmounted
  simp only [yaffsRoot] at hmounted
  obtain ⟨volumes, state, hscan, -⟩ := Prog.exec_bind_eq_ok hmounted
  rw [scanMountedVolumes_exec_eq] at hscan
  rw [scanFits_iff_scanned]
  by_contra hlong
  rw [if_neg hlong] at hscan
  cases hscan

/-- The cache shows up in the table of mounted volumes. -/
def CacheVisible (world : World) : Prop :=
  ScanFits world ∧
    findMountedVolumeByMountPoint (scannedVolumes world.mounts) "/cache".toList ≠ none

theorem CacheVisible.congr
    {after : World} (hvisible : CacheVisible world) (hmounts : after.mounts = world.mounts) :
    CacheVisible after := by
  rw [CacheVisible, scanFits_congr hmounts, hmounts]
  exact hvisible

/-- A root on the cache need not be mounted again. -/
theorem CacheVisible.ensureRootPathMounted_exec
    (hvisible : CacheVisible world) (env : Env) {rootPath : CString}
    (hroot : getRootInfoForPath build rootPath = some (yaffsRoot "CACHE:" "cache" "/cache")) :
    Prog.exec (World.handle env) (ensureRootPathMounted build rootPath) world =
      (.ok 0, world) := by
  obtain ⟨volume, hvolume⟩ := Option.ne_none_iff_exists'.mp hvisible.2
  have hmounted : Prog.exec (World.handle env)
      (internalRootMounted (yaffsRoot "CACHE:" "cache" "/cache")) world = (.ok 0, world) := by
    unfold internalRootMounted
    simp only [yaffsRoot]
    rw [Prog.exec_bind_ok (hvisible.1.exec env)]
    simp only [hvolume]
    rfl
  unfold ensureRootPathMounted
  simp only [hroot]
  rw [Prog.exec_bind_ok hmounted]
  rfl

/-- The cache can be mounted, and shows up then. -/
def CacheAvailable (build : Build) (env : Env) (world : World) : Prop :=
  ∃ after, Prog.exec (World.handle env) (ensureRootPathMounted build "CACHE:".toList) world =
    (.ok 0, after) ∧ CacheVisible after

/-- Where nothing can be mounted or unmounted, nothing changes. -/
theorem run_eq_self
    (hmount : ∀ world mount, env.canMount world mount = false)
    (humount : ∀ world path, env.canUmount world path = false)
    {α : Type} {program : SysProg α} (huses : program.Uses SysOp.Mounts) :
    (program.run (World.handle env) world).2 = world := by
  have hadd : ∀ mount, (world.addMount env mount).2 = world := by
    intro mount
    rw [World.addMount, if_neg (by simp [hmount])]
  have hstep : ∀ op : SysOp, op.Mounts → (World.handle env op world).2 = world := by
    intro op hop
    cases op with
    | readMounts len => rfl
    | scanPartitions => rfl
    | findPartition name => rfl
    | mount mount => exact hadd mount
    | mountPartition name mountPoint filesystem flags =>
        simp only [World.handle]
        split
        · exact hadd _
        · rfl
    | umount path =>
        simp only [World.handle]
        rw [if_neg (by simp [humount])]
    | _ => exact hop.elim
  induction program with
  | pure value => rfl
  | request op next ih =>
      rw [Prog.run_request, hstep op huses.1]
      exact ih _ (huses.2 _)

end OpenRecovery
