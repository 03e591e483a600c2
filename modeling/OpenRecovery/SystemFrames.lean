import OpenRecovery.ApplyPatch
import Mathlib

/-!
# What the parts of `applypatch` leave alone

A request that stays within a set of files and a set of partitions changes
nothing else.  Each routine is bounded by such sets, whatever the system
replies: loading reads only, saving touches one file, a decoder touches the file
it writes to.
-/

namespace OpenRecovery

open Effects Mtd

/-- The request changes at most the given files and partitions. -/
def SysOp.Within (files partitions : Set CString) : SysOp → Prop
  | .create path => path ∈ files
  | .write (.file path) _ => path ∈ files
  | .write .stdout _ => False
  | .chmod path _ => path ∈ files
  | .chown path _ _ => path ∈ files
  | .unlink path => path ∈ files
  | .rename source target => source ∈ files ∧ target ∈ files
  | .mtd name op => op.Reads ∨ name ∈ partitions
  | .mount _ => False
  | .mountPartition _ _ _ _ => False
  | .umount _ => False
  | _ => True

/-- Outside the given files and partitions the two worlds agree. -/
structure World.Agrees (files partitions : Set CString) (before after : World) : Prop where
  files : ∀ path ∉ files, after.files path = before.files path
  partitions : ∀ name ∉ partitions, after.partitions name = before.partitions name
  stdout : after.stdout = before.stdout
  mounts : after.mounts = before.mounts

namespace World.Agrees

variable {files files' partitions partitions' : Set CString} {first second third : World}

theorem refl (world : World) : Agrees files partitions world world :=
  ⟨fun _ _ => rfl, fun _ _ => rfl, rfl, rfl⟩

theorem trans
    (hfirst : Agrees files partitions first second)
    (hsecond : Agrees files partitions second third) :
    Agrees files partitions first third where
  files path hpath := (hsecond.files path hpath).trans (hfirst.files path hpath)
  partitions name hname := (hsecond.partitions name hname).trans (hfirst.partitions name hname)
  stdout := hsecond.stdout.trans hfirst.stdout
  mounts := hsecond.mounts.trans hfirst.mounts

theorem mono
    (hagrees : Agrees files partitions first second) (hfiles : files ⊆ files')
    (hpartitions : partitions ⊆ partitions') : Agrees files' partitions' first second where
  files path hpath := hagrees.files path fun h => hpath (hfiles h)
  partitions name hname := hagrees.partitions name fun h => hname (hpartitions h)
  stdout := hagrees.stdout
  mounts := hagrees.mounts

theorem eq (hagrees : Agrees ∅ ∅ first second) : second = first := by
  obtain ⟨hfiles, hpartitions, hstdout, hmounts⟩ := hagrees
  cases first
  cases second
  congr
  · exact funext fun path => hfiles path (Set.notMem_empty path)
  · exact funext fun name => hpartitions name (Set.notMem_empty name)

theorem setFile {world : World} {path : CString} (hpath : path ∈ files) (file : Option File) :
    Agrees files partitions world (world.setFile path file) where
  files _ hother := setFile_files_ne _ _ fun h => hother (h ▸ hpath)
  partitions _ _ := rfl
  stdout := rfl
  mounts := rfl

theorem append {world : World} {path : CString} (hpath : path ∈ files) (data : Bytes) :
    Agrees files partitions world (world.append (.file path) data) := by
  simp only [World.append]
  split
  · exact setFile hpath _
  · exact refl _

theorem setFlash
    {world : World} {name : CString} {partition : MtdPartition} (flash : Flash partition)
    (hname : name ∈ partitions) : Agrees files partitions world (world.setFlash name flash) where
  files _ _ := rfl
  partitions _ hother := setFlash_partitions_ne _ _ fun h => hother (h ▸ hname)
  stdout := rfl
  mounts := rfl

end World.Agrees

variable {files partitions : Set CString}

theorem handle_agrees
    (env : Env) {op : SysOp} (hop : op.Within files partitions) (world : World) :
    World.Agrees files partitions world (World.handle env op world).2 := by
  cases op with
  | create path => exact .setFile hop _
  | write fd data =>
      cases fd with
      | file path => exact .append hop data
      | stdout => exact hop.elim
  | chmod path mode =>
      simp only [World.handle]
      split
      · exact .setFile hop _
      · exact .refl _
  | chown path uid gid =>
      simp only [World.handle]
      split
      · exact .setFile hop _
      · exact .refl _
  | unlink path => exact .setFile hop _
  | rename source target =>
      simp only [World.handle]
      split
      · split_ifs
        · exact .refl _
        · exact (World.Agrees.setFile hop.1 _).trans (.setFile hop.2 _)
      · exact .refl _
  | mtd name op =>
      simp only [World.handle]
      split
      next hflash =>
        rcases hop with hreads | hname
        · rw [Flash.handle_reads hreads, World.setFlash_eq_self hflash]
          exact .refl _
        · exact .setFlash _ hname
      next => exact .refl _
  | mount mount => exact hop.elim
  | mountPartition name mountPoint filesystem flags => exact hop.elim
  | umount path => exact hop.elim
  | _ => exact .refl _

theorem run_agrees
    (env : Env) {α : Type} {program : SysProg α}
    (huses : program.Uses (SysOp.Within files partitions)) (world : World) :
    World.Agrees files partitions world (program.run (World.handle env) world).2 := by
  have hsafe := @Prog.Uses.safe _ _ _ _ (Machine.atomic (World.handle env)) _
      (World.Agrees files partitions world) _ _ huses (by
      intro op before reply after hop hbefore hstep
      obtain ⟨rfl, rfl⟩ := Prod.mk.inj hstep
      exact hbefore.trans (handle_agrees env hop before)) (fun _ _ _ _ _ h => h.elim)
      (.refl world)
  exact hsafe.run_post

theorem exec_agrees
    (env : Env) {α : Type} {program : Checked α}
    (huses : Prog.Uses (SysOp.Within files partitions) program.run) (world : World) :
    World.Agrees files partitions world (Prog.exec (World.handle env) program world).2 :=
  run_agrees env huses world

/-! ## The routines -/

theorem call_within {op : SysOp} (hop : op.Within files partitions) :
    Prog.Uses (SysOp.Within files partitions) (call op).run :=
  Prog.uses_run_lift ⟨hop, fun _ => trivial⟩

theorem onPartition_reads
    {α : Type} {program : MtdProg α} (name : CString) (hreads : program.Uses MtdOp.Reads) :
    (onPartition name program).Uses (SysOp.Within files partitions) :=
  hreads.translate fun _ hop => ⟨.inl hop, fun _ => trivial⟩

theorem onPartition_within
    {α : Type} (program : MtdProg α) {name : CString} (hname : name ∈ partitions) :
    (onPartition name program).Uses (SysOp.Within files partitions) := by
  have huses : program.Uses fun _ => True := by
    induction program with
    | pure value => trivial
    | request op next ih => exact ⟨trivial, ih⟩
  exact huses.translate fun _ _ => ⟨.inr hname, fun _ => trivial⟩

theorem openMtd_within (name : CString) :
    (openMtd name).Uses (SysOp.Within files partitions) := by
  refine ⟨trivial, fun _ => ⟨trivial, ?_⟩⟩
  rintro (_ | partition)
  · trivial
  · refine ⟨trivial, ?_⟩
    rintro (_ | _)
    · trivial
    · trivial

theorem readNext_within
    (name : CString) (partition : MtdPartition) (ctx : MtdReadContext) (next : Nat) :
    (readNext name partition ctx next).Uses (SysOp.Within files partitions) := by
  unfold readNext
  split_ifs
  · exact onPartition_reads name (mtdReadData_reads _ _ _)
  · trivial

section Loading

variable (lib : Library) (sha : Bytes → Digest)

theorem loadPairs_within
    (name : CString) (partition : MtdPartition) (pairs : List (Nat × Option CString))
    (ctx : MtdReadContext) (data : Bytes) :
    Prog.Uses (SysOp.Within files partitions) (loadPairs sha name partition pairs ctx data).run := by
  induction pairs generalizing ctx data with
  | nil => trivial
  | cons pair rest ih =>
      obtain ⟨size, sha1sum⟩ := pair
      rw [loadPairs]
      refine Prog.uses_run_bind (Prog.uses_run_lift (readNext_within _ _ _ _)) ?_
      rintro ⟨_ | bytes, ctx⟩
      · trivial
      · simp only
        split_ifs
        · trivial
        · cases sha1sum with
          | none => trivial
          | some str =>
              simp only
              split
              · trivial
              · split_ifs
                · trivial
                · exact ih _ _

theorem loadSorted_within
    (name : CString) (sorted : List (Nat × Option CString)) (file : FileContents) :
    Prog.Uses (SysOp.Within files partitions) (loadSorted lib sha name sorted file).run := by
  unfold loadSorted
  refine Prog.uses_run_bind (Prog.uses_run_lift (openMtd_within _)) ?_
  rintro (_ | partition)
  · trivial
  · simp only
    split
    · trivial
    · split_ifs
      · refine Prog.uses_run_bind (loadPairs_within sha _ _ _ _ _) ?_
        rintro ⟨_ | data, size⟩
        · trivial
        · trivial
      · trivial

theorem loadMTDContents_within (filename : CString) (file : FileContents) :
    Prog.Uses (SysOp.Within files partitions) (loadMTDContents lib sha filename file).run := by
  unfold loadMTDContents
  split
  · trivial
  · split
    · trivial
    · trivial
    · exact loadSorted_within lib sha _ _ _

/-- Loading reads only. -/
theorem loadFileContents_within (filename : CString) (file : FileContents) :
    Prog.Uses (SysOp.Within files partitions) (loadFileContents lib sha filename file).run := by
  unfold loadFileContents
  simp only
  split_ifs
  · exact loadMTDContents_within lib sha filename _
  · refine Prog.uses_run_bind (call_within trivial) ?_
    rintro (_ | st)
    · trivial
    · refine Prog.uses_run_bind (call_within trivial) ?_
      rintro (_ | _)
      · trivial
      · simp only [if_true]
        split_ifs
        · refine Prog.uses_run_bind (call_within trivial) ?_
          rintro (_ | bytes)
          · trivial
          · simp only
            split_ifs
            · trivial
            · trivial
        · trivial

end Loading

theorem fileSinkLoop_within
    {path : CString} (hpath : path ∈ files) (fuel : Nat) (data : Bytes) (done : Nat) :
    (fileSinkLoop path fuel data done).Uses (SysOp.Within files partitions) := by
  induction fuel generalizing data done with
  | zero => trivial
  | succ fuel ih =>
      rw [fileSinkLoop]
      split_ifs
      · trivial
      · refine Prog.Uses.bind ⟨hpath, fun _ => trivial⟩ fun wrote => ?_
        split_ifs
        · trivial
        · exact ih _ _

theorem fileSink_within
    {path : CString} (hpath : path ∈ files) (data : Bytes) (out : OutState) :
    (fileSink path data out).Uses (SysOp.Within files partitions) :=
  (fileSinkLoop_within hpath _ _ _).bind fun _ => trivial

theorem memorySink_within (size : Int) (data : Bytes) (out : OutState) :
    (memorySink size data out).Uses (SysOp.Within files partitions) := by
  unfold memorySink
  split_ifs
  · trivial
  · trivial

/-- Saving touches one file. -/
theorem saveFileContents_within
    {filename : CString} (hfilename : filename ∈ files) (file : FileContents) :
    Prog.Uses (SysOp.Within files partitions) (saveFileContents filename file).run := by
  unfold saveFileContents
  refine Prog.uses_run_bind (call_within hfilename) ?_
  rintro (_ | _)
  · trivial
  · refine Prog.uses_run_bind ?_ ?_
    · unfold sinkContents
      split_ifs
      · trivial
      · split
        · trivial
        · exact Prog.uses_run_lift (fileSinkLoop_within hfilename _ _ _)
        · trivial
    · intro written
      refine Prog.uses_run_bind (call_within trivial) fun _ => ?_
      split_ifs
      · trivial
      · refine Prog.uses_run_bind (call_within hfilename) ?_
        rintro (_ | _)
        · trivial
        · refine Prog.uses_run_bind (call_within hfilename) ?_
          rintro (_ | _)
          · trivial
          · trivial

theorem writeToMTDPartition_within
    {targetMtd : CString} (htarget : targetPartition targetMtd ∈ partitions) (data : Bytes) :
    (writeToMTDPartition data targetMtd).Uses (SysOp.Within files partitions) := by
  unfold writeToMTDPartition
  split_ifs
  · refine (openMtd_within _).bind ?_
    rintro (_ | partition)
    · trivial
    · exact onPartition_within _ htarget
  · trivial

theorem freeSpaceForFile_within (filename : CString) :
    (freeSpaceForFile filename).Uses (SysOp.Within files partitions) := by
  refine ⟨trivial, ?_⟩
  rintro (_ | ⟨bsize, bfree⟩)
  · trivial
  · trivial

end OpenRecovery
