import OpenRecovery.PatchBounds
import OpenRecovery.SystemFrames
import Mathlib

/-!
# `applypatch_check` and the choice of the source

Both searches load the source and then the copy in the cache.  On a system
without faults a load gives the same contents to both of them, whatever their
local variables hold.  The check accepts a copy that has any of the hashes,
while `applypatch` does not accept the first one.
-/

namespace OpenRecovery

open Effects Mtd

section Hashes

variable {sha1 : Digest}

theorem findMatchingFrom_nonneg {shas : List CString} {start : Nat}
    (hfound : 0 ≤ findMatchingFrom sha1 start shas) :
    ∃ index str, findMatchingFrom sha1 start shas = (start + index : Nat) ∧
      shas[index]? = some str ∧ parseSha1 str = some sha1 := by
  induction shas generalizing start with
  | nil => exact absurd hfound (by simp [findMatchingFrom])
  | cons str rest ih =>
      rw [findMatchingFrom] at hfound ⊢
      split_ifs with hparse
      · exact ⟨0, str, rfl, rfl, hparse⟩
      · rw [if_neg hparse] at hfound
        obtain ⟨index, other, hindex, hget, hother⟩ := ih hfound
        exact ⟨index + 1, other, by rw [hindex]; congr 1; omega, hget, hother⟩

/-- An index that `FindMatchingPatch` returns is that of the given hash. -/
theorem findMatchingPatch_spec {shas : List CString} (hfound : 0 ≤ findMatchingPatch sha1 shas) :
    ∃ str, shas[(findMatchingPatch sha1 shas).toNat]? = some str ∧ parseSha1 str = some sha1 := by
  obtain ⟨index, str, hindex, hget, hparse⟩ := findMatchingFrom_nonneg hfound
  rw [findMatchingPatch, hindex, Int.toNat_natCast, Nat.zero_add]
  exact ⟨str, hget, hparse⟩

end Hashes

section Loads

variable (env : Env) (lib : Library) (sha : Bytes → Digest)

theorem exec_bind_reads
    {α β : Type} {program : Checked α} (rest : α → Checked β)
    (hreads : Prog.Uses (SysOp.Within ∅ ∅) program.run) (world : World) :
    Prog.exec (World.handle env) (program >>= rest) world =
      match (Prog.exec (World.handle env) program world).1 with
      | .ok value => Prog.exec (World.handle env) (rest value) world
      | .error stuck => (.error stuck, world) := by
  have hsame := (exec_agrees env hreads world).eq
  rcases hexec : Prog.exec (World.handle env) program world with ⟨stuck | value, after⟩
  · rw [hexec] at hsame
    rw [Prog.exec_bind_error hexec, show after = world from hsame]
  · rw [hexec] at hsame
    rw [Prog.exec_bind_ok hexec, show after = world from hsame]

theorem exec_bind_call
    {β : Type} {op : SysOp} (rest : op.Reply → Checked β) (hop : op.Within ∅ ∅) (world : World) :
    Prog.exec (World.handle env) (call op >>= rest) world =
      Prog.exec (World.handle env) (rest (World.handle env op world).1) world := by
  rw [exec_bind_reads env rest (call_within hop)]
  rfl

/-- What a load gives, whatever the structure held before. -/
def Gives (world : World) (load : FileContents → Checked (Int × FileContents)) :
    Except Stuck (Option FileContents) → Prop
  | .error stuck => ∀ file, Prog.exec (World.handle env) (load file) world = (.error stuck, world)
  | .ok none => ∀ file : FileContents, ∃ failed : FileContents, failed.data = .null ∧
      Prog.exec (World.handle env) (load { file with data := .null }) world =
        (.ok (-1, failed), world)
  | .ok (some loaded) =>
      (∃ bytes, loaded.data = .live bytes ∧ loaded.size = bytes.length ∧
        loaded.sha1 = sha bytes) ∧
      ∀ file, Prog.exec (World.handle env) (load file) world = (.ok (0, loaded), world)

theorem exists_gives_loadSorted
    (world : World) (name : CString) (sorted : List (Nat × Option CString)) :
    ∃ outcome, Gives env sha world (loadSorted lib sha name sorted) outcome := by
  have hopen := fun rest : Option MtdPartition → Checked (Int × FileContents) =>
    exec_bind_reads env rest (Prog.uses_run_lift (openMtd_within name)) world
  simp only [Prog.exec_lift] at hopen
  unfold loadSorted
  rcases hfound : ((openMtd name).run (World.handle env) world).1 with _ | partition
  · refine ⟨.ok none, fun file => ⟨{ file with data := .null }, rfl, ?_⟩⟩
    simp only [hopen, hfound, Prog.exec_pure]
  · rcases hlast : sorted.getLast? with _ | ⟨largest, last⟩
    · refine ⟨.error .outOfBounds, fun file => ?_⟩
      simp only [hopen, hfound, Prog.exec_throw]
    · by_cases hmalloc : lib.malloc largest = true
      · have hpairs := fun rest : _ → Checked (Int × FileContents) => exec_bind_reads env rest
          (loadPairs_within sha name partition sorted (mtdReadPartition partition) []) world
        rcases hresult : (Prog.exec (World.handle env) (loadPairs sha name partition sorted
          (mtdReadPartition partition) []) world).1 with stuck | ⟨_ | data, size⟩
        · refine ⟨.error stuck, fun file => ?_⟩
          simp only [hopen, hfound, hmalloc, if_true, hpairs, hresult]
        · refine ⟨.ok none, fun file => ⟨{ file with data := .null, size := size }, rfl, ?_⟩⟩
          simp only [hopen, hfound, hmalloc, if_true, hpairs, hresult, Prog.exec_pure]
        · refine ⟨.ok (some ⟨sha data, .live data, data.length, 0o644, 0, 0⟩),
            ⟨data, rfl, rfl, rfl⟩, fun file => ?_⟩
          simp only [hopen, hfound, hmalloc, if_true, hpairs, hresult, Prog.exec_pure]
      · refine ⟨.error .outOfBounds, fun file => ?_⟩
        simp only [hopen, hfound, hmalloc, if_false, Prog.exec_throw, Bool.false_eq_true]

theorem exists_gives_loadMTDContents (world : World) (filename : CString) :
    ∃ outcome, Gives env sha world (loadMTDContents lib sha filename) outcome := by
  unfold loadMTDContents
  split
  · exact ⟨.error .outOfBounds, fun file => rfl⟩
  · split
    next stuck _ => exact ⟨.error stuck, fun file => rfl⟩
    next => exact ⟨.ok none, fun file => ⟨_, rfl, rfl⟩⟩
    next => exact exists_gives_loadSorted env lib sha world _ _

/-- What `LoadFileContents` gives for a name. -/
def Loads (world : World) (filename : CString) (outcome : Except Stuck (Option FileContents)) :
    Prop :=
  Gives env sha world (loadFileContents lib sha filename) outcome

/-- The contents of a file as `LoadFileContents` gives them. -/
def FileContents.ofFile (file : File) : FileContents :=
  ⟨sha file.data, .live file.data, file.data.length, file.mode, file.uid, file.gid⟩

variable {filename : CString}

theorem loads_missing
    {world : World} (hmtd : isMtd filename = false) (hfile : world.files filename = none) :
    Loads env lib sha world filename (.ok none) := by
  intro file
  refine ⟨{ file with data := .null }, rfl, ?_⟩
  have hstat := fun rest : (SysOp.stat filename).Reply → Checked (Int × FileContents) =>
    exec_bind_call env rest trivial world
  simp only [World.handle] at hstat
  simp [loadFileContents, hmtd, hstat, hfile]

theorem exec_loadFileContents
    {world : World} {file : File} (hmtd : isMtd filename = false)
    (hfile : world.files filename = some file) (contents : FileContents) :
    Prog.exec (World.handle env) (loadFileContents lib sha filename contents) world =
      (if lib.malloc file.data.length then .ok (0, .ofFile sha file) else .error .outOfBounds,
        world) := by
  have hstat := fun rest : (SysOp.stat filename).Reply → Checked (Int × FileContents) =>
    exec_bind_call env rest trivial world
  have hopen := fun rest : (SysOp.openRead filename).Reply → Checked (Int × FileContents) =>
    exec_bind_call env rest trivial world
  have hread (len : Nat) :=
    fun rest : (SysOp.read filename 0 len).Reply → Checked (Int × FileContents) =>
      exec_bind_call env rest trivial world
  simp only [World.handle] at hstat hopen hread
  by_cases hmalloc : lib.malloc file.data.length = true
  · simp [loadFileContents, hmtd, hstat, hopen, hread, hfile, hmalloc, FileContents.ofFile]
  · simp [loadFileContents, hmtd, hstat, hopen, hfile, hmalloc]

theorem loads_file
    {world : World} {file : File} (hmtd : isMtd filename = false)
    (hfile : world.files filename = some file) (hmalloc : lib.malloc file.data.length = true) :
    Loads env lib sha world filename (.ok (some (.ofFile sha file))) := by
  refine ⟨⟨file.data, rfl, rfl, rfl⟩, fun contents => ?_⟩
  rw [exec_loadFileContents env lib sha hmtd hfile, if_pos hmalloc]

theorem exists_loads (world : World) (filename : CString) :
    ∃ outcome, Loads env lib sha world filename outcome := by
  by_cases hmtd : isMtd filename = true
  · unfold Loads loadFileContents
    simp only [hmtd, if_true]
    obtain ⟨outcome, houtcome⟩ := exists_gives_loadMTDContents env lib sha world filename
    refine ⟨outcome, ?_⟩
    cases outcome with
    | error stuck => exact fun file => houtcome _
    | ok outcome =>
        cases outcome with
        | none => exact fun file => houtcome file
        | some loaded => exact ⟨houtcome.1, fun file => houtcome.2 _⟩
  · rw [Bool.not_eq_true] at hmtd
    rcases hfile : world.files filename with _ | file
    · exact ⟨.ok none, loads_missing env lib sha hmtd hfile⟩
    · by_cases hmalloc : lib.malloc file.data.length = true
      · exact ⟨_, loads_file env lib sha hmtd hfile hmalloc⟩
      · refine ⟨.error .outOfBounds, fun contents => ?_⟩
        rw [exec_loadFileContents env lib sha hmtd hfile, if_neg hmalloc]

variable {env lib sha}
variable {world : World}

theorem Loads.unique
    {first second : Except Stuck (Option FileContents)}
    (hfirst : Loads env lib sha world filename first)
    (hsecond : Loads env lib sha world filename second) : first = second := by
  have file : FileContents := ⟨List.Vector.replicate 20 0, .null, 0, 0, 0, 0⟩
  rcases first with stuck | _ | loaded
  · rcases second with stuck' | _ | loaded'
    · have heq := (hfirst file).symm.trans (hsecond file)
      simpa using heq
    · obtain ⟨failed, -, hexec⟩ := hsecond file
      exact absurd ((hfirst _).symm.trans hexec) (by simp)
    · exact absurd ((hfirst file).symm.trans (hsecond.2 file)) (by simp)
  · obtain ⟨failed, -, hexec⟩ := hfirst file
    rcases second with stuck' | _ | loaded'
    · exact absurd (hexec.symm.trans (hsecond _)) (by simp)
    · rfl
    · exact absurd (hexec.symm.trans (hsecond.2 _)) (by simp)
  · rcases second with stuck' | _ | loaded'
    · exact absurd ((hfirst.2 file).symm.trans (hsecond file)) (by simp)
    · obtain ⟨failed, -, hexec⟩ := hsecond file
      exact absurd ((hfirst.2 _).symm.trans hexec) (by simp)
    · have heq := (hfirst.2 file).symm.trans (hsecond.2 file)
      simpa using heq

theorem Loads.exec_none
    (hloads : Loads env lib sha world filename (.ok none)) (file : FileContents) :
    ∃ failed : FileContents, failed.data = .null ∧
      Prog.exec (World.handle env) (loadFileContents lib sha filename file) world =
        (.ok (-1, failed), world) :=
  hloads file

theorem Loads.exec_some
    {loaded : FileContents} (hloads : Loads env lib sha world filename (.ok (some loaded)))
    (file : FileContents) :
    Prog.exec (World.handle env) (loadFileContents lib sha filename file) world =
      (.ok (0, loaded), world) :=
  hloads.2 file

theorem Loads.data_ne_null
    {loaded : FileContents} (hloads : Loads env lib sha world filename (.ok (some loaded))) :
    loaded.data ≠ .null := by
  obtain ⟨⟨bytes, hdata, -, -⟩, -⟩ := hloads
  rw [hdata]
  simp

/-- The contents found under a name have one of the hashes. -/
def MatchesAt (env : Env) (lib : Library) (sha : Bytes → Digest) (world : World)
    (filename : CString) (shas : List CString) (index : Int) (loaded : FileContents) : Prop :=
  Loads env lib sha world filename (.ok (some loaded)) ∧ 0 ≤ index ∧
    ∃ str, shas[index.toNat]? = some str ∧ parseSha1 str = some loaded.sha1

theorem checkCopy_accepts
    {shas : List CString} {file : FileContents}
    (hcheck : (Prog.exec (World.handle env) (checkCopy lib sha shas file) world).1 = .ok 0) :
    ∃ copy, Loads env lib sha world cacheTempSource (.ok (some copy)) ∧
      0 ≤ findMatchingPatch copy.sha1 shas := by
  unfold checkCopy at hcheck
  obtain ⟨outcome, houtcome⟩ := exists_loads env lib sha world cacheTempSource
  rcases outcome with stuck | _ | copy
  · rw [Prog.exec_bind_error (houtcome file)] at hcheck
    cases hcheck
  · obtain ⟨failed, -, hexec⟩ := houtcome.exec_none file
    rw [Prog.exec_bind_ok hexec] at hcheck
    simp at hcheck
  · rw [Prog.exec_bind_ok (houtcome.exec_some file)] at hcheck
    refine ⟨copy, houtcome, ?_⟩
    by_contra hbad
    simp [lt_of_not_ge hbad] at hcheck

/-- What the check accepts. -/
theorem applypatchCheck_accepts
    {shas : List CString} {file : FileContents} (hshas : shas ≠ [])
    (hcheck : (Prog.exec (World.handle env) (applypatchCheck lib sha filename shas file) world).1 =
      .ok 0) :
    ∃ source, Loads env lib sha world filename (.ok source) ∧
      ((∃ loaded, source = some loaded ∧ 0 ≤ findMatchingPatch loaded.sha1 shas) ∨
        ∃ copy, Loads env lib sha world cacheTempSource (.ok (some copy)) ∧
          0 ≤ findMatchingPatch copy.sha1 shas) := by
  unfold applypatchCheck at hcheck
  obtain ⟨outcome, houtcome⟩ := exists_loads env lib sha world filename
  rcases outcome with stuck | _ | loaded
  · rw [Prog.exec_bind_error (houtcome file)] at hcheck
    cases hcheck
  · obtain ⟨failed, -, hexec⟩ := houtcome.exec_none file
    rw [Prog.exec_bind_ok hexec] at hcheck
    simp only [if_pos (Or.inl (show (-1 : Int) ≠ 0 by decide))] at hcheck
    exact ⟨none, houtcome, .inr (checkCopy_accepts hcheck)⟩
  · rw [Prog.exec_bind_ok (houtcome.exec_some file)] at hcheck
    refine ⟨some loaded, houtcome, ?_⟩
    by_cases hfound : 0 ≤ findMatchingPatch loaded.sha1 shas
    · exact .inl ⟨loaded, rfl, hfound⟩
    · simp only [if_pos (Or.inr (And.intro hshas (lt_of_not_ge hfound)))] at hcheck
      exact .inr (checkCopy_accepts hcheck)

/-! ## The choice of the source -/

variable {args : PatchArgs} {targetSha1 : Digest}

/-- The target can be looked at and does not have the wanted hash. -/
def TargetDiffers (env : Env) (lib : Library) (sha : Bytes → Digest) (world : World)
    (args : PatchArgs) (targetSha1 : Digest) : Prop :=
  ∃ target, Loads env lib sha world args.target (.ok target) ∧
    ∀ loaded, target = some loaded → loaded.sha1 ≠ targetSha1

/-- The loaded source, in a structure that holds no data if there is none. -/
def Holds (source : Option FileContents) (file : FileContents) : Prop :=
  match source with
  | none => file.data = .null
  | some loaded => file = loaded

theorem reloadSource_exec
    {source target : Option FileContents} {file : FileContents}
    (hsource : Loads env lib sha world args.sourceFilename (.ok source))
    (htarget : Loads env lib sha world args.target (.ok target)) (hfile : Holds target file) :
    ∃ loaded, Holds source loaded ∧
      Prog.exec (World.handle env) (reloadSource lib sha args file) world =
        (.ok loaded, world) := by
  unfold reloadSource
  split_ifs with hreload
  · cases source with
    | none =>
        obtain ⟨failed, hnull, hexec⟩ := hsource.exec_none file
        exact ⟨failed, hnull, Prog.exec_bind_ok hexec⟩
    | some loaded => exact ⟨loaded, rfl, Prog.exec_bind_ok (hsource.exec_some file)⟩
  · push Not at hreload
    rw [hreload.2] at htarget
    obtain rfl : source = target := Except.ok.inj (hsource.unique htarget)
    exact ⟨file, hfile, rfl⟩

theorem sourcePatch_eq
    {source : Option FileContents} {file : FileContents}
    (hsource : Loads env lib sha world args.sourceFilename (.ok source))
    (hfile : Holds source file) :
    sourcePatch args file = source.elim (-1) fun loaded =>
      findMatchingPatch loaded.sha1 args.patchSha1Str := by
  unfold sourcePatch
  cases source with
  | none => exact if_pos hfile
  | some loaded =>
      obtain rfl : file = loaded := hfile
      exact if_neg hsource.data_ne_null

/-- On a target that differs, the search looks at the source and, failing that,
at the copy. -/
theorem selectSource_exec
    {source : Option FileContents} (sourceFile copyFile : FileContents)
    (htarget : TargetDiffers env lib sha world args targetSha1)
    (hsource : Loads env lib sha world args.sourceFilename (.ok source)) :
    ∃ loaded, Holds source loaded ∧
      Prog.exec (World.handle env) (selectSource lib sha args targetSha1 sourceFile copyFile)
          world =
        Prog.exec (World.handle env)
          (if 0 ≤ sourcePatch args loaded then pure (.source loaded (sourcePatch args loaded))
          else selectCopy lib sha args loaded copyFile) world := by
  obtain ⟨target, hloads, hdiffers⟩ := htarget
  unfold selectSource
  cases target with
  | none =>
      obtain ⟨failed, hnull, hexec⟩ := hloads.exec_none sourceFile
      obtain ⟨loaded, hholds, hreload⟩ := reloadSource_exec hsource hloads hnull
      refine ⟨loaded, hholds, ?_⟩
      rw [Prog.exec_bind_ok hexec]
      simp only [show ¬ ((-1 : Int) = 0) by decide, false_and, if_false]
      exact Prog.exec_bind_ok hreload
  | some found =>
      obtain ⟨loaded, hholds, hreload⟩ := reloadSource_exec hsource hloads rfl
      refine ⟨loaded, hholds, ?_⟩
      rw [Prog.exec_bind_ok (hloads.exec_some sourceFile)]
      simp only [hdiffers found rfl, and_false, if_false]
      exact Prog.exec_bind_ok hreload

theorem selectCopy_exec
    {copy : FileContents} (sourceFile copyFile : FileContents)
    (hcopy : Loads env lib sha world cacheTempSource (.ok (some copy))) :
    Prog.exec (World.handle env) (selectCopy lib sha args sourceFile copyFile) world =
      (.ok (if 0 < findMatchingPatch copy.sha1 args.patchSha1Str then
        .copy sourceFile.free copy (findMatchingPatch copy.sha1 args.patchSha1Str)
        else .returned 1), world) := by
  unfold selectCopy
  rw [Prog.exec_bind_ok (hcopy.exec_some copyFile)]
  simp only [lt_irrefl, if_false]
  split_ifs
  · rfl
  · rfl

/-- The selected contents have the hash that stands at the index of the selected
patch. -/
def Selects (env : Env) (lib : Library) (sha : Bytes → Digest) (world : World)
    (args : PatchArgs) : Selection → Prop
  | .returned _ => False
  | .source file toUse =>
      MatchesAt env lib sha world args.sourceFilename args.patchSha1Str toUse file
  | .copy _ file toUse =>
      MatchesAt env lib sha world cacheTempSource args.patchSha1Str toUse file

/-- After a successful check `applypatch` finds a source, except when only the
copy matches and its hash is the first of the list. -/
theorem selectSource_agrees_iff
    (env : Env) (lib : Library) (sha : Bytes → Digest) (world : World) (args : PatchArgs)
    (targetSha1 : Digest) (file sourceFile copyFile : FileContents)
    (hshas : args.patchSha1Str ≠ [])
    (hcheck : (Prog.exec (World.handle env)
      (applypatchCheck lib sha args.sourceFilename args.patchSha1Str file) world).1 = .ok 0)
    (htarget : TargetDiffers env lib sha world args targetSha1) :
    (∃ selection, Prog.exec (World.handle env)
        (selectSource lib sha args targetSha1 sourceFile copyFile) world =
          (.ok selection, world) ∧ Selects env lib sha world args selection) ↔
      ¬ ((∀ loaded, Loads env lib sha world args.sourceFilename (.ok (some loaded)) →
          findMatchingPatch loaded.sha1 args.patchSha1Str < 0) ∧
        ∃ copy, Loads env lib sha world cacheTempSource (.ok (some copy)) ∧
          findMatchingPatch copy.sha1 args.patchSha1Str = 0) := by
  obtain ⟨source, hsource, haccepted⟩ := applypatchCheck_accepts hshas hcheck
  obtain ⟨held, hheld, hexec⟩ := selectSource_exec sourceFile copyFile htarget hsource
  rw [hexec, sourcePatch_eq hsource hheld]
  by_cases hfound : ∃ loaded, source = some loaded ∧
      0 ≤ findMatchingPatch loaded.sha1 args.patchSha1Str
  · obtain ⟨loaded, rfl, hmatch⟩ := hfound
    obtain rfl : held = loaded := hheld
    rw [Option.elim_some, if_pos hmatch]
    refine iff_of_true ⟨_, rfl, hsource, hmatch, findMatchingPatch_spec hmatch⟩ ?_
    rintro ⟨hnone, -⟩
    exact absurd (hnone held hsource) (by omega)
  · obtain ⟨copy, hcopy, hmatch⟩ := haccepted.resolve_left hfound
    have hbad : ∀ loaded, source = some loaded →
        findMatchingPatch loaded.sha1 args.patchSha1Str < 0 := by
      intro loaded hloaded
      by_contra hmatch
      exact hfound ⟨loaded, hloaded, by omega⟩
    have hnone : ¬ 0 ≤ source.elim (-1) fun loaded =>
        findMatchingPatch loaded.sha1 args.patchSha1Str := by
      cases source with
      | none => exact of_decide_eq_true rfl
      | some loaded => exact not_le.mpr (hbad loaded rfl)
    rw [if_neg hnone, selectCopy_exec held copyFile hcopy]
    have hunmatched : ∀ loaded, Loads env lib sha world args.sourceFilename (.ok (some loaded)) →
        findMatchingPatch loaded.sha1 args.patchSha1Str < 0 := fun loaded hloaded =>
      hbad loaded (Except.ok.inj (hsource.unique hloaded))
    split_ifs with hpositive
    · refine iff_of_true ⟨_, rfl, hcopy, hmatch, findMatchingPatch_spec hmatch⟩ ?_
      rintro ⟨-, other, hother, hzero⟩
      obtain rfl : copy = other := by simpa using hcopy.unique hother
      omega
    · refine iff_of_false ?_ fun h => h ⟨hunmatched, copy, hcopy, by omega⟩
      rintro ⟨selection, hselection, hselects⟩
      obtain rfl : Selection.returned 1 = selection := by simpa using hselection
      exact hselects

end Loads

/-! ## Examples -/

/-- The hash of the empty file. -/
def emptySha1Str : CString := "da39a3ee5e6b4b0d3255bfef95601890afd80709".toList

/-- SHA-1 on the empty file. -/
def sampleSha (bytes : Bytes) : Digest :=
  if bytes = [] then (parseSha1 emptySha1Str).getD (List.Vector.replicate 20 0)
  else List.Vector.replicate 20 0

def emptyFile : File := ⟨[], 0o644, 0, 0⟩

/-- A system with one file, which is empty. -/
def oneFileWorld (path : CString) : World where
  files := Function.update (fun _ => none) path (some emptyFile)
  partitions _ := none
  stdout := []

def uninitialized : FileContents := ⟨List.Vector.replicate 20 0, .null, 0, 0, 0, 0⟩

/-- A patch for the empty file. -/
def sampleArgs : PatchArgs where
  sourceFilename := "/system/a".toList
  targetFilename := "/system/b".toList
  targetSha1Str := "0000000000000000000000000000000000000001".toList
  targetSize := 1
  patches := [⟨emptySha1Str, ⟨true, []⟩⟩]

theorem sampleArgs_differs (path : CString) (hpath : path ≠ sampleArgs.target) :
    TargetDiffers sampleEnv sampleLibrary sampleSha (oneFileWorld path) sampleArgs
      (List.Vector.replicate 20 0) := by
  have hmissing : (oneFileWorld path).files sampleArgs.target = none := by
    simp [oneFileWorld, Ne.symm hpath]
  exact ⟨none, loads_missing _ _ _ rfl hmissing, by simp⟩

theorem selectSource_agrees_sample :
    (∃ selection, Prog.exec (World.handle sampleEnv)
        (selectSource sampleLibrary sampleSha sampleArgs (List.Vector.replicate 20 0) uninitialized
          uninitialized) (oneFileWorld sampleArgs.sourceFilename) =
            (.ok selection, oneFileWorld sampleArgs.sourceFilename) ∧
        Selects sampleEnv sampleLibrary sampleSha (oneFileWorld sampleArgs.sourceFilename) sampleArgs
          selection) := by
  refine (selectSource_agrees_iff sampleEnv sampleLibrary sampleSha _ sampleArgs _ uninitialized
    uninitialized uninitialized (by decide) (by decide)
    (sampleArgs_differs _ (by decide))).mpr ?_
  rintro ⟨-, copy, hcopy, -⟩
  have hmissing : Loads sampleEnv sampleLibrary sampleSha (oneFileWorld sampleArgs.sourceFilename)
      cacheTempSource (.ok none) := loads_missing _ _ _ rfl (by decide)
  exact absurd (hcopy.unique hmissing) (by simp)

/-- Only the copy is left and its hash is the only one: the check passes, and
`applypatch` gives up. -/
theorem selectSource_refuses_checked_copy :
    (Prog.exec (World.handle sampleEnv) (applypatchCheck sampleLibrary sampleSha
        sampleArgs.sourceFilename sampleArgs.patchSha1Str uninitialized)
        (oneFileWorld cacheTempSource)).1 = .ok 0 ∧
      (Prog.exec (World.handle sampleEnv) (selectSource sampleLibrary sampleSha sampleArgs
        (List.Vector.replicate 20 0) uninitialized uninitialized)
        (oneFileWorld cacheTempSource)).1 = .ok (.returned 1) := by
  decide

end OpenRecovery
