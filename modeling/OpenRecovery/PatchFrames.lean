import OpenRecovery.ApplyPatchCheck
import OpenRecovery.ImgPatchChunks
import Mathlib

/-!
# What `applypatch` does to the source and to the cache

The target is written under the name of the target with `.patch` after it and
then renamed.  If the target is produced from the source itself, the source is
copied to the cache and deleted first, however much space there is, and the copy
is deleted at the end.
-/

namespace OpenRecovery

open Effects Mtd

/-! ## The requests of the decoders -/

section Decoders

variable {allowed : SysOp → Prop} {lib : Library} {sink : Sink} {patch old : Bytes}

theorem sinkPieces_uses
    (hsink : ∀ data out, (sink data out).Uses allowed) (pieces : List Bytes) (out : OutState) :
    (sinkPieces sink pieces out).Uses allowed := by
  induction pieces generalizing out with
  | nil => trivial
  | cons piece rest ih =>
      refine (hsink piece out).bind ?_
      rintro ⟨wrote, out⟩
      dsimp only
      split_ifs
      · trivial
      · exact ih _

theorem putChunk_uses
    (hsink : ∀ data out, (sink data out).Uses allowed) (chunk : Chunk) (out : OutState) :
    (putChunk sink chunk out).Uses allowed := by
  cases chunk with
  | normal output =>
      cases output with
      | none => trivial
      | some new =>
          refine (hsink new out).bind ?_
          rintro ⟨wrote, out⟩
          dsimp only
          split_ifs
          · trivial
          · trivial
  | raw data =>
      refine (hsink data _).bind ?_
      rintro ⟨wrote, out⟩
      dsimp only
      split_ifs
      · trivial
      · trivial
  | deflate output => exact sinkPieces_uses hsink output out

theorem putRead_uses
    (hsink : ∀ data out, (sink data out).Uses allowed) (out : OutState)
    (read : Except Stuck (Option (Chunk × Int))) : (putRead sink out read).Uses allowed := by
  rcases read with stuck | _ | ⟨chunk, next⟩
  · trivial
  · trivial
  · refine (putChunk_uses hsink chunk out).bind ?_
    rintro ⟨code, out⟩
    dsimp only
    split_ifs
    · trivial
    · trivial

theorem applyChunks_uses
    (hsink : ∀ data out, (sink data out).Uses allowed) (left : Nat) (pos : Int) (out : OutState) :
    (applyChunks lib sink patch old left pos out).Uses allowed := by
  induction left generalizing pos out with
  | zero => trivial
  | succ left ih =>
      rw [applyChunks, applyChunk_eq]
      refine (putRead_uses hsink out _).bind ?_
      rintro (stuck | ⟨pos, out⟩ | ⟨code, out⟩)
      · trivial
      · exact ih _ _
      · trivial

theorem applyImagePatch_uses
    (hsink : ∀ data out, (sink data out).Uses allowed) (out : OutState) :
    (applyImagePatch lib sink patch old out).Uses allowed := by
  unfold applyImagePatch
  split_ifs
  · trivial
  · trivial
  · exact applyChunks_uses hsink _ _ _

theorem applyBSDiffPatch_uses
    (hsink : ∀ data out, (sink data out).Uses allowed) (view : OldData) (offset : Int)
    (out : OutState) : (applyBSDiffPatch lib sink patch view offset out).Uses allowed := by
  unfold applyBSDiffPatch
  rcases applyBSDiffPatchMem lib view patch offset with stuck | _ | new
  · trivial
  · trivial
  · refine (hsink new out).bind ?_
    rintro ⟨wrote, out⟩
    dsimp only
    split_ifs
    · trivial
    · trivial

theorem applyEither_uses
    (hsink : ∀ data out, (sink data out).Uses allowed) :
    Prog.Uses allowed (applyEither lib sink patch old).run := by
  unfold applyEither
  split_ifs
  · exact Prog.uses_run_bind (applyBSDiffPatch_uses hsink _ _ _) fun _ => trivial
  · exact Prog.uses_run_bind (applyImagePatch_uses hsink _) fun _ => trivial
  · trivial

theorem decode_uses
    {sha : Bytes → Digest} {targetSha1 : Digest} {close : Checked Unit}
    (hsink : ∀ data out, (sink data out).Uses allowed) (hclose : Prog.Uses allowed close.run) :
    Prog.Uses allowed (decode lib sha targetSha1 sink patch old close).run := by
  refine Prog.uses_run_bind (applyEither_uses hsink) ?_
  rintro (_ | ⟨result, out⟩)
  · trivial
  · refine Prog.uses_run_bind hclose fun _ => ?_
    split_ifs
    · trivial
    · trivial
    · trivial

end Decoders

/-! ## Making room, producing and installing -/

section Runs

variable {env : Env} {lib : Library} {sha : Bytes → Digest} {args : PatchArgs}
variable {targetSha1 : Digest} {world after : World}

theorem outname_ne_target (args : PatchArgs) : outname args ≠ args.target := by
  intro hsame
  have hlength := congrArg List.length hsame
  simp [outname] at hlength

theorem produce_within
    {files partitions : Set CString} (htarget : isMtd args.target = false)
    (houtname : outname args ∈ files) (sourceToUse : FileContents) (patch : Value) :
    Prog.Uses (SysOp.Within files partitions)
      (produce lib sha args targetSha1 sourceToUse patch).run := by
  unfold produce
  split
  · trivial
  · trivial
  · trivial
  · rw [if_neg (by simp [htarget])]
    refine Prog.uses_run_bind (call_within houtname) ?_
    rintro (_ | _)
    · trivial
    · refine Prog.uses_run_bind (decode_uses (fileSink_within houtname) ?_) fun _ => trivial
      exact Prog.uses_run_bind (call_within trivial) fun _ => trivial

theorem produce_ok
    {sourceToUse : FileContents} {patch : Value} {output : Output}
    (htarget : isMtd args.target = false)
    (hexec : Prog.exec (World.handle env) (produce lib sha args targetSha1 sourceToUse patch) world =
      (.ok (some output), after)) :
    output = .file (outname args) ∧ World.Agrees {outname args} ∅ world after := by
  have hagrees := exec_agrees env (@produce_within lib sha args targetSha1 {outname args} ∅ htarget
    rfl sourceToUse patch) world
  rw [hexec] at hagrees
  refine ⟨?_, hagrees⟩
  unfold produce at hexec
  split at hexec
  · simp at hexec
  · simp at hexec
  · simp at hexec
  · rw [if_neg (by simp [htarget])] at hexec
    obtain ⟨created, middle, -, hrest⟩ := Prog.exec_bind_eq_ok hexec
    cases created with
    | false => simp at hrest
    | true =>
        obtain ⟨out, middle', -, hlast⟩ := Prog.exec_bind_eq_ok hrest
        cases out with
        | none => simp at hlast
        | some out =>
            simp only [Prog.exec_pure, Option.map_some, Prod.mk.injEq, Except.ok.injEq,
              Option.some.injEq] at hlast
            exact hlast.1.symm

theorem exec_call_eq_ok
    {op : SysOp} {reply : op.Reply}
    (hexec : Prog.exec (World.handle env) (call op) world = (.ok reply, after)) :
    World.handle env op world = (reply, after) := by
  rw [call, Prog.exec_lift] at hexec
  simp only [Prog.ask, Prog.run_request, Prog.run_pure, Prod.mk.injEq, Except.ok.injEq] at hexec
  exact Prod.ext hexec.1 hexec.2

/-- After the target is installed nothing is left under the other name. -/
theorem installOutput_ok
    {sourceToUse : FileContents}
    (hexec : Prog.exec (World.handle env)
      (installOutput args (.file (outname args)) sourceToUse) world = (.ok true, after)) :
    after.files (outname args) = none ∧
      ∀ path, path ≠ outname args → path ≠ args.target → after.files path = world.files path := by
  obtain ⟨changed, first, hchmod, hrest⟩ := Prog.exec_bind_eq_ok hexec
  cases changed with
  | false => simp at hrest
  | true =>
      obtain ⟨owned, second, hchown, hlast⟩ := Prog.exec_bind_eq_ok hrest
      cases owned with
      | false => simp at hlast
      | true =>
          have hfirst : World.Agrees {outname args} ∅ world first := by
            have hagrees := @handle_agrees {outname args} ∅ env
              (.chmod (outname args) sourceToUse.mode) rfl world
            rwa [exec_call_eq_ok hchmod] at hagrees
          have hsecond : World.Agrees {outname args} ∅ first second := by
            have hagrees := @handle_agrees {outname args} ∅ env
              (.chown (outname args) sourceToUse.uid sourceToUse.gid) rfl first
            rwa [exec_call_eq_ok hchown] at hagrees
          have hrename := exec_call_eq_ok hlast
          simp only [World.handle] at hrename
          cases hfile : second.files (outname args) with
          | none => simp [hfile] at hrename
          | some file =>
              simp only [hfile, if_neg (outname_ne_target args), Prod.mk.injEq, true_and] at hrename
              subst hrename
              constructor
              · rw [World.setFile_files_ne _ _ (outname_ne_target args),
                  World.setFile_files_self]
              · intro path hother hother'
                rw [World.setFile_files_ne _ _ hother', World.setFile_files_ne _ _ hother,
                  hsecond.files path hother, hfirst.files path hother]

theorem deliver_ok
    {sourceToUse : FileContents} {madeCopy : Bool}
    (hexec : Prog.exec (World.handle env)
      (deliver args (.output (.file (outname args)) sourceToUse madeCopy)) world =
        (.ok 0, after)) :
    ∃ installed, Prog.exec (World.handle env)
        (installOutput args (.file (outname args)) sourceToUse) world = (.ok true, installed) ∧
      after = if madeCopy then installed.setFile cacheTempSource none else installed := by
  obtain ⟨done, installed, hinstall, hrest⟩ := Prog.exec_bind_eq_ok hexec
  cases done with
  | false => simp at hrest
  | true =>
      refine ⟨installed, hinstall, ?_⟩
      cases madeCopy with
      | false =>
          have hsame : installed = after := by simpa using hrest
          exact hsame.symm
      | true =>
          obtain ⟨gone, last, hunlink, hlast⟩ := Prog.exec_bind_eq_ok hrest
          have hafter : (World.handle env (.unlink cacheTempSource) installed).2 = last :=
            congrArg Prod.snd (exec_call_eq_ok hunlink)
          have hsame : last = after := by simpa using hlast
          rw [← hsame, ← hafter]
          rfl

theorem targetFs_exec {fs : CString} {target : CString}
    (hexec : Prog.exec (World.handle env) (targetFs target : Checked CString) world =
      (.ok fs, after)) : after = world := by
  cases htarget : targetFs target with
  | error stuck =>
      rw [htarget] at hexec
      cases hexec
  | ok found =>
      rw [htarget] at hexec
      exact (congrArg Prod.snd hexec).symm

theorem freeSpaceForFile_exec {path : CString} {free : Nat}
    (hexec : Prog.exec (World.handle env) (ExceptT.lift (freeSpaceForFile path) : Checked Nat) world =
      (.ok free, after)) : after = world := by
  have hagrees := exec_agrees env
    (Prog.uses_run_lift (@freeSpaceForFile_within ∅ ∅ path) : Prog.Uses _
      (ExceptT.lift (freeSpaceForFile path) : Checked Nat).run) world
  rw [hexec] at hagrees
  exact hagrees.eq

/-- Without the source there is nothing to save. -/
theorem makeRoom_copy
    {sourceFile : FileContents} {made : Option Bool} (htarget : isMtd args.target = false)
    (hexec : Prog.exec (World.handle env) (makeRoom args sourceFile false) world =
      (.ok made, after)) : made = some false ∧ after = world := by
  obtain ⟨fs, first, hfs, hrest⟩ := Prog.exec_bind_eq_ok hexec
  obtain rfl := targetFs_exec hfs
  rw [if_neg (by simp [htarget])] at hrest
  obtain ⟨free, second, hfree, hlast⟩ := Prog.exec_bind_eq_ok hrest
  obtain rfl := freeSpaceForFile_exec hfree
  simp only [Bool.false_eq_true, if_false, Prog.exec_pure, Prod.mk.injEq, Except.ok.injEq] at hlast
  exact ⟨hlast.1.symm, hlast.2.symm⟩

/-- The source is deleted whenever it is used. -/
theorem makeRoom_source
    {sourceFile : FileContents} {made : Bool} (htarget : isMtd args.target = false)
    (hexec : Prog.exec (World.handle env) (makeRoom args sourceFile true) world =
      (.ok (some made), after)) : made = true ∧ after.files args.sourceFilename = none := by
  obtain ⟨fs, first, -, hrest⟩ := Prog.exec_bind_eq_ok hexec
  rw [if_neg (by simp [htarget])] at hrest
  obtain ⟨free, second, -, hused⟩ := Prog.exec_bind_eq_ok hrest
  rw [if_pos rfl] at hused
  split_ifs at hused with hmtd
  · simp at hused
  · obtain ⟨saved, third, -, hsaved⟩ := Prog.exec_bind_eq_ok hused
    cases saved with
    | false => simp at hsaved
    | true =>
        obtain ⟨gone, fourth, hunlink, hstatfs⟩ := Prog.exec_bind_eq_ok hsaved
        obtain ⟨free', fifth, hfree', hlast⟩ := Prog.exec_bind_eq_ok hstatfs
        obtain rfl := freeSpaceForFile_exec hfree'
        have hafter : (World.handle env (.unlink args.sourceFilename) third).2 = fifth :=
          congrArg Prod.snd (exec_call_eq_ok hunlink)
        simp only [Prog.exec_pure, Prod.mk.injEq, Except.ok.injEq, Option.some.injEq] at hlast
        refine ⟨hlast.1.symm, ?_⟩
        rw [← hlast.2, ← hafter]
        exact World.setFile_files_self ..

/-- What a run that produces and installs the target leaves, given what making
room has left. -/
theorem produceFrom_deliver
    {sourceFile sourceToUse : FileContents} {useSource : Bool} {toUse : Int} {produced : Produced}
    {middle : World} (htarget : isMtd args.target = false)
    (hproduce : Prog.exec (World.handle env)
      (produceFrom lib sha args targetSha1 sourceFile useSource sourceToUse toUse) world =
        (.ok produced, middle))
    (hdeliver : Prog.exec (World.handle env) (deliver args produced) middle = (.ok 0, after)) :
    ∃ made first, Prog.exec (World.handle env) (makeRoom args sourceFile useSource) world =
        (.ok (some made), first) ∧
      after.files (outname args) = none ∧
      ∀ path, path ≠ outname args → path ≠ args.target →
        after.files path = if made ∧ path = cacheTempSource then none else first.files path := by
  obtain ⟨room, first, hroom, hrest⟩ := Prog.exec_bind_eq_ok hproduce
  cases room with
  | none =>
      obtain ⟨rfl, rfl⟩ : produced = .returned 1 ∧ middle = first := by
        simpa [eq_comm] using hrest
      simp [deliver] at hdeliver
  | some made =>
      dsimp only at hrest
      cases hpatch : args.patches[toUse.toNat]? with
      | none => simp [hpatch] at hrest
      | some patch =>
          rw [hpatch] at hrest
          obtain ⟨output, second, houtput, hlast⟩ := Prog.exec_bind_eq_ok hrest
          cases output with
          | none =>
              obtain ⟨rfl, rfl⟩ : produced = .returned 1 ∧ middle = second := by
                simpa [eq_comm] using hlast
              simp [deliver] at hdeliver
          | some output =>
              obtain ⟨rfl, hsecond⟩ := produce_ok htarget houtput
              obtain ⟨rfl, rfl⟩ : produced = .output (.file (outname args)) sourceToUse made ∧
                  middle = second := by
                simpa [eq_comm] using hlast
              obtain ⟨installed, hinstall, hafter⟩ := deliver_ok hdeliver
              obtain ⟨hgone, hsame⟩ := installOutput_ok hinstall
              refine ⟨made, first, hroom, ?_, ?_⟩
              · rw [hafter]
                cases made with
                | false => exact hgone
                | true =>
                    by_cases hcache : outname args = cacheTempSource
                    · rw [if_pos rfl, hcache, World.setFile_files_self]
                    · rw [if_pos rfl, World.setFile_files_ne _ _ hcache, hgone]
              · intro path hother hother'
                have hkept : installed.files path = first.files path := by
                  rw [hsame path hother hother', hsecond.files path hother]
                rw [hafter]
                cases made with
                | false => simpa using hkept
                | true =>
                    by_cases hcache : path = cacheTempSource
                    · rw [if_pos rfl, if_pos ⟨rfl, hcache⟩, hcache, World.setFile_files_self]
                    · rw [if_pos rfl, if_neg fun h => hcache h.2,
                        World.setFile_files_ne _ _ hcache, hkept]

/-- The source and the files of the cache other than the target are as they were. -/
def SourceKept (world after : World) (args : PatchArgs) : Prop :=
  after.files args.sourceFilename = world.files args.sourceFilename ∧
    ∀ path, "/cache/".toList <+: path → path ≠ args.target → after.files path = world.files path

/-- The target has the wanted hash already. -/
def AlreadyTarget (sha : Bytes → Digest) (world : World) (args : PatchArgs) : Prop :=
  ∃ file, world.files args.target = some file ∧ parseSha1 args.targetSha1Str = some (sha file.data)

/-- Nothing that is to be kept stands under the name that the target is written
under. -/
def OutnameFree (world : World) (args : PatchArgs) : Prop :=
  world.files (outname args) = none ∨
    (outname args ≠ args.sourceFilename ∧ ¬ "/cache/".toList <+: outname args)

theorem loads_of_file
    {filename : CString} {file : File} (hmtd : isMtd filename = false)
    (hfile : world.files filename = some file) {outcome : Option FileContents}
    (hloads : Loads env lib sha world filename (.ok outcome)) :
    outcome = some (.ofFile sha file) := by
  by_cases hmalloc : lib.malloc file.data.length = true
  · exact Except.ok.inj (hloads.unique (loads_file env lib sha hmtd hfile hmalloc))
  · have hstuck : Loads env lib sha world filename (.error .outOfBounds) := by
      intro contents
      rw [exec_loadFileContents env lib sha hmtd hfile, if_neg hmalloc]
    exact absurd (hloads.unique hstuck) (by simp)

/-- A load that the run has got past. -/
theorem loads_of_exec_ok
    {filename : CString} {file : FileContents} {result : Int × FileContents}
    (hexec : Prog.exec (World.handle env) (loadFileContents lib sha filename file) world =
      (.ok result, after)) :
    ∃ outcome, Loads env lib sha world filename (.ok outcome) := by
  obtain ⟨outcome, hloads⟩ := exists_loads env lib sha world filename
  cases outcome with
  | error stuck =>
      rw [hloads file] at hexec
      simp at hexec
  | ok outcome => exact ⟨outcome, hloads⟩

theorem alreadyTarget_iff
    {outcome : Option FileContents} (htarget : isMtd args.target = false)
    (hsha : parseSha1 args.targetSha1Str = some targetSha1)
    (hloads : Loads env lib sha world args.target (.ok outcome)) :
    AlreadyTarget sha world args ↔ ∃ loaded, outcome = some loaded ∧ loaded.sha1 = targetSha1 := by
  unfold AlreadyTarget
  rw [hsha]
  cases hfile : world.files args.target with
  | none =>
      have hmissing := Except.ok.inj (hloads.unique (loads_missing env lib sha htarget hfile))
      simp [hmissing]
  | some file =>
      rw [loads_of_file htarget hfile hloads]
      simp [FileContents.ofFile, eq_comm]

theorem selectCopy_ok
    {sourceFile copyFile : FileContents} {selection : Selection}
    (hexec : Prog.exec (World.handle env) (selectCopy lib sha args sourceFile copyFile) world =
      (.ok selection, after)) :
    after = world ∧ (selection = .returned 1 ∨
      ∃ copy toUse, selection = .copy sourceFile.free copy toUse) := by
  unfold selectCopy at hexec
  obtain ⟨⟨code, copy⟩, middle, hload, hrest⟩ := Prog.exec_bind_eq_ok hexec
  have hmiddle : middle = world := by
    have hagrees := exec_agrees env (@loadFileContents_within ∅ ∅ lib sha cacheTempSource copyFile)
      world
    rw [hload] at hagrees
    exact hagrees.eq
  subst hmiddle
  dsimp only at hrest
  split_ifs at hrest
  · simp only [Prog.exec_pure, Prod.mk.injEq, Except.ok.injEq] at hrest
    exact ⟨hrest.2.symm, .inl hrest.1.symm⟩
  · simp only [Prog.exec_pure, Prod.mk.injEq, Except.ok.injEq] at hrest
    exact ⟨hrest.2.symm, .inr ⟨_, _, hrest.1.symm⟩⟩
  · simp only [Prog.exec_pure, Prod.mk.injEq, Except.ok.injEq] at hrest
    exact ⟨hrest.2.symm, .inl hrest.1.symm⟩

/-- A run that goes through the copy deletes only what stood under the name that
the target is written under. -/
theorem sourceKept_iff_outnameFree
    (hdifferent : args.target ≠ args.sourceFilename)
    (hgone : after.files (outname args) = none)
    (hsame : ∀ path, path ≠ outname args → path ≠ args.target →
      after.files path = world.files path) :
    SourceKept world after args ↔ OutnameFree world args := by
  constructor
  · intro hkept
    by_cases hfree : world.files (outname args) = none
    · exact .inl hfree
    · refine .inr ⟨?_, ?_⟩
      · intro hsource
        have hlost := hkept.1
        rw [← hsource, hgone] at hlost
        exact hfree hlost.symm
      · intro hcache
        have hlost := hkept.2 (outname args) hcache (outname_ne_target args)
        rw [hgone] at hlost
        exact hfree hlost.symm
  · intro hfree
    have hall : ∀ path, path ≠ args.target →
        (path = args.sourceFilename ∨ "/cache/".toList <+: path) →
        after.files path = world.files path := by
      intro path htarget hpath
      by_cases hout : path = outname args
      · subst hout
        rcases hfree with hnone | ⟨hsource, hcache⟩
        · rw [hgone, hnone]
        · exact absurd hpath (not_or.mpr ⟨hsource, hcache⟩)
      · exact hsame path hout htarget
    exact ⟨hall _ hdifferent.symm (.inl rfl), fun path hcache htarget =>
      hall path htarget (.inr hcache)⟩

theorem reloadSource_loads
    {file loaded : FileContents} (hdifferent : args.target ≠ args.sourceFilename)
    (hexec : Prog.exec (World.handle env) (reloadSource lib sha args file) world =
      (.ok loaded, after)) :
    ∃ outcome, Loads env lib sha world args.sourceFilename (.ok outcome) := by
  unfold reloadSource at hexec
  rw [if_pos (.inr hdifferent)] at hexec
  obtain ⟨result, middle, hload, -⟩ := Prog.exec_bind_eq_ok hexec
  exact loads_of_exec_ok hload

/-- A search that goes on after the target has loaded the source. -/
theorem selectSource_loads
    {sourceFile copyFile : FileContents} {selection : Selection}
    (htarget : TargetDiffers env lib sha world args targetSha1)
    (hdifferent : args.target ≠ args.sourceFilename)
    (hexec : Prog.exec (World.handle env)
      (selectSource lib sha args targetSha1 sourceFile copyFile) world = (.ok selection, after)) :
    ∃ outcome, Loads env lib sha world args.sourceFilename (.ok outcome) := by
  obtain ⟨target, hloads, hdiffers⟩ := htarget
  unfold selectSource at hexec
  cases target with
  | none =>
      obtain ⟨failed, -, hload⟩ := hloads.exec_none sourceFile
      rw [Prog.exec_bind_ok hload] at hexec
      simp only [show ¬ ((-1 : Int) = 0) by decide, false_and, if_false] at hexec
      obtain ⟨loaded, middle, hreload, -⟩ := Prog.exec_bind_eq_ok hexec
      exact reloadSource_loads hdifferent hreload
  | some found =>
      rw [Prog.exec_bind_ok (hloads.exec_some sourceFile)] at hexec
      simp only [hdiffers found rfl, and_false, if_false] at hexec
      obtain ⟨loaded, middle, hreload, -⟩ := Prog.exec_bind_eq_ok hexec
      exact reloadSource_loads hdifferent hreload

/-- Whatever the free space is, a source that is patched to another name is
deleted; it is kept if there is nothing to do, or if the copy is patched and the
name that the target is written under is free. -/
theorem applypatch_keeps_source_iff
    (env : Env) (lib : Library) (sha : Bytes → Digest) (world after : World) (args : PatchArgs)
    (sourceFile copyFile : FileContents) (source : File)
    (hsource : isMtd args.sourceFilename = false) (htarget : isMtd args.target = false)
    (hdifferent : args.target ≠ args.sourceFilename)
    (hexists : world.files args.sourceFilename = some source)
    (hrun : Prog.exec (World.handle env) (applypatch lib sha args sourceFile copyFile) world =
      (.ok 0, after)) :
    SourceKept world after args ↔
      AlreadyTarget sha world args ∨
        (findMatchingPatch (sha source.data) args.patchSha1Str < 0 ∧ OutnameFree world args) := by
  unfold applypatch at hrun
  cases hsha : parseSha1 args.targetSha1Str with
  | none => simp [hsha] at hrun
  | some targetSha1 =>
      rw [hsha] at hrun
      obtain ⟨produced, middle, hproduce, hdeliver⟩ := Prog.exec_bind_eq_ok hrun
      obtain ⟨selection, chosen, hselect, hfrom⟩ := Prog.exec_bind_eq_ok hproduce
      obtain ⟨outcome, hloads⟩ : ∃ outcome, Loads env lib sha world args.target (.ok outcome) := by
        obtain ⟨result, loaded, hload, -⟩ := Prog.exec_bind_eq_ok hselect
        exact loads_of_exec_ok hload
      have hiff := alreadyTarget_iff htarget hsha hloads
      by_cases halready : AlreadyTarget sha world args
      · obtain ⟨loaded, rfl, hsame⟩ := hiff.mp halready
        have hreturned := hselect
        unfold selectSource at hreturned
        rw [Prog.exec_bind_ok (hloads.exec_some sourceFile)] at hreturned
        dsimp only at hreturned
        rw [if_pos ⟨rfl, hsame⟩, Prog.exec_pure, Prod.mk.injEq, Except.ok.injEq] at hreturned
        obtain ⟨rfl, rfl⟩ := hreturned
        obtain ⟨rfl, rfl⟩ : produced = .returned 0 ∧ middle = world := by
          simpa [eq_comm] using hfrom
        have hafter : after = middle := by simpa [deliver, eq_comm] using hdeliver
        subst hafter
        exact iff_of_true ⟨rfl, fun _ _ _ => rfl⟩ (.inl halready)
      · have hdiffers : TargetDiffers env lib sha world args targetSha1 :=
          ⟨outcome, hloads, fun loaded hloaded hsame => halready (hiff.mpr ⟨loaded, hloaded, hsame⟩)⟩
        obtain ⟨held, hsourceLoads⟩ := selectSource_loads hdiffers hdifferent hselect
        obtain rfl := loads_of_file hsource hexists hsourceLoads
        obtain ⟨loaded, hholds, hexec⟩ :=
          selectSource_exec sourceFile copyFile hdiffers hsourceLoads
        have hpatch : sourcePatch args loaded =
            findMatchingPatch (sha source.data) args.patchSha1Str :=
          sourcePatch_eq hsourceLoads hholds
        rw [hexec, hpatch] at hselect
        by_cases hfound : 0 ≤ findMatchingPatch (sha source.data) args.patchSha1Str
        · rw [if_pos hfound, Prog.exec_pure, Prod.mk.injEq, Except.ok.injEq] at hselect
          obtain ⟨rfl, rfl⟩ := hselect
          obtain ⟨made, first, hroom, hgone, hsame⟩ :=
            produceFrom_deliver htarget hfrom hdeliver
          obtain ⟨-, hdeleted⟩ := makeRoom_source htarget hroom
          have hlost : after.files args.sourceFilename = none := by
            by_cases hout : args.sourceFilename = outname args
            · rw [hout, hgone]
            · rw [hsame _ hout hdifferent.symm, hdeleted, ite_self]
          have hnot : ¬ SourceKept world after args := by
            intro hkept
            have hstill := hkept.1
            rw [hlost, hexists] at hstill
            cases hstill
          refine iff_of_false hnot ?_
          rintro (hdone | ⟨hmissing, -⟩)
          · exact halready hdone
          · exact absurd hfound (not_le.mpr hmissing)
        · rw [if_neg hfound] at hselect
          obtain ⟨rfl, rfl | ⟨copy, toUse, rfl⟩⟩ := selectCopy_ok hselect
          · obtain ⟨rfl, rfl⟩ : produced = .returned 1 ∧ middle = chosen := by
              simpa [eq_comm] using hfrom
            simp [deliver] at hdeliver
          · obtain ⟨made, first, hroom, hgone, hsame⟩ :=
              produceFrom_deliver htarget hfrom hdeliver
            obtain ⟨hmade, rfl⟩ := makeRoom_copy htarget hroom
            obtain rfl : made = false := Option.some.inj hmade
            have hkept := sourceKept_iff_outnameFree hdifferent hgone fun path hout hother =>
              by simpa using hsame path hout hother
            rw [hkept]
            constructor
            · exact fun hfree => .inr ⟨not_le.mp hfound, hfree⟩
            · rintro (hdone | ⟨-, hfree⟩)
              · exact absurd hdone halready
              · exact hfree

end Runs

/-! ## A patch with plenty of space -/

/-- The hash of the file with the single byte 1. -/
def oneSha1Str : CString := "bf8b4530d8d246dd74ac53a13471bba17941dff7".toList

/-- SHA-1 on the empty file and on the file with the single byte 1. -/
def twoFileSha (bytes : Bytes) : Digest :=
  if bytes = [1] then (parseSha1 oneSha1Str).getD (List.Vector.replicate 20 0)
  else sampleSha bytes

/-- A system with four megabytes free everywhere. -/
def roomyEnv : Env where
  readdir _ _ := none
  openFiles _ := none
  statfs _ _ := some (4096, 1000)

/-- The patch that empties the file with the single byte 1. -/
def emptyingArgs : PatchArgs where
  sourceFilename := "/system/a".toList
  targetFilename := "/system/b".toList
  targetSha1Str := emptySha1Str
  targetSize := 0
  patches := [⟨oneSha1Str, ⟨true, emptyBsdiff⟩⟩]

/-- The source and, if it is there already, the target. -/
def emptyingWorld (target : Option File) : World where
  files := Function.update (Function.update (fun _ => none) "/system/a".toList
    (some ⟨[1], 0o644, 0, 0⟩)) "/system/b".toList target
  partitions _ := none
  stdout := []

theorem emptying_runs (target : Option File) (htarget : target = none ∨ target = some emptyFile) :
    (Prog.exec (World.handle roomyEnv) (applypatch sampleLibrary twoFileSha emptyingArgs
      uninitialized uninitialized) (emptyingWorld target)).1 = .ok 0 := by
  rcases htarget with rfl | rfl
  · with_unfolding_all decide
  · decide

theorem applypatch_keeps_source_iff_installed :
    SourceKept (emptyingWorld (some emptyFile)) (Prog.exec (World.handle roomyEnv)
        (applypatch sampleLibrary twoFileSha emptyingArgs uninitialized uninitialized)
        (emptyingWorld (some emptyFile))).2 emptyingArgs ↔
      AlreadyTarget twoFileSha (emptyingWorld (some emptyFile)) emptyingArgs ∨
        (findMatchingPatch (twoFileSha [1]) emptyingArgs.patchSha1Str < 0 ∧
          OutnameFree (emptyingWorld (some emptyFile)) emptyingArgs) :=
  applypatch_keeps_source_iff roomyEnv sampleLibrary twoFileSha (emptyingWorld (some emptyFile)) _
    emptyingArgs uninitialized uninitialized ⟨[1], 0o644, 0, 0⟩ (by decide) (by decide) (by decide)
    (by decide) (Prod.ext (emptying_runs _ (.inr rfl)) rfl)

/-- The source is gone after a run that had enough space. -/
theorem roomy_source_deleted :
    (∀ world path, roomyEnv.statfs world path = some (4096, 1000)) ∧
      emptyingArgs.targetSize * 3 / 2 < 4096 * 1000 ∧
      ((emptyingWorld none).files emptyingArgs.sourceFilename).isSome = true ∧
      (Prog.exec (World.handle roomyEnv) (applypatch sampleLibrary twoFileSha emptyingArgs
        uninitialized uninitialized) (emptyingWorld none)).1 = .ok 0 ∧
      ((Prog.exec (World.handle roomyEnv) (applypatch sampleLibrary twoFileSha emptyingArgs
        uninitialized uninitialized) (emptyingWorld none)).2.files
          emptyingArgs.sourceFilename).isSome = false := by
  refine ⟨fun _ _ => rfl, by decide, by decide, ?_, ?_⟩
  · exact emptying_runs none (.inl rfl)
  · with_unfolding_all decide

end OpenRecovery
