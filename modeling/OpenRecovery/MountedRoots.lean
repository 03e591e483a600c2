import OpenRecovery.SystemFrames
import OpenRecovery.Roots
import Mathlib

/-!
# Erasing a root that may be mounted

`format_root_device` looks for the mount point among the volumes that it finds
in the first 2047 bytes of `/proc/mounts`, and unmounts it once.  So it erases a
mounted partition if the line of the mount is not seen, or if more than one file
system is mounted there.
-/

namespace OpenRecovery

open Effects Mtd

/-! ## What the scan sees -/

/-- A word of `/proc/mounts`. -/
def IsWord (word : CString) : Prop :=
  word ≠ [] ∧ ∀ c ∈ word, isSpace c = false

/-- The kernel writes no blanks inside a field. -/
structure Mount.WellFormed (mount : Mount) : Prop where
  device : IsWord mount.device
  mountPoint : IsWord mount.mountPoint
  filesystem : IsWord mount.filesystem
  flags : IsWord mount.flags

/-- Words, each followed by a blank. -/
def spell (words : List CString) (tail : CString) : CString :=
  words.foldr (fun word text => word ++ ' ' :: text) tail

theorem Mount.line_eq (mount : Mount) :
    mount.line = spell [mount.device, mount.mountPoint, mount.filesystem, mount.flags]
      "0 0\n".toList := rfl

theorem scanWord_word
    {blanks word tail : CString} {width : Nat} (hblanks : ∀ c ∈ blanks, isSpace c = true)
    (hword : IsWord word) (hwidth : 0 < width) :
    scanWord width (blanks ++ (word ++ ' ' :: tail)) =
      some (word.take width, word.drop width ++ ' ' :: tail) := by
  obtain ⟨hne, hspace⟩ := hword
  have hstart : (blanks ++ (word ++ ' ' :: tail)).dropWhile isSpace = word ++ ' ' :: tail := by
    rw [List.dropWhile_append_of_pos hblanks]
    cases word with
    | nil => exact absurd rfl hne
    | cons c rest => simp [hspace c (by simp)]
  have htaken : ((word ++ ' ' :: tail).take width).takeWhile (fun c => !isSpace c) =
      word.take width := by
    rw [List.take_append, List.takeWhile_append_of_pos]
    · cases htail : (' ' :: tail).take (width - word.length) with
      | nil => simp
      | cons c rest =>
          have hc : c = ' ' := by
            cases hroom : width - word.length with
            | zero => simp [hroom] at htail
            | succ room =>
                rw [hroom, List.take_succ_cons] at htail
                exact (List.cons.inj htail).1.symm
          simp [hc, isSpace]
    · intro c hc
      simp [hspace c (List.mem_of_mem_take hc)]
  have htake : word.take width ≠ [] := by
    cases word with
    | nil => exact absurd rfl hne
    | cons c rest =>
        cases width with
        | zero => omega
        | succ width => simp
  simp only [scanWord, hstart, htaken, htake, if_false]
  rw [List.length_take, List.drop_append]
  congr 3
  · rcases le_total width word.length with hle | hle
    · rw [min_eq_left hle]
    · rw [min_eq_right hle, List.drop_length, List.drop_of_length_le hle]
  · simp

/-- One conversion uses up at most one word, and does not look behind the
words. -/
theorem scanWord_spell
    {blanks : CString} {words : List CString} {width : Nat}
    (hblanks : ∀ c ∈ blanks, isSpace c = true) (hwords : ∀ word ∈ words, IsWord word)
    (hsome : words ≠ []) (hwidth : 0 < width) :
    ∃ field blanks' words', (∀ c ∈ blanks', isSpace c = true) ∧
      (∀ word ∈ words', IsWord word) ∧ words.length ≤ words'.length + 1 ∧
      ∀ tail, scanWord width (blanks ++ spell words tail) =
        some (field, blanks' ++ spell words' tail) := by
  cases words with
  | nil => exact absurd rfl hsome
  | cons word words =>
      have hscan : ∀ tail, scanWord width (blanks ++ spell (word :: words) tail) =
          some (word.take width, word.drop width ++ ' ' :: spell words tail) := fun tail =>
        scanWord_word hblanks (hwords word (by simp)) hwidth
      have hrest : ∀ other ∈ words, IsWord other := fun other h => hwords other (by simp [h])
      by_cases hlong : word.drop width = []
      · refine ⟨word.take width, [' '], words, by simp [isSpace], hrest, by simp, fun tail => ?_⟩
        rw [hscan, hlong]
        rfl
      · refine ⟨word.take width, [], word.drop width :: words, by simp, ?_, by simp, hscan⟩
        rintro other (_ | ⟨_, hother⟩)
        · exact ⟨hlong, fun c hc =>
            (hwords word (by simp)).2 c (List.mem_of_mem_drop hc)⟩
        · exact hrest other hother

/-- The four conversions stay inside a line. -/
theorem scanFields_line {mount : Mount} (hmount : mount.WellFormed) :
    ∃ volume, ∀ text, scanFields (mount.line ++ text) = some volume := by
  have hwords : ∀ word ∈ [mount.device, mount.mountPoint, mount.filesystem, mount.flags],
      IsWord word := by
    rintro word (_ | ⟨_, _ | ⟨_, _ | ⟨_, _ | ⟨_, h⟩⟩⟩⟩)
    · exact hmount.device
    · exact hmount.mountPoint
    · exact hmount.filesystem
    · exact hmount.flags
    · cases h
  obtain ⟨device, blanks₁, words₁, hblanks₁, hwords₁, hlen₁, hscan₁⟩ :=
    @scanWord_spell [] _ 63 (by simp) hwords (by simp) (by decide)
  obtain ⟨mountPoint, blanks₂, words₂, hblanks₂, hwords₂, hlen₂, hscan₂⟩ :=
    @scanWord_spell _ _ 63 hblanks₁ hwords₁ (by rintro rfl; simp at hlen₁) (by decide)
  obtain ⟨filesystem, blanks₃, words₃, hblanks₃, hwords₃, hlen₃, hscan₃⟩ :=
    @scanWord_spell _ _ 63 hblanks₂ hwords₂ (by rintro rfl; simp at hlen₁ hlen₂; omega)
        (by decide)
  obtain ⟨flags, blanks₄, words₄, -, -, -, hscan₄⟩ :=
    @scanWord_spell _ _ 127 hblanks₃ hwords₃ (by rintro rfl; simp at hlen₁ hlen₂ hlen₃; omega)
        (by decide)
  refine ⟨⟨device, mountPoint, filesystem, flags⟩, fun text => ?_⟩
  have hline : mount.line ++ text = [] ++ spell
      [mount.device, mount.mountPoint, mount.filesystem, mount.flags]
      ("0 0\n".toList ++ text) := by
    rw [Mount.line_eq]
    simp [spell]
  rw [scanFields, hline, hscan₁]
  simp only [Option.bind_eq_bind, Option.bind_some, hscan₂, hscan₃, hscan₄]

theorem newline_notMem_spell
    {words : List CString} {tail : CString} (hwords : ∀ word ∈ words, IsWord word)
    (htail : '\n' ∉ tail) : '\n' ∉ spell words tail := by
  induction words with
  | nil => exact htail
  | cons word words ih =>
      have hword : '\n' ∉ word := fun h => by
        have hspace := (hwords word (by simp)).2 _ h
        exact absurd hspace (by decide)
      have hrest := ih fun other h => hwords other (by simp [h])
      simp only [spell, List.foldr_cons, List.mem_append, List.mem_cons, not_or]
      exact ⟨hword, by decide, hrest⟩

/-- A line is a text without a newline, and a newline. -/
theorem exists_line_body {mount : Mount} (hmount : mount.WellFormed) :
    ∃ body, mount.line = body ++ ['\n'] ∧ '\n' ∉ body := by
  refine ⟨spell [mount.device, mount.mountPoint, mount.filesystem, mount.flags] "0 0".toList,
    by simp [Mount.line_eq, spell], newline_notMem_spell ?_ (by decide)⟩
  rintro word (_ | ⟨_, _ | ⟨_, _ | ⟨_, _ | ⟨_, h⟩⟩⟩⟩)
  · exact hmount.device
  · exact hmount.mountPoint
  · exact hmount.filesystem
  · exact hmount.flags
  · cases h

theorem eatLine_append {body text : CString} (hbody : '\n' ∉ body) :
    eatLine (body ++ '\n' :: text) = text := by
  have hall : ∀ c ∈ body, decide (c ≠ '\n') = true := by
    intro c hc
    exact decide_eq_true fun h => hbody (h ▸ hc)
  rw [eatLine, List.dropWhile_append_of_pos hall, List.dropWhile_cons_of_neg (by simp)]
  rfl

theorem eatLine_of_notMem {text : CString} (htext : '\n' ∉ text) : eatLine text = [] := by
  have hall : ∀ c ∈ text, decide (c ≠ '\n') = true := by
    intro c hc
    exact decide_eq_true fun h => htext (h ▸ hc)
  have hdrop := @List.dropWhile_append_of_pos _ _ _ [] hall
  rw [List.append_nil, List.dropWhile_nil] at hdrop
  rw [eatLine, hdrop]
  rfl

/-- What of the given lines lies in the first `room` bytes. -/
def visibleLines : (room : Nat) → List CString → List CString
  | _, [] => []
  | room, line :: lines =>
      if room = 0 then [] else line.take room :: visibleLines (room - line.length) lines

theorem scanLines_nil (fuel : Nat) : scanLines fuel [] = [] := by
  cases fuel with
  | zero => rfl
  | succ fuel => rfl

/-- One round of the scan for each visible line. -/
theorem scanLines_visible
    {mounts : List Mount} {fuel room : Nat} (hmounts : ∀ mount ∈ mounts, mount.WellFormed)
    (hfuel : ((procMounts mounts).take room).length ≤ fuel) :
    scanLines fuel ((procMounts mounts).take room) =
      (visibleLines room (mounts.map Mount.line)).filterMap scanFields := by
  induction mounts generalizing fuel room with
  | nil => simp [procMounts, scanLines_nil, visibleLines]
  | cons mount mounts ih =>
      obtain ⟨body, hline, hbody⟩ := exists_line_body (hmounts mount (by simp))
      have hrest : ∀ other ∈ mounts, other.WellFormed := fun other h => hmounts other (by simp [h])
      have htext : procMounts (mount :: mounts) = mount.line ++ procMounts mounts := by
        simp [procMounts]
      have hlength : mount.line.length = body.length + 1 := by simp [hline]
      rw [List.map_cons, visibleLines, htext]
      rw [htext] at hfuel
      by_cases hroom : room = 0
      · simp [hroom, scanLines_nil]
      · rw [if_neg hroom, List.filterMap_cons]
        obtain ⟨fuel, rfl⟩ : ∃ fuel', fuel = fuel' + 1 := by
          refine ⟨fuel - 1, ?_⟩
          have hone : 1 ≤ ((mount.line ++ procMounts mounts).take room).length := by
            rw [List.length_take, List.length_append]
            omega
          omega
        rcases lt_or_ge mount.line.length room with hlong | hshort
        · have htake : (mount.line ++ procMounts mounts).take room =
              mount.line ++ (procMounts mounts).take (room - mount.line.length) := by
            rw [List.take_append, List.take_of_length_le hlong.le]
          have heat : eatLine (mount.line ++ (procMounts mounts).take (room - mount.line.length)) =
              (procMounts mounts).take (room - mount.line.length) := by
            rw [hline, List.append_assoc, List.singleton_append, eatLine_append hbody]
          obtain ⟨volume, hscan⟩ := scanFields_line (hmounts mount (by simp))
          have hself : scanFields mount.line = some volume := by simpa using hscan []
          rw [htake] at hfuel ⊢
          rw [scanLines, if_neg (by simp [hline]), hscan, heat,
            List.take_of_length_le hlong.le, hself]
          simp only
          rw [ih hrest]
          rw [List.length_append] at hfuel
          omega
        · have htake : (mount.line ++ procMounts mounts).take room = mount.line.take room := by
            rw [List.take_append_of_le_length hshort]
          have hnone : room - mount.line.length = 0 := by omega
          have hempty : visibleLines 0 (mounts.map Mount.line) = [] := by
            cases mounts with
            | nil => rfl
            | cons other mounts => rfl
          have heat : eatLine (mount.line.take room) = [] := by
            rcases Nat.lt_or_ge body.length room with hall | hpart
            · rw [List.take_of_length_le (by omega), hline, eatLine_append hbody]
            · rw [hline, List.take_append_of_le_length hpart]
              exact eatLine_of_notMem fun h => hbody (List.mem_of_mem_take h)
          have hsome : mount.line.take room ≠ [] := by
            intro h
            have hzero := congrArg List.length h
            rw [List.length_take, List.length_nil] at hzero
            omega
          rw [htake, scanLines, if_neg hsome, heat, scanLines_nil, hnone, hempty]
          cases scanFields (mount.line.take room) with
          | none => rfl
          | some volume => rfl

/-- The volumes that the scan finds. -/
def seenVolumes (mounts : List Mount) : List Mount :=
  (visibleLines mountsSize (mounts.map Mount.line)).filterMap scanFields

theorem scanMountedVolumes_exec
    (env : Env) {world : World} (hmounts : ∀ mount ∈ world.mounts, mount.WellFormed) :
    Prog.exec (World.handle env) scanMountedVolumes world =
      (if (seenVolumes world.mounts).length ≤ volumesAllocd then
        .ok (some (seenVolumes world.mounts)) else .error .outOfBounds, world) := by
  have hread : Prog.exec (World.handle env) (call (.readMounts mountsSize)) world =
      (.ok (some ((procMounts world.mounts).take mountsSize)), world) := rfl
  rw [scanMountedVolumes, Prog.exec_bind_ok hread]
  simp only [scanLines_visible hmounts le_rfl]
  by_cases hfits : (seenVolumes world.mounts).length ≤ volumesAllocd
  · rw [if_pos hfits]
    exact congrArg (Prog.exec _ · _) (if_pos hfits)
  · rw [if_neg hfits]
    exact congrArg (Prog.exec _ · _) (if_neg hfits)

/-! ## Which requests erase -/

/-- Number of file systems mounted at a place. -/
def mountedAt (mountPoint : CString) (mounts : List Mount) : Nat :=
  mounts.countP fun mount => mount.mountPoint = mountPoint

theorem mountedAt_unmountTop
    {mountPoint : CString} {mounts : List Mount}
    (hmounted : ∃ mount ∈ mounts, mount.mountPoint = mountPoint) :
    mountedAt mountPoint (unmountTop mountPoint mounts) = mountedAt mountPoint mounts - 1 := by
  obtain ⟨mount, hmem, hpoint⟩ := hmounted
  unfold mountedAt unmountTop
  rw [List.countP_reverse]
  obtain ⟨found, before, after, hbefore, hfound, hsplit, herase⟩ :=
    List.exists_of_eraseP (p := fun mount : Mount => decide (mount.mountPoint = mountPoint))
      (List.mem_reverse.mpr hmem) (by simpa using hpoint)
  rw [herase, ← List.countP_reverse (l := mounts), hsplit]
  rw [List.countP_append, List.countP_append,
    List.countP_cons_of_pos (p := fun mount : Mount => decide (mount.mountPoint = mountPoint)) hfound]
  omega

section Erasing

variable {partition : MtdPartition}

/-- A guard that only looks at erasures. -/
def eraseGuard (allowed : World → Prop) (op : SysOp) (world : World) : Prop :=
  ∀ name pos, op = .mtd name (.memErase pos) → allowed world

/-- The same on a partition, with a condition that does not change. -/
def flashGuard (allowed : Prop) (op : MtdOp) (_ : Flash partition) : Prop :=
  ∀ pos, op = .memErase pos → allowed

theorem guarded_onPartition
    (env : Env) {α : Type} {name : CString} {allowed : List Mount → Prop} (program : MtdProg α)
    {world : World} {flash : Flash partition}
    (hflash : world.partitions name = some ⟨partition, flash⟩) :
    (onPartition name program).Guarded (World.handle env)
        (eraseGuard fun world => allowed world.mounts) world ↔
      program.Guarded Flash.handle (flashGuard (allowed world.mounts)) flash := by
  unfold onPartition
  induction program generalizing world flash with
  | pure value => exact Iff.rfl
  | request op next ih =>
      have hguard : eraseGuard (fun world => allowed world.mounts) (.mtd name op) world ↔
          flashGuard (allowed world.mounts) op flash := by
        constructor
        · rintro h pos rfl
          exact h name pos rfl
        · rintro h name' pos hop
          cases hop
          exact h pos rfl
      rw [Prog.translate, Prog.ask_bind_eq, Prog.Guarded, Prog.Guarded, handle_mtd env op hflash,
        hguard]
      exact and_congr Iff.rfl (ih _ (World.setFlash_partitions_self ..))

theorem guarded_eraseLoop {allowed : Prop} (left pos : Nat) (flash : Flash partition) :
    (eraseLoop left pos).Guarded Flash.handle (flashGuard allowed) flash ↔
      ((∃ block, pos ≤ block ∧ block < pos + left ∧ flash.bad block = false) → allowed) := by
  induction left generalizing pos flash with
  | zero =>
      refine iff_of_true trivial ?_
      rintro ⟨block, hle, hlt, -⟩
      omega
  | succ left ih =>
      have hstep : (eraseLoop (left + 1) pos).Guarded Flash.handle (flashGuard allowed) flash ↔
          if flash.bad pos then
            (eraseLoop left (pos + 1)).Guarded Flash.handle (flashGuard allowed) flash
          else
            allowed ∧ (eraseLoop left (pos + 1)).Guarded Flash.handle (flashGuard allowed)
              (flash.setBlock pos (erasedBlock partition)) := by
        have hquery : (memGetBadBlock pos).Guarded Flash.handle (flashGuard allowed) flash :=
          ⟨fun _ h => (nomatch h), trivial⟩
        have hreply : (memGetBadBlock pos).run Flash.handle flash =
            ((if flash.bad pos then 1 else 0 : Int), flash) := rfl
        have herase : (memErase pos).Guarded Flash.handle (flashGuard allowed) flash ↔ allowed :=
          ⟨fun h => h.1 pos rfl, fun h => ⟨fun _ _ => h, trivial⟩⟩
        have hdone : (memErase pos).run Flash.handle flash =
            (true, flash.setBlock pos (erasedBlock partition)) := rfl
        rw [eraseLoop, Prog.guarded_bind, hreply, and_iff_right hquery]
        cases flash.bad pos with
        | true => exact Iff.rfl
        | false => exact (Prog.guarded_bind ..).trans (by rw [herase, hdone]; rfl)
      rw [hstep]
      cases hbad : flash.bad pos with
      | true =>
          simp only [if_true, ih]
          refine imp_congr ⟨?_, ?_⟩ Iff.rfl
          · rintro ⟨block, hle, hlt, hgood⟩
            exact ⟨block, by omega, by omega, hgood⟩
          · rintro ⟨block, hle, hlt, hgood⟩
            have hne : block ≠ pos := by
              rintro rfl
              rw [hbad] at hgood
              cases hgood
            exact ⟨block, by omega, by omega, hgood⟩
      | false =>
          simp only [if_false, Bool.false_eq_true, ih]
          exact ⟨fun h _ => h.1, fun h => ⟨h ⟨pos, le_rfl, by omega, hbad⟩,
            fun _ => h ⟨pos, le_rfl, by omega, hbad⟩⟩⟩

theorem mtdEraseBlocks_start (partition : MtdPartition) :
    mtdEraseBlocks partition mtdWritePartition (-1) =
      eraseLoop partition.blockCount 0 >>= fun pos =>
        pure (((pos * partition.eraseSize : Nat) : Int), mtdWritePartition) := by
  have htotal : ((partition.size : Int) / partition.eraseSize).toNat =
      partition.size / partition.eraseSize := by
    rw [← Int.natCast_ediv, Int.toNat_natCast]
  simp [mtdEraseBlocks, flushPending, mtdWritePartition, MtdPartition.blockCount, htotal]

theorem mtdWriteClose_start (partition : MtdPartition) :
    mtdWriteClose partition mtdWritePartition = pure 0 := by
  have htotal : ¬ (partition.size : Int) / partition.eraseSize < 0 := by
    rw [← Int.natCast_ediv]
    exact not_lt.mpr (Int.natCast_nonneg _)
  simp [mtdWriteClose, mtdEraseBlocks, flushPending, mtdWritePartition, eraseLoop, htotal]

/-- The erasure of a partition issues a request if there is a good block. -/
theorem guarded_eraseAll {allowed : Prop} (flash : Flash partition) :
    (eraseAll partition).Guarded Flash.handle (flashGuard allowed) flash ↔
      (flash.goodFrom 0 ≠ [] → allowed) := by
  have hgood : (∃ block, 0 ≤ block ∧ block < 0 + partition.blockCount ∧
      flash.bad block = false) ↔ flash.goodFrom 0 ≠ [] := by
    unfold Flash.goodFrom
    rw [Ne, List.filter_eq_nil_iff]
    push Not
    constructor
    · rintro ⟨block, -, hlt, hbad⟩
      exact ⟨block, by simpa using hlt, by simpa using hbad⟩
    · rintro ⟨block, hmem, hbad⟩
      exact ⟨block, Nat.zero_le _, by simpa using hmem, by simpa using hbad⟩
  rw [← hgood, ← guarded_eraseLoop, eraseAll, mtdEraseBlocks_start, Prog.guarded_bind,
    Prog.guarded_bind]
  refine ⟨fun h => h.1.1, fun h => ⟨⟨h, trivial⟩, ?_⟩⟩
  simp only [Prog.run_bind, Prog.pure_eq, Prog.run_pure, mtdWriteClose_start]
  split
  · trivial
  · trivial

end Erasing

section Formatting

variable {build : Build} {env : Env} {world : World} {root : CString} {info : RootInfo}

theorem guarded_call_bind
    {β : Type} {op : SysOp} {guard : SysOp → World → Prop} {rest : op.Reply → Checked β}
    (hguard : guard op world) :
    Prog.Guarded (World.handle env) guard (call op >>= rest).run world ↔
      Prog.Guarded (World.handle env) guard (rest (World.handle env op world).1).run
        (World.handle env op world).2 := by
  have hexec : Prog.exec (World.handle env) (call op) world =
      (.ok (World.handle env op world).1, (World.handle env op world).2) := Prog.exec_lift _ _
  rw [Prog.guarded_run_bind, hexec]
  refine ⟨fun h => h.2 _ rfl, fun h => ⟨Prog.guarded_run_lift.mpr ⟨hguard, trivial⟩, ?_⟩⟩
  intro value hvalue
  exact Except.ok.inj hvalue ▸ h

/-- The partition of a root is there, and it has a good block. -/
def HasGoodBlock (world : World) (info : RootInfo) (name : CString) : Prop :=
  (info.filesystem = some .raw ∨ info.filesystem = some (.named "yaffs2".toList)) ∧
    ∃ partition flash, world.partitions name = some ⟨partition, flash⟩ ∧
      Flash.goodFrom flash 0 ≠ []

theorem guarded_formatMtd
    {allowed : List Mount → Prop} {name : CString} (hname : info.partitionName = some name) :
    Prog.Guarded (World.handle env) (eraseGuard fun world => allowed world.mounts)
        (formatMtd info).run world ↔
      (HasGoodBlock world info name → allowed world.mounts) := by
  unfold formatMtd
  simp only [hname]
  rw [guarded_call_bind (by simp [eraseGuard]), guarded_call_bind (by simp [eraseGuard])]
  simp only [World.handle]
  cases hflash : world.partitions name with
  | none =>
      refine iff_of_true trivial ?_
      rintro ⟨-, partition, flash, hsome, -⟩
      rw [hflash] at hsome
      cases hsome
  | some entry =>
      obtain ⟨partition, flash⟩ := entry
      simp only [Option.map_some]
      split_ifs with hfilesystem
      · rw [guarded_call_bind (by simp [eraseGuard])]
        simp only [World.handle, hflash, Option.isSome_some, if_true]
        rw [Prog.guarded_run_lift, guarded_onPartition env _ hflash, guarded_eraseAll]
        refine imp_congr ⟨fun h => ⟨hfilesystem, partition, flash, hflash, h⟩, ?_⟩ Iff.rfl
        rintro ⟨-, partition', flash', hsome, hgood⟩
        rw [hflash] at hsome
        cases hsome
        exact hgood
      · exact iff_of_true trivial fun h => absurd h.1 hfilesystem

/-- Unmounting erases nothing. -/
theorem guarded_unmountForFormat {allowed : World → Prop} :
    Prog.Guarded (World.handle env) (eraseGuard allowed)
      (unmountForFormat build root info).run world := by
  have hscan : Prog.Uses (fun op => ∀ name pos, op ≠ .mtd name (.memErase pos))
      scanMountedVolumes.run := by
    refine Prog.uses_run_bind (Prog.uses_run_lift ⟨by simp, fun _ => trivial⟩) ?_
    rintro (_ | text)
    · trivial
    · simp only
      split_ifs
      · trivial
      · trivial
  have huses : Prog.Uses (fun op => ∀ name pos, op ≠ .mtd name (.memErase pos))
      (unmountForFormat build root info).run := by
    unfold unmountForFormat
    split_ifs
    · trivial
    · unfold ensureRootPathUnmounted
      split
      · trivial
      · split
        · trivial
        · refine Prog.uses_run_bind hscan ?_
          rintro (_ | volumes)
          · trivial
          · simp only
            split
            · trivial
            · refine Prog.uses_run_bind (Prog.uses_run_lift ⟨by simp, fun _ => trivial⟩) ?_
              rintro (_ | _)
              · trivial
              · trivial
  exact @Prog.Uses.guarded _ _ _ _ _ _ _ (fun _ => True) _ _ huses
      (fun op _ hop _ => ⟨fun name pos h => absurd h (hop name pos), trivial⟩) trivial

/-- Some visible line shows the mount point. -/
def Seen (mountPoint : CString) (mounts : List Mount) : Prop :=
  ∃ volume ∈ seenVolumes mounts, volume.mountPoint = mountPoint

instance (mountPoint : CString) (mounts : List Mount) : Decidable (Seen mountPoint mounts) :=
  inferInstanceAs (Decidable (∃ volume ∈ seenVolumes mounts, volume.mountPoint = mountPoint))

theorem unmountForFormat_exec
    {mountPoint : CString} (hmounts : ∀ mount ∈ world.mounts, mount.WellFormed)
    (hinfo : getRootInfoForPath build root = some info) (hpoint : info.mountPoint = some mountPoint)
    (hfits : (seenVolumes world.mounts).length ≤ volumesAllocd) :
    (Seen mountPoint world.mounts ∧
      Prog.exec (World.handle env) (unmountForFormat build root info) world =
        (.ok (if (World.handle env (.umount mountPoint) world).1 then 0 else -1),
          (World.handle env (.umount mountPoint) world).2)) ∨
    (¬ Seen mountPoint world.mounts ∧
      Prog.exec (World.handle env) (unmountForFormat build root info) world = (.ok 0, world)) := by
  have hscan := scanMountedVolumes_exec env hmounts
  rw [if_pos hfits] at hscan
  unfold unmountForFormat
  rw [if_neg (by simp [hpoint])]
  unfold ensureRootPathUnmounted
  simp only [hinfo, hpoint]
  rw [Prog.exec_bind_ok hscan]
  simp only [findMountedVolumeByMountPoint]
  cases hfind : (seenVolumes world.mounts).find? fun volume => volume.mountPoint = mountPoint with
  | none =>
      refine .inr ⟨?_, rfl⟩
      rintro ⟨volume, hmem, hvolume⟩
      exact absurd hvolume (by simpa using List.find?_eq_none.mp hfind volume hmem)
  | some volume =>
      have hvolume : volume.mountPoint = mountPoint := by simpa using List.find?_some hfind
      refine .inl ⟨⟨volume, List.mem_of_find?_eq_some hfind, hvolume⟩, ?_⟩
      subst hvolume
      have hexec : Prog.exec (World.handle env) (call (.umount volume.mountPoint)) world =
          (.ok (World.handle env (.umount volume.mountPoint) world).1,
            (World.handle env (.umount volume.mountPoint) world).2) := Prog.exec_lift _ _
      simp only [unmountMountedVolume]
      rw [Prog.exec_bind_ok hexec]
      split
      · rfl
      · rfl

theorem handle_umount_mounted
    {mountPoint : CString} (hmounted : 0 < mountedAt mountPoint world.mounts) :
    World.handle env (.umount mountPoint) world =
      if env.canUmount world mountPoint then
        (true, { world with mounts := unmountTop mountPoint world.mounts })
      else (false, world) := by
  have hexists : ∃ mount ∈ world.mounts, mount.mountPoint = mountPoint := by
    simpa [mountedAt, List.countP_pos_iff] using hmounted
  simp [World.handle, hexists]

theorem handle_umount_unmounted
    {mountPoint : CString} (hnone : mountedAt mountPoint world.mounts = 0) :
    World.handle env (.umount mountPoint) world = (false, world) := by
  have hall : ¬ ∃ mount ∈ world.mounts, mount.mountPoint = mountPoint := by
    simpa [mountedAt, List.countP_eq_zero] using hnone
  simp [World.handle, hall]

/-- The root has a mount point and a partition with a block to erase. -/
def Erasable (build : Build) (world : World) (root mountPoint : CString) : Prop :=
  root.dropWhile (· ≠ ':') = [':'] ∧
    ∃ info name, getRootInfoForPath build root = some info ∧ info.device = some .mtd ∧
      info.mountPoint = some mountPoint ∧ info.partitionName = some name ∧
      HasGoodBlock world info name

/-- Erasing never begins while something is mounted at the mount point of the
root. -/
def ErasesUnmounted (build : Build) (world : World) (root : CString) : Prop :=
  ∀ env info mountPoint, getRootInfoForPath build root = some info →
    info.mountPoint = some mountPoint →
    Prog.Guarded (World.handle env)
      (eraseGuard fun state => mountedAt mountPoint state.mounts = 0)
      (formatRootDevice build root).run world

/-- The scan stays inside its table. -/
def ScanFits (world : World) : Prop :=
  ∀ env, (Prog.exec (World.handle env) scanMountedVolumes world).1 ≠ .error .outOfBounds

theorem scanFits_iff (hmounts : ∀ mount ∈ world.mounts, mount.WellFormed) :
    ScanFits world ↔ (seenVolumes world.mounts).length ≤ volumesAllocd := by
  constructor
  · intro hfits
    by_contra hlong
    refine hfits sampleEnv ?_
    rw [scanMountedVolumes_exec _ hmounts, if_neg hlong]
  · intro hfits env
    rw [scanMountedVolumes_exec _ hmounts, if_pos hfits]
    simp

/-- What is still mounted when the erasure of a root begins. -/
theorem guarded_formatRootDevice
    {mountPoint name : CString} (hmounts : ∀ mount ∈ world.mounts, mount.WellFormed)
    (hshape : root.dropWhile (· ≠ ':') = [':'])
    (hinfo : getRootInfoForPath build root = some info) (hdevice : info.device = some .mtd)
    (hpoint : info.mountPoint = some mountPoint) (hname : info.partitionName = some name)
    (hfits : (seenVolumes world.mounts).length ≤ volumesAllocd) :
    Prog.Guarded (World.handle env)
        (eraseGuard fun state => mountedAt mountPoint state.mounts = 0)
        (formatRootDevice build root).run world ↔
      (HasGoodBlock world info name →
        (Seen mountPoint world.mounts → 0 < mountedAt mountPoint world.mounts →
          env.canUmount world mountPoint = true → mountedAt mountPoint world.mounts = 1) ∧
        (¬ Seen mountPoint world.mounts → mountedAt mountPoint world.mounts = 0)) := by
  unfold formatRootDevice
  simp only [hshape, ne_eq, not_true_eq_false, if_false, hinfo, hdevice]
  rw [Prog.guarded_run_bind, and_iff_right guarded_unmountForFormat]
  rcases @unmountForFormat_exec _ env _ _ _ _ hmounts hinfo hpoint hfits with
    ⟨hseen, hexec⟩ | ⟨hunseen, hexec⟩
  · rw [hexec]
    rcases Nat.eq_zero_or_pos (mountedAt mountPoint world.mounts) with hnone | hmounted
    · rw [handle_umount_unmounted hnone]
      refine iff_of_true ?_ fun _ => ⟨fun _ h => by omega, fun h => absurd hseen h⟩
      intro value hvalue
      obtain rfl : (-1 : Int) = value := Except.ok.inj hvalue
      trivial
    · rw [handle_umount_mounted hmounted]
      have hexists : ∃ mount ∈ world.mounts, mount.mountPoint = mountPoint := by
        simpa [mountedAt, List.countP_pos_iff] using hmounted
      cases hcan : env.canUmount world mountPoint with
      | false =>
          refine iff_of_true ?_ fun _ => ⟨by simp, fun h => absurd hseen h⟩
          intro value hvalue
          obtain rfl : (-1 : Int) = value := Except.ok.inj hvalue
          trivial
      | true =>
          have hsame : ∀ mounts, HasGoodBlock { world with mounts := mounts } info name ↔
              HasGoodBlock world info name := fun _ => Iff.rfl
          have hguard := @guarded_formatMtd env
              { world with mounts := unmountTop mountPoint world.mounts } info
              (fun mounts => mountedAt mountPoint mounts = 0) _ hname
          rw [hsame, mountedAt_unmountTop hexists] at hguard
          simp only [if_true, Except.ok.injEq, forall_eq', lt_irrefl, if_false]
          rw [hguard]
          refine imp_congr Iff.rfl ⟨fun h => ⟨fun _ _ _ => by omega, fun h' => absurd hseen h'⟩, ?_⟩
          intro h
          have hone := h.1 hseen hmounted trivial
          omega
  · rw [hexec]
    simp only [Except.ok.injEq, forall_eq', lt_irrefl, if_false]
    rw [@guarded_formatMtd _ _ _ (fun mounts => mountedAt mountPoint mounts = 0) _ hname]
    exact imp_congr Iff.rfl ⟨fun h => ⟨fun h' => absurd h' hunseen, fun _ => h⟩, fun h => h.2 hunseen⟩

theorem guarded_formatRootDevice_of_not_erasable
    {allowed : List Mount → Prop}
    (hinfo : getRootInfoForPath build root = some info)
    (hmtd : ¬ (root.dropWhile (· ≠ ':') = [':'] ∧ info.device = some .mtd ∧
      ∃ name, info.partitionName = some name)) :
    Prog.Guarded (World.handle env) (eraseGuard fun state => allowed state.mounts)
      (formatRootDevice build root).run world := by
  unfold formatRootDevice
  split_ifs with hshape
  · trivial
  · simp only [hinfo]
    cases hdevice : info.device with
    | none => trivial
    | some device =>
        simp only
        rw [Prog.guarded_run_bind]
        refine ⟨guarded_unmountForFormat, fun ret _ => ?_⟩
        split_ifs
        · trivial
        · cases device with
          | block path => trivial
          | mtd =>
              cases hname : info.partitionName with
              | none =>
                  simp only [formatMtd, hname]
                  trivial
              | some name => exact absurd ⟨not_not.mp hshape, hdevice, name, hname⟩ hmtd

/-- A mounted partition is not erased and the table is not overrun exactly if at
most 32 visible lines have four fields and, where there is something to erase,
nothing is mounted or a single mount is and a visible line shows it. -/
theorem formatRootDevice_unmounted_iff
    (build : Build) (world : World) (root : CString)
    (hmounts : ∀ mount ∈ world.mounts, mount.WellFormed) :
    (ScanFits world ∧ ErasesUnmounted build world root) ↔
      (seenVolumes world.mounts).length ≤ volumesAllocd ∧
        ∀ mountPoint, Erasable build world root mountPoint →
          mountedAt mountPoint world.mounts = 0 ∨
            (mountedAt mountPoint world.mounts = 1 ∧ Seen mountPoint world.mounts) := by
  rw [scanFits_iff hmounts]
  refine and_congr_right fun hfits => ⟨?_, ?_⟩
  · rintro herases mountPoint ⟨hshape, info, name, hinfo, hdevice, hpoint, hname, hgood⟩
    have hguarded := (guarded_formatRootDevice hmounts hshape hinfo hdevice hpoint hname hfits).mp
      (herases { sampleEnv with canUmount := fun _ _ => true } info mountPoint hinfo hpoint) hgood
    by_cases hseen : Seen mountPoint world.mounts
    · rcases Nat.eq_zero_or_pos (mountedAt mountPoint world.mounts) with hnone | hmounted
      · exact .inl hnone
      · exact .inr ⟨hguarded.1 hseen hmounted rfl, hseen⟩
    · exact .inl (hguarded.2 hseen)
  · intro hcondition env info mountPoint hinfo hpoint
    by_cases hmtd : root.dropWhile (· ≠ ':') = [':'] ∧ info.device = some .mtd ∧
        ∃ name, info.partitionName = some name
    · obtain ⟨hshape, hdevice, name, hname⟩ := hmtd
      refine (guarded_formatRootDevice hmounts hshape hinfo hdevice hpoint hname hfits).mpr ?_
      intro hgood
      rcases hcondition mountPoint ⟨hshape, info, name, hinfo, hdevice, hpoint, hname, hgood⟩ with
        hnone | ⟨hone, hseen⟩
      · exact ⟨fun _ h => by omega, fun _ => hnone⟩
      · exact ⟨fun _ _ _ => hone, fun h => absurd hseen h⟩
    · exact @guarded_formatRootDevice_of_not_erasable _ _ _ _ _
          (fun mounts => mountedAt mountPoint mounts = 0) hinfo hmtd

end Formatting

/-! ## Examples -/

def cacheMount : Mount where
  device := "/dev/block/mtdblock5".toList
  mountPoint := "/cache".toList
  filesystem := "yaffs2".toList
  flags := "rw,nodev,noatime,nodiratime".toList

theorem cacheMount_wellFormed : cacheMount.WellFormed := by
  constructor <;> exact ⟨by decide, forall_mem_of_all (by decide)⟩

def sampleBuild : Build := ⟨false, true⟩

/-- A system with a cache partition that is mounted `count` times. -/
def cacheWorld (count : Nat) : World where
  files _ := none
  partitions name := if name = "cache".toList then some ⟨samplePartition, sampleFlash⟩ else none
  stdout := []
  mounts := List.replicate count cacheMount

theorem cacheWorld_wellFormed (count : Nat) :
    ∀ mount ∈ (cacheWorld count).mounts, mount.WellFormed := by
  intro mount hmount
  rw [List.eq_of_mem_replicate hmount]
  exact cacheMount_wellFormed

theorem cacheWorld_hasGoodBlock (count : Nat) :
    HasGoodBlock (cacheWorld count) (yaffsRoot "CACHE:" "cache" "/cache") "cache".toList := by
  refine ⟨.inr rfl, samplePartition, sampleFlash, rfl, ?_⟩
  rw [sampleFlash_goodFrom]
  simp

theorem formatRootDevice_unmounted_sample :
    ScanFits (cacheWorld 1) ∧ ErasesUnmounted sampleBuild (cacheWorld 1) "CACHE:".toList := by
  refine (formatRootDevice_unmounted_iff sampleBuild (cacheWorld 1) "CACHE:".toList
    (cacheWorld_wellFormed 1)).mpr ⟨by decide, ?_⟩
  rintro mountPoint ⟨-, info, name, hinfo, -, hpoint, -⟩
  obtain rfl : yaffsRoot "CACHE:" "cache" "/cache" = info := by
    have hfound : getRootInfoForPath sampleBuild "CACHE:".toList =
        some (yaffsRoot "CACHE:" "cache" "/cache") := by decide
    exact Option.some.inj (hfound.symm.trans hinfo)
  obtain rfl : "/cache".toList = mountPoint := Option.some.inj hpoint
  exact .inr ⟨by decide, by decide⟩

/-- With two file systems mounted on each other only one is unmounted. -/
theorem formatRootDevice_erases_stacked_mount :
    ¬ ErasesUnmounted sampleBuild (cacheWorld 2) "CACHE:".toList := by
  have hinfo : getRootInfoForPath sampleBuild "CACHE:".toList =
      some (yaffsRoot "CACHE:" "cache" "/cache") := by decide
  intro herases
  have hguarded := (@guarded_formatRootDevice _ sampleEnv _ _ _ _ _ (cacheWorld_wellFormed 2)
      (by decide) hinfo rfl rfl rfl (by decide)).mp
      (herases sampleEnv _ _ hinfo rfl) (cacheWorld_hasGoodBlock 2)
  exact absurd (hguarded.1 (by decide) (by decide) rfl) (by decide)

end OpenRecovery
