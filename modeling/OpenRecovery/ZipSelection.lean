import OpenRecovery.ZipBuffers
import OpenRecovery.ZipExtract
import Mathlib

/-!
# Which entries are extracted, and where

The names of an archive are sorted, so the names with one prefix stand together, and the
loop may stop at the first other name behind them.  The buffer for the paths is made
with numbers of 32 bits, and is large enough if the first of them is not cut.
-/

namespace OpenRecovery.Minzip

open Deflate Effects Words

/-! ## Names with one prefix stand together -/

theorem isLE_cons_iff (first second : UInt8) (firsts seconds : Bytes) :
    (compare (first :: firsts) (second :: seconds)).isLE = true ↔
      compare first second = .lt ∨ first = second ∧ (compare firsts seconds).isLE = true := by
  rw [List.compare_cons_cons]
  cases hcompare : compare first second with
  | lt => simp
  | eq =>
      obtain rfl := Std.LawfulEqOrd.eq_of_compare hcompare
      simp
  | gt =>
      have hne : first ≠ second := by
        rintro rfl
        rw [Std.ReflOrd.compare_self] at hcompare
        cases hcompare
      simp [hne]

theorem not_compare_lt (byte : UInt8) : compare byte byte ≠ .lt := by
  rw [Std.ReflOrd.compare_self]
  decide

theorem prefix_of_between
    {start first between last : Bytes} (hfirst : start <+: first) (hlast : start <+: last)
    (hlow : (compare first between).isLE = true) (hhigh : (compare between last).isLE = true) :
    start <+: between := by
  induction start generalizing first between last with
  | nil => exact List.nil_prefix
  | cons byte start ih =>
      obtain ⟨firsts, rfl⟩ := hfirst
      obtain ⟨lasts, rfl⟩ := hlast
      cases between with
      | nil => cases hlow
      | cons other between =>
          rw [List.cons_append, isLE_cons_iff] at hlow hhigh
          have hsame : byte = other := by
            rcases hlow with hlow | ⟨rfl, -⟩
            · rcases hhigh with hhigh | ⟨rfl, -⟩
              · rw [Std.OrientedOrd.eq_swap, hlow] at hhigh
                cases hhigh
              · rfl
            · rfl
          subst hsame
          have hlow := (hlow.resolve_left (not_compare_lt _)).2
          have hhigh := (hhigh.resolve_left (not_compare_lt _)).2
          exact (List.prefix_cons_inj _).mpr
            (ih (List.prefix_append _ _) (List.prefix_append _ _) hlow hhigh)

section Named

variable {map : MemMapping} {entry : ZipEntry} {zpath : Bytes}

/-- What the parser has checked about a name. -/
structure ZipEntry.Named (map : MemMapping) (entry : ZipEntry) : Prop where
  inside : entry.NameInside map
  before : map.addr < entry.fileName
  length_lt : entry.fileNameLen < pathMax
  no_zero : 0 ∉ entry.name map

theorem Passes.named {record : Nat} (hpasses : Passes map record) :
    (entryAt map record).Named map where
  inside := hpasses.1.nameInside
  before := by
    have haddress := map.address_of_le hpasses.1.inside
    change map.addr < map.address (record + cenhdr)
    rw [haddress, cenhdr]
    omega
  length_lt := hpasses.1.2.2.1
  no_zero := by
    have haddress := map.address_of_le hpasses.1.inside
    have hprintable := hpasses.1.2.2.2
    have hname : (entryAt map record).name map = nameAt map record := by
      change map.bytesAt (map.address (record + cenhdr)) _ = _
      rw [haddress, MemMapping.bytesAt, Nat.add_sub_cancel_left]
      rfl
    rw [hname]
    intro hzero
    have := List.all_eq_true.mp hprintable 0 hzero
    cases this

theorem ZipEntry.NameInside.readMapped
    (hinside : entry.NameInside map) {start count : Nat} (hcount : start + count ≤ entry.fileNameLen) :
    readMapped map (add32 entry.fileName start) count =
      .ok (((entry.name map).drop start).take count) := by
  have hstop := map.stop_lt_word
  have hadd : add32 entry.fileName start = entry.fileName + start := by
    rw [add32, Nat.mod_eq_of_lt]
    have := hinside.2
    omega
  have hread : map.addr ≤ entry.fileName + start ∧
      entry.fileName + start + count ≤ map.stop := by
    have := hinside.1
    have := hinside.2
    omega
  rw [Minzip.readMapped, hadd, MemMapping.read, if_pos hread, ZipEntry.name, MemMapping.bytesAt,
    MemMapping.bytesAt, List.drop_take, List.drop_drop, List.take_take, Nat.min_eq_left (by omega)]
  have hsub : entry.fileName + start - map.addr = entry.fileName - map.addr + start := by
    have := hinside.1
    omega
  rw [hsub]
  rfl

theorem add32_zero (hinside : entry.NameInside map) : add32 entry.fileName 0 = entry.fileName := by
  have hstop := map.stop_lt_word
  have hend := hinside.2
  rw [add32, Nat.add_zero, Nat.mod_eq_of_lt (by omega)]

theorem strncmp_eq_iff
    {left right : Bytes} (hlength : left.length = right.length) :
    strncmp left right = .eq ↔ left = right := by
  induction left generalizing right with
  | nil =>
      cases right with
      | nil => exact ⟨fun _ => rfl, fun _ => rfl⟩
      | cons byte right => cases hlength
  | cons byte left ih =>
      cases right with
      | nil => cases hlength
      | cons other right =>
          rw [strncmp, Ordering.then_eq_eq, Std.compare_eq_iff_eq, ih (Nat.succ.inj hlength),
            List.cons.injEq]

end Named

/-! ## The loop visits the selected entries -/

/-- Whether an entry is under a path. -/
def ZipEntry.under (map : MemMapping) (zpath : Bytes) (entry : ZipEntry) : Bool :=
  zpath.isPrefixOf (entry.name map)

section Loop

variable (zlib : Zlib) (fuel : Nat) (pArchive : OpenArchive) (args : ExtractArgs)

/-- The loop behind the body. -/
def continueLoop (rest : (ok : Bool) → MzPathHelper → ExtractProg Bool) (helper : MzPathHelper) :
    LoopStep → ExtractProg Bool
  | .leave ok => pure ok
  | .proceed ok => rest ok helper

/-- One selected entry, and then the rest of the loop. -/
def visit (rest : (ok : Bool) → MzPathHelper → ExtractProg Bool) (pEntry : ZipEntry) (ok : Bool)
    (helper : MzPathHelper) : ExtractProg Bool := do
  let (targetFile, helper) ← targetEntryPath pArchive.map helper pEntry
  match targetFile with
  | none => pure false
  | some targetFile =>
      extractTarget zlib fuel pArchive args pEntry targetFile ok >>= continueLoop rest helper

/-- The loop without the selection. -/
def extractSelected : List ZipEntry → (ok : Bool) → MzPathHelper → ExtractProg Bool
  | [], ok, _ => pure ok
  | pEntry :: entries, ok, helper =>
      visit zlib fuel pArchive args (extractSelected entries) pEntry ok helper

variable {zlib fuel pArchive args} {zpath : Bytes} {pEntry : ZipEntry} {entries : List ZipEntry}
variable {seenMatch ok : Bool} {helper : MzPathHelper}

theorem ZipEntry.under_iff {map : MemMapping} : pEntry.under map zpath = true ↔
    zpath <+: pEntry.name map :=
  List.isPrefixOf_iff_prefix

/-- The tests of an entry that is not selected. -/
theorem extractEntries_other
    (hnamed : pEntry.Named pArchive.map) (hother : pEntry.under pArchive.map zpath ≠ true) :
    extractEntries zlib fuel pArchive args zpath (pEntry :: entries) seenMatch ok helper =
      if seenMatch then pure ok
      else extractEntries zlib fuel pArchive args zpath entries seenMatch ok helper := by
  rw [extractEntries]
  by_cases hshort : pEntry.fileNameLen < zpath.length
  · rw [if_pos hshort]
  · have hread := @ZipEntry.NameInside.readMapped pArchive.map pEntry hnamed.inside 0 zpath.length
      (by omega)
    rw [add32_zero hnamed.inside, List.drop_zero] at hread
    have hlength : ((pEntry.name pArchive.map).take zpath.length).length = zpath.length := by
      rw [List.length_take, hnamed.inside.length]
      omega
    have hne : strncmp ((pEntry.name pArchive.map).take zpath.length) zpath ≠ .eq := by
      rw [ne_eq, strncmp_eq_iff hlength]
      intro heq
      exact hother ((ZipEntry.under_iff).mpr (List.prefix_iff_eq_take.mpr heq.symm))
    rw [if_neg hshort, hread]
    exact if_pos hne

theorem extractEntries_under
    (hnamed : pEntry.Named pArchive.map) (hunder : pEntry.under pArchive.map zpath = true) :
    extractEntries zlib fuel pArchive args zpath (pEntry :: entries) seenMatch ok helper =
      visit zlib fuel pArchive args (extractEntries zlib fuel pArchive args zpath entries true)
        pEntry ok helper := by
  rw [ZipEntry.under_iff, List.prefix_iff_eq_take] at hunder
  have hlength := congrArg List.length hunder
  rw [List.length_take, hnamed.inside.length] at hlength
  have hread := @ZipEntry.NameInside.readMapped pArchive.map pEntry hnamed.inside 0 zpath.length
    (by omega)
  rw [add32_zero hnamed.inside, List.drop_zero, ← hunder] at hread
  have heq : strncmp zpath zpath = .eq := (strncmp_eq_iff rfl).mpr rfl
  rw [extractEntries, if_neg (by omega), hread]
  exact if_neg (not_not.mpr heq)

/-- The early exit leaves no entry out. -/
theorem extractEntries_selected
    (hnamed : ∀ pEntry ∈ entries, pEntry.Named pArchive.map)
    (hsorted : Sorted pArchive.map entries)
    (hseen : seenMatch = true → ∃ name, zpath <+: name ∧
      ∀ pEntry ∈ entries, (compare name (pEntry.name pArchive.map)).isLE = true) :
    extractEntries zlib fuel pArchive args zpath entries seenMatch ok helper =
      extractSelected zlib fuel pArchive args (entries.filter (ZipEntry.under pArchive.map zpath))
        ok helper := by
  induction entries generalizing seenMatch ok helper with
  | nil => rfl
  | cons pEntry entries ih =>
      have hfirst := hnamed pEntry List.mem_cons_self
      have hrest := fun other hother => hnamed other (List.mem_cons_of_mem _ hother)
      obtain ⟨hle, hsorted⟩ := List.pairwise_cons.mp hsorted
      by_cases hunder : pEntry.under pArchive.map zpath = true
      · rw [extractEntries_under hfirst hunder, List.filter_cons_of_pos hunder, extractSelected]
        have hname := (ZipEntry.under_iff).mp hunder
        congr 1
        funext ok helper
        exact ih hrest hsorted fun _ => ⟨_, hname, hle⟩
      · rw [extractEntries_other hfirst hunder, List.filter_cons_of_neg hunder]
        cases seenMatch with
        | false => exact ih hrest hsorted nofun
        | true =>
            obtain ⟨name, hbegins, hlow⟩ := hseen rfl
            have hnone : entries.filter (ZipEntry.under pArchive.map zpath) = [] := by
              rw [List.filter_eq_nil_iff]
              intro other hother hlast
              have hbetween := prefix_of_between hbegins ((ZipEntry.under_iff).mp hlast)
                (hlow pEntry List.mem_cons_self) (hle other hother)
              exact hunder ((ZipEntry.under_iff).mpr hbetween)
            rw [hnone]
            rfl

end Loop

/-! ## The paths -/

/-- A reallocation, if there is one, and whether it is granted. -/
inductive Reallocates : List (Event ExtractOp ExtractReply) → Bool → Prop where
  | enough : Reallocates [] true
  | granted {size : Nat} (memory : List.Vector UInt8 size) :
      Reallocates [⟨.realloc size, some memory⟩] true
  | refused (size : Nat) : Reallocates [⟨.realloc size, none⟩] false

/-- The path of an entry under the target directory. -/
def ZipEntry.targetPath (map : MemMapping) (targetDir zpath : Bytes) (entry : ZipEntry) : Bytes :=
  withSlash targetDir ++ (entry.name map).drop zpath.length

theorem withSlash_le (path : Bytes) : (withSlash path).length ≤ path.length + 1 := by
  rw [withSlash]
  split
  · omega
  · exact List.length_append.le

theorem withSlash_no_zero {path : Bytes} (hzero : 0 ∉ path) : 0 ∉ withSlash path := by
  rw [withSlash]
  split
  · exact hzero
  · rw [List.mem_append, not_or]
    exact ⟨hzero, by decide⟩

theorem textOf_append {text rest : Bytes} (hzero : 0 ∉ text) :
    textOf (text ++ 0 :: rest) = .ok text := by
  have hall : ∀ byte ∈ text, (decide (byte ≠ 0)) = true := by
    intro byte hbyte
    refine decide_eq_true ?_
    rintro rfl
    exact hzero hbyte
  rw [textOf, if_pos (by simp), List.takeWhile_append_of_pos hall]
  simp

/-- The size of a buffer for a length that an `int` holds. -/
theorem pathSize_eq {need : Nat} (hneed : need < 2 ^ 31) : pathSize need = 2 * need := by
  rw [pathSize, wrap32_emod, Int.emod_eq_of_lt (by omega) (by omega)]
  omega

theorem grown_buf
    {helper : MzPathHelper} {start rest : Bytes} {need : Nat} (hneed : need < 2 ^ 31)
    (memory : List.Vector UInt8 (pathSize need))
    (hbuf : helper.buf.getD [] = start ++ rest) (hstart : start.length ≤ 2 * need) :
    ∃ rest', (helper.grown need memory).buf = some (start ++ rest') ∧
      (start ++ rest').length = 2 * need := by
  have hsize := pathSize_eq hneed
  refine ⟨rest.take (2 * need - start.length) ++ memory.toList.drop (start ++ rest).length, ?_, ?_⟩
  · have htake : (start ++ rest).take (pathSize need) =
        start ++ rest.take (2 * need - start.length) := by
      rw [hsize, List.take_append, List.take_of_length_le hstart]
    rw [MzPathHelper.grown, hbuf, htake, List.append_assoc]
  · rw [List.length_append, List.length_append, List.length_take, List.length_drop,
      List.length_append, memory.toList_length, hsize]
    omega

section Helper

variable {map : MemMapping} {entry : ZipEntry} {targetDir zpath : Bytes} {helper : MzPathHelper}

/-- The custom part of the path is copied behind the target path. -/
theorem finish_eq
    {rest : Bytes} (hnamed : entry.Named map) (hunder : zpath <+: entry.name map)
    (hzero : 0 ∉ targetDir) (hzip : helper.zipDirLen = zpath.length)
    (htarget : helper.targetDirLen = (withSlash targetDir).length)
    (hlt : (withSlash targetDir).length < 2 ^ 31)
    (hbuf : helper.buf = some (withSlash targetDir ++ rest))
    (hroom : entry.fileNameLen + 1 ≤ zpath.length + rest.length) :
    ∃ rest', helper.finish map entry = .ok (entry.targetPath map targetDir zpath,
        { helper with buf := some (withSlash targetDir ++ rest') }) ∧
      rest'.length = rest.length := by
  have hlength := hnamed.length_lt
  rw [pathMax] at hlength
  have hname := hnamed.inside.length
  have hle := hunder.length_le
  obtain ⟨count, hcount⟩ : ∃ count, count = entry.fileNameLen - zpath.length := ⟨_, rfl⟩
  have hcountField : (((entry.fileNameLen : Int) - helper.zipDirLen) % 2 ^ 32).toNat = count := by
    rw [hzip, Int.emod_eq_of_lt (by omega) (by omega)]
    omega
  have hskip : (helper.zipDirLen % 2 ^ 32).toNat = zpath.length := by
    rw [hzip, Int.emod_eq_of_lt (by omega) (by omega), Int.toNat_natCast]
  have hstart : (helper.targetDirLen % 2 ^ 32).toNat = (withSlash targetDir).length := by
    rw [htarget, Int.emod_eq_of_lt (by omega) (by omega), Int.toNat_natCast]
  obtain ⟨name, hrest⟩ : ∃ name, (entry.name map).drop zpath.length = name := ⟨_, rfl⟩
  have hlengthName : name.length = count := by
    rw [← hrest, List.length_drop, hname, hcount]
  have hread := @ZipEntry.NameInside.readMapped map entry hnamed.inside zpath.length count
    (by omega)
  rw [hrest, List.take_of_length_le hlengthName.le] at hread
  obtain ⟨tail, htail⟩ : ∃ tail, (rest.drop count).drop 1 = tail := ⟨_, rfl⟩
  have hstore := store_append (withSlash targetDir) rest name
  rw [if_pos (by omega), hlengthName] at hstore
  have hend := store_append (withSlash targetDir ++ name) (rest.drop count) [0]
  rw [if_pos (by rw [List.length_singleton, List.length_drop]; omega), List.length_append,
    hlengthName, List.length_singleton, htail, List.append_assoc (withSlash targetDir ++ name), List.singleton_append] at hend
  have hnone : 0 ∉ withSlash targetDir ++ name := by
    rw [List.mem_append, not_or]
    refine ⟨withSlash_no_zero hzero, fun hmem => hnamed.no_zero ?_⟩
    rw [← hrest] at hmem
    exact List.mem_of_mem_drop hmem
  have htext := @textOf_append _ tail hnone
  refine ⟨name ++ 0 :: tail, ?_, ?_⟩
  · rw [MzPathHelper.finish, hcountField, hskip, hstart, hread, hbuf]
    change (store (withSlash targetDir ++ rest) _ name >>= _) = _
    rw [hstore]
    change (store (withSlash targetDir ++ name ++ rest.drop count) _ [0] >>= _) = _
    rw [hend]
    change (textOf (withSlash targetDir ++ name ++ 0 :: tail) >>= _) = _
    rw [htext, ZipEntry.targetPath, hrest, ← List.append_assoc]
    rfl
  · rw [List.length_append, List.length_cons, ← htail, List.length_drop, List.length_drop]
    omega

/-- The first path begins with the target path and a slash. -/
theorem begin_eq
    {rest : Bytes} (hdir : helper.targetDir = targetDir)
    (htarget : helper.targetDirLen = targetDir.length) (hlt : targetDir.length + 1 < 2 ^ 31)
    (hbuf : helper.buf = some rest) (hroom : targetDir.length + 1 ≤ rest.length) :
    ∃ rest', helper.begin = .ok { helper with
        buf := some (withSlash targetDir ++ rest')
        targetDirLen := (withSlash targetDir).length } ∧
      (withSlash targetDir ++ rest').length = rest.length := by
  have hlen : (helper.targetDirLen % 2 ^ 32).toNat = targetDir.length := by
    rw [htarget, Int.emod_eq_of_lt (by omega) (by omega), Int.toNat_natCast]
  have hstore := store_append [] rest targetDir
  rw [if_pos (by omega), List.nil_append, List.nil_append, List.length_nil] at hstore
  obtain ⟨tail, htail⟩ : ∃ tail, rest.drop targetDir.length = tail := ⟨_, rfl⟩
  have htailLength := congrArg List.length htail
  rw [List.length_drop] at htailLength
  have hlast : (targetDir.length = 0 ∨ (targetDir ++ tail)[targetDir.length - 1]? ≠ some slash) ↔
      targetDir.getLast? ≠ some slash := by
    rw [List.getLast?_eq_getElem?]
    by_cases hempty : targetDir.length = 0
    · rw [List.eq_nil_of_length_eq_zero hempty]
      simp
    · rw [List.getElem?_append_left (by omega)]
      exact or_iff_right hempty
  have hbegin : helper.begin =
      if targetDir.getLast? ≠ some slash then do
        let buf ← store (targetDir ++ tail) targetDir.length [slash]
        pure { helper with buf := some buf, targetDirLen := wrap32 (helper.targetDirLen + 1) }
      else pure { helper with buf := some (targetDir ++ tail) } := by
    rw [MzPathHelper.begin, hlen, hdir, if_neg (by omega), hbuf, List.take_left]
    change (store rest 0 targetDir >>= _) = _
    rw [hstore, htail]
    change (if targetDir.length = 0 ∨ (targetDir ++ tail)[targetDir.length - 1]? ≠ some slash
      then _ else _) = _
    simp only [hlast]
  rw [hbegin, withSlash]
  by_cases hslash : targetDir.getLast? = some slash
  · rw [if_neg (not_not.mpr hslash), if_pos hslash, ← htarget]
    refine ⟨tail, rfl, ?_⟩
    rw [List.length_append, ← htailLength]
    omega
  · have hslashStore := store_append targetDir tail [slash]
    rw [if_pos (by rw [List.length_singleton]; omega)] at hslashStore
    rw [if_pos hslash, if_neg hslash, hslashStore, htarget,
      wrap32_of_range (by omega) (by omega)]
    refine ⟨tail.drop 1, ?_, ?_⟩
    · rw [List.length_append, List.length_singleton]
      rfl
    · rw [List.length_append, List.length_append, List.length_singleton, List.length_drop]
      omega

/-- A helper that has made its buffer.  An `int` need not hold its size. -/
structure MzPathHelper.Started (targetDir zpath : Bytes) (helper : MzPathHelper) : Prop where
  zipDirLen_eq : helper.zipDirLen = zpath.length
  targetDirLen_eq : helper.targetDirLen = (withSlash targetDir).length
  buf_eq : ∃ rest need, helper.buf = some (withSlash targetDir ++ rest) ∧
    (withSlash targetDir ++ rest).length = 2 * need ∧ helper.bufLen = wrap32 ((need : Int) * 2) ∧
    (withSlash targetDir).length < need ∧ need < 2 ^ 31

/-- What `targetEntryPath` does, unless it leaves its buffer. -/
def Assembles (map : MemMapping) (targetDir zpath : Bytes) (entry : ZipEntry)
    (helper : MzPathHelper) (events : List (Event ExtractOp ExtractReply))
    (value : Except Stuck (Option Bytes × MzPathHelper)) : Prop :=
  Reallocates events false ∧ value = .ok (none, helper) ∨
    ∃ after, after.Started targetDir zpath ∧ Reallocates events true ∧
      value = .ok (some (entry.targetPath map targetDir zpath), after)

/-- The rest of `targetEntryPath`, when there is a buffer. -/
theorem Started.finish
    (hnamed : entry.Named map) (hunder : zpath <+: entry.name map) (hzero : 0 ∉ targetDir)
    (hstarted : helper.Started targetDir zpath)
    (hroom : ∀ rest, helper.buf = some (withSlash targetDir ++ rest) →
      entry.fileNameLen + 1 ≤ zpath.length + rest.length) :
    ∃ after, helper.finish map entry = .ok (entry.targetPath map targetDir zpath, after) ∧
      after.Started targetDir zpath := by
  obtain ⟨hzip, htarget, rest, need, hbuf, hlength, hbufLen, hless, hlt⟩ := hstarted
  obtain ⟨rest', hfinish, hrest'⟩ := finish_eq hnamed hunder hzero hzip htarget (by omega) hbuf
    (hroom rest hbuf)
  refine ⟨_, hfinish, hzip, htarget, rest', need, rfl, ?_, hbufLen, hless, hlt⟩
  rw [List.length_append] at hlength ⊢
  omega

theorem targetEntryPath_run
    {needLen : Int}
    (hneed : wrap32 (helper.targetDirLen + 1 + entry.fileNameLen - helper.zipDirLen + 1) = needLen) :
    (targetEntryPath map helper entry).run =
      if helper.bufLen < needLen then
        .request (.realloc (pathSize needLen)) fun reply =>
          .pure (reply.elim (.ok (none, helper)) fun memory =>
            ((helper.grown needLen memory).assemble map helper.buf.isNone entry).map fun made =>
              (some made.1, made.2))
      else
        .pure ((helper.assemble map helper.buf.isNone entry).map fun made =>
          (some made.1, made.2)) := by
  have hrest : ∀ (grown : MzPathHelper), (do
      let made ← fallible (grown.assemble map helper.buf.isNone entry)
      pure (some made.1, made.2) : ExtractProg (Option Bytes × MzPathHelper)).run =
        .pure ((grown.assemble map helper.buf.isNone entry).map fun made =>
          (some made.1, made.2)) := by
    intro grown
    cases grown.assemble map helper.buf.isNone entry with
    | error stuck => rfl
    | ok made => rfl
  rw [targetEntryPath, hneed, MzPathHelper.grow]
  by_cases hgrow : helper.bufLen < needLen
  · rw [if_pos hgrow, if_pos hgrow]
    refine congrArg (Prog.request _) (funext fun reply => ?_)
    cases reply with
    | none => rfl
    | some memory => exact hrest _
  · rw [if_neg hgrow, if_neg hgrow]
    exact hrest helper

/-- A larger buffer keeps the target path. -/
theorem MzPathHelper.Started.grown
    (hstarted : helper.Started targetDir zpath) {need : Nat}
    (hless : (withSlash targetDir).length < need) (hneed : need < 2 ^ 31)
    (memory : List.Vector UInt8 (pathSize need)) :
    (helper.grown need memory).Started targetDir zpath ∧
      ∀ rest, (helper.grown need memory).buf = some (withSlash targetDir ++ rest) →
        (withSlash targetDir ++ rest).length = 2 * need := by
  obtain ⟨hzip, htarget, rest, -, hbuf, -⟩ := hstarted
  obtain ⟨rest', hgrown, hlength⟩ := @grown_buf helper (withSlash targetDir) rest need hneed memory
    (by rw [hbuf]; rfl) (by omega)
  refine ⟨⟨hzip, htarget, rest', need, hgrown, hlength, rfl, hless, hneed⟩, ?_⟩
  intro other hother
  rw [hgrown] at hother
  rw [← Option.some.inj hother]
  exact hlength

theorem Assembles.of_finish
    (hnamed : entry.Named map) (hunder : zpath <+: entry.name map) (hzero : 0 ∉ targetDir)
    {before : MzPathHelper} {events : List (Event ExtractOp ExtractReply)}
    (hevents : Reallocates events true) (hstarted : helper.Started targetDir zpath)
    (hroom : ∀ rest, helper.buf = some (withSlash targetDir ++ rest) →
      entry.fileNameLen + 1 ≤ zpath.length + rest.length) :
    Assembles map targetDir zpath entry before events
      ((helper.finish map entry).map fun made => (some made.1, made.2)) := by
  obtain ⟨after, hfinish, hafter⟩ := Started.finish hnamed hunder hzero hstarted hroom
  rw [hfinish]
  exact .inr ⟨after, hafter, hevents, rfl⟩

/-- The length that is needed for the path of an entry. -/
def ZipEntry.needLen (entry : ZipEntry) (zpath targetPath : Bytes) : Nat :=
  targetPath.length + 1 + (entry.fileNameLen - zpath.length) + 1

theorem wrap32_of_cut {value : Nat} (hlow : 2 ^ 31 ≤ value) (hhigh : value < 2 ^ 32) :
    wrap32 value = (value : Int) - 2 ^ 32 :=
  wrap32_of_high (by omega) (by omega)

theorem wrap32_of_fits {value : Nat} (hfits : value < 2 ^ 31) : wrap32 value = value :=
  wrap32_of_range (by omega) (by omega)

/-- A buffer that is made larger gets a size that an `int` holds. -/
theorem grow_fits
    {length need needed used : Nat} (hless : length < need) (hlt : need < 2 ^ 31)
    (hneeded : length + 1 + used + 1 = needed) (hused : used < 4096)
    (hgrow : wrap32 ((need : Int) * 2) < wrap32 needed) : needed < 2 ^ 31 := by
  by_contra hlarge
  have hneed : 2 ^ 31 ≤ need * 2 := by omega
  have hcut := @wrap32_of_cut (need * 2) hneed (by omega)
  rw [Nat.cast_mul] at hcut
  rw [wrap32_of_cut (not_lt.mp hlarge) (by omega)] at hgrow
  have hcut' : wrap32 ((need : Int) * 2) = (need : Int) * 2 - 2 ^ 32 := hcut
  rw [hcut'] at hgrow
  omega

/-- A buffer that is kept is large enough. -/
theorem keep_fits
    {length need needed used : Nat} (hless : length < need) (hlt : need < 2 ^ 31)
    (hneeded : length + 1 + used + 1 = needed) (hused : used < 4096)
    (hkeep : wrap32 needed ≤ wrap32 ((need : Int) * 2)) : needed ≤ 2 * need := by
  by_cases hlarge : 2 ^ 31 ≤ needed
  · omega
  · rw [wrap32_of_range (by omega) (by omega)] at hkeep
    by_contra hshort
    rw [wrap32_of_range (by omega) (by omega)] at hkeep
    omega
/-- There is room for the rest of the path. -/
theorem room_of_needed
    {length start needed used room : Nat} (hle : start ≤ length)
    (hneeded : used + 1 + (length - start) + 1 = needed) (hroom : needed ≤ used + room) :
    length + 1 ≤ start + room := by
  omega

theorem MzPathHelper.Started.assembles
    (hstarted : helper.Started targetDir zpath) (hnamed : entry.Named map)
    (hunder : zpath <+: entry.name map) (hzero : 0 ∉ targetDir)
    {events : List (Event ExtractOp ExtractReply)}
    {value : Except Stuck (Option Bytes × MzPathHelper)}
    (htrace : (targetEntryPath map helper entry).run.Traces events value) :
    Assembles map targetDir zpath entry helper events value := by
  have hlength := hnamed.length_lt
  rw [pathMax] at hlength
  have hname := hnamed.inside.length
  have hle := hunder.length_le
  obtain ⟨hzip, htarget, rest, need, hbuf, hsize, hbufLen, hless, hlt⟩ := hstarted
  have hsome : helper.buf.isNone = false := by rw [hbuf]; rfl
  have hfinish : ∀ grown : MzPathHelper, grown.assemble map helper.buf.isNone entry =
      grown.finish map entry := by
    intro grown
    rw [hsome]
    rfl
  rw [List.length_append] at hsize
  obtain ⟨needed, hneeded⟩ : ∃ needed, entry.needLen zpath (withSlash targetDir) = needed := ⟨_, rfl⟩
  have hneedLen : wrap32 (helper.targetDirLen + 1 + entry.fileNameLen - helper.zipDirLen + 1) =
      wrap32 needed := by
    rw [htarget, hzip, ← hneeded, ZipEntry.needLen]
    congr 1
    omega
  rw [ZipEntry.needLen] at hneeded
  have hinside : zpath.length ≤ entry.fileNameLen := hname ▸ hle
  have hmore : (withSlash targetDir).length < needed := by omega
  have hstill : helper.Started targetDir zpath :=
    ⟨hzip, htarget, rest, need, hbuf, by rwa [List.length_append], hbufLen, hless, hlt⟩
  by_cases hgrow : helper.bufLen < wrap32 needed
  · rw [hbufLen] at hgrow
    have hfits := grow_fits hless hlt hneeded (by omega) hgrow
    rw [wrap32_of_fits hfits] at hgrow
    rw [targetEntryPath_run (hneedLen.trans (wrap32_of_fits hfits)), hbufLen, if_pos hgrow] at htrace
    obtain ⟨reply, tail, rfl, htail⟩ := Prog.traces_request.mp htrace
    obtain ⟨rfl, rfl⟩ := Prog.traces_pure.mp htail
    cases reply with
    | none => exact .inl ⟨.refused _, rfl⟩
    | some memory =>
        obtain ⟨hgrown, hroomy⟩ := hstill.grown hmore hfits memory
        rw [Option.elim_some, hfinish]
        apply Assembles.of_finish hnamed hunder hzero (.granted memory) hgrown
        intro rest' hrest'
        have hlong := hroomy rest' hrest'
        rw [List.length_append] at hlong
        exact room_of_needed hinside hneeded (by rw [hlong]; exact Nat.le_mul_of_pos_left _ (by decide))
  · rw [hbufLen] at hgrow
    have hfits := keep_fits hless hlt hneeded (by omega) (not_lt.mp hgrow)
    rw [targetEntryPath_run hneedLen, hbufLen, if_neg hgrow] at htrace
    obtain ⟨rfl, rfl⟩ := Prog.traces_pure.mp htrace
    rw [hfinish]
    apply Assembles.of_finish hnamed hunder hzero .enough hstill
    intro rest' hrest'
    rw [hbuf] at hrest'
    rw [← List.append_cancel_left (Option.some.inj hrest')]
    exact room_of_needed hinside hneeded (hsize ▸ hfits)

/-- The helper before its first path. -/
def freshHelper (targetDir zpath : Bytes) : MzPathHelper :=
  ⟨targetDir, none, wrap32 targetDir.length, wrap32 zpath.length, 0⟩

theorem freshHelper_bufLen : (freshHelper targetDir zpath).bufLen = 0 :=
  rfl

theorem freshHelper_needLen
    (hnamed : entry.Named map) (hunder : zpath <+: entry.name map) :
    wrap32 ((freshHelper targetDir zpath).targetDirLen + 1 + entry.fileNameLen -
        (freshHelper targetDir zpath).zipDirLen + 1) =
      wrap32 (entry.needLen zpath targetDir) := by
  have hlength := hnamed.length_lt
  rw [pathMax] at hlength
  have hname := hnamed.inside.length
  have hle := hunder.length_le
  change wrap32 (wrap32 targetDir.length + 1 + entry.fileNameLen - wrap32 zpath.length + 1) = _
  rw [@wrap32_of_range zpath.length (by omega) (by omega), ZipEntry.needLen]
  have hsum : wrap32 targetDir.length + 1 + entry.fileNameLen - (zpath.length : Int) + 1 =
      wrap32 targetDir.length + (1 + entry.fileNameLen - (zpath.length : Int) + 1) := by
    ring
  rw [hsum, wrap32_wrap32_add]
  congr 1
  omega

/-- The first path, if an `int` holds the length that it needs. -/
theorem freshHelper_assembles
    (hnamed : entry.Named map) (hunder : zpath <+: entry.name map) (hzero : 0 ∉ targetDir)
    (hfits : entry.needLen zpath targetDir < 2 ^ 31)
    {events : List (Event ExtractOp ExtractReply)}
    {value : Except Stuck (Option Bytes × MzPathHelper)}
    (htrace : (targetEntryPath map (freshHelper targetDir zpath) entry).run.Traces events value) :
    Assembles map targetDir zpath entry (freshHelper targetDir zpath) events value := by
  have hlength := hnamed.length_lt
  rw [pathMax] at hlength
  have hname := hnamed.inside.length
  have hle := hunder.length_le
  have hslash := withSlash_le targetDir
  obtain ⟨needed, hneeded⟩ : ∃ needed, entry.needLen zpath targetDir = needed := ⟨_, rfl⟩
  have hneedLen := @freshHelper_needLen map entry targetDir zpath hnamed hunder
  rw [hneeded] at hneedLen hfits
  rw [ZipEntry.needLen] at hneeded
  have hinside : zpath.length ≤ entry.fileNameLen := hname ▸ hle
  have hpos : (0 : Int) < needed := by omega
  have hdirLen : targetDir.length + 1 < 2 ^ 31 := by omega
  have hzipLen : zpath.length < 2 ^ 31 := by omega
  have hdirRoom : targetDir.length + 1 ≤ 2 * needed := by omega
  have hmore : (withSlash targetDir).length < needed := by omega
  have hdouble : (withSlash targetDir).length + 1 + (entry.fileNameLen - zpath.length) + 1 ≤
      2 * needed := by
    omega
  rw [targetEntryPath_run (hneedLen.trans (wrap32_of_fits hfits)), freshHelper_bufLen,
    if_pos hpos] at htrace
  obtain ⟨reply, tail, rfl, htail⟩ := Prog.traces_request.mp htrace
  obtain ⟨rfl, rfl⟩ := Prog.traces_pure.mp htail
  cases reply with
  | none => exact .inl ⟨.refused _, rfl⟩
  | some memory =>
      obtain ⟨rest, hgrown, hsize⟩ := @grown_buf (freshHelper targetDir zpath) [] [] needed hfits
        memory rfl (Nat.zero_le _)
      have hfields : (freshHelper targetDir zpath).targetDirLen = targetDir.length :=
        wrap32_of_fits (Nat.lt_of_succ_lt hdirLen)
      have hzip : (freshHelper targetDir zpath).zipDirLen = zpath.length :=
        wrap32_of_fits hzipLen
      rw [List.nil_append] at hgrown hsize
      obtain ⟨rest', hbegin, hbegun⟩ := @begin_eq targetDir
        ((freshHelper targetDir zpath).grown needed memory) rest rfl hfields hdirLen hgrown
        (hsize.symm ▸ hdirRoom)
      have hnone : (freshHelper targetDir zpath).buf.isNone = true := rfl
      rw [Option.elim_some, hnone, MzPathHelper.assemble, if_pos rfl, hbegin]
      change Assembles _ _ _ _ _ _ ((MzPathHelper.finish map _ entry).map _)
      rw [hsize] at hbegun
      have hstarted : MzPathHelper.Started targetDir zpath
          { (freshHelper targetDir zpath).grown needed memory with
            buf := some (withSlash targetDir ++ rest')
            targetDirLen := (withSlash targetDir).length } :=
        ⟨hzip, rfl, rest', needed, rfl, hbegun, rfl, hmore, hfits⟩
      apply Assembles.of_finish hnamed hunder hzero (.granted memory) hstarted
      intro other hother
      have hsame := List.append_cancel_left (Option.some.inj hother)
      rw [List.length_append, hsame] at hbegun
      exact room_of_needed hinside rfl (hbegun ▸ hdouble)

/-- Otherwise there is no buffer, and the target path is copied to address zero. -/
theorem freshHelper_overflows
    (hnamed : entry.Named map) (hunder : zpath <+: entry.name map)
    (hlt : targetDir.length + 1 + 4096 ≤ 2 ^ 32)
    (hlong : 2 ^ 31 ≤ entry.needLen zpath targetDir) :
    (targetEntryPath map (freshHelper targetDir zpath) entry).run = .pure (.error .outOfBounds) := by
  have hlength := hnamed.length_lt
  rw [pathMax] at hlength
  have hname := hnamed.inside.length
  have hle := hunder.length_le
  obtain ⟨needed, hneeded⟩ : ∃ needed, entry.needLen zpath targetDir = needed := ⟨_, rfl⟩
  have hneedLen := @freshHelper_needLen map entry targetDir zpath hnamed hunder
  rw [hneeded] at hneedLen hlong
  rw [ZipEntry.needLen] at hneeded
  have hneedLen := hneedLen.trans (@wrap32_of_high needed (by omega) (by omega))
  have hnegative : ¬(0 : Int) < (needed : Int) - 2 ^ 32 := by omega
  have hpos : ¬0 + targetDir.length ≤ 0 := by omega
  have hlen : ((freshHelper targetDir zpath).targetDirLen % 2 ^ 32).toNat = targetDir.length := by
    change (wrap32 targetDir.length % 2 ^ 32).toNat = _
    rw [wrap32_emod, Int.emod_eq_of_lt (by omega) (by omega), Int.toNat_natCast]
  have hbegin : (freshHelper targetDir zpath).begin = .error .outOfBounds := by
    rw [MzPathHelper.begin, hlen]
    change (if targetDir.length + 1 < targetDir.length then _ else
      store [] 0 ((targetDir ++ [0]).take targetDir.length) >>= _) = _
    rw [if_neg (Nat.not_lt.mpr (Nat.le_succ _)), List.take_left, store, List.length_nil,
      if_neg hpos]
    rfl
  rw [targetEntryPath_run hneedLen, freshHelper_bufLen, if_neg hnegative]
  change Prog.pure (((freshHelper targetDir zpath).begin >>= _).map _) = _
  rw [hbegin]
  rfl

end Helper

/-! ## A dry run -/

/-- An allocation that the system refuses. -/
def refusesMemory : Event ExtractOp ExtractReply → Bool
  | ⟨.malloc _, reply⟩ => reply.isNone
  | ⟨.realloc _, reply⟩ => reply.isNone
  | _ => false

/-- The path that the callback gets. -/
def callbackPath : Event ExtractOp ExtractReply → Option Bytes
  | ⟨.callback fn, _⟩ => some fn
  | _ => none

theorem Reallocates.refusesMemory
    {events : List (Event ExtractOp ExtractReply)} {granted : Bool}
    (hevents : Reallocates events granted) : events.any refusesMemory = !granted := by
  cases hevents with
  | enough => rfl
  | granted => rfl
  | refused => rfl

theorem Reallocates.callbackPath
    {events : List (Event ExtractOp ExtractReply)} {granted : Bool}
    (hevents : Reallocates events granted) : events.filterMap callbackPath = [] := by
  cases hevents with
  | enough => rfl
  | granted => rfl
  | refused => rfl

section Runs

variable {zlib : Zlib} {fuel : Nat} {pArchive : OpenArchive} {args : ExtractArgs}
variable {targetDir zpath : Bytes} {entries : List ZipEntry} {helper : MzPathHelper}
variable {events : List (Event ExtractOp ExtractReply)} {value : Except Stuck Bool}

/-- The next path is made in a buffer that is large enough. -/
def ReadyFor (pArchive : OpenArchive) (targetDir zpath : Bytes) (helper : MzPathHelper)
    (entries : List ZipEntry) : Prop :=
  ∀ pEntry ∈ entries.head?, ∀ events value,
    (targetEntryPath pArchive.map helper pEntry).run.Traces events value →
      Assembles pArchive.map targetDir zpath pEntry helper events value

/-- What the parser and the selection say about the entries. -/
def Selects (map : MemMapping) (zpath : Bytes) (entries : List ZipEntry) : Prop :=
  ∀ pEntry ∈ entries, pEntry.Named map ∧ zpath <+: pEntry.name map

theorem MzPathHelper.Started.readyFor
    (hstarted : helper.Started targetDir zpath) (hselects : Selects pArchive.map zpath entries)
    (hzero : 0 ∉ targetDir) : ReadyFor pArchive targetDir zpath helper entries := by
  intro pEntry hentry events value htrace
  obtain ⟨hnamed, hunder⟩ := hselects pEntry (List.mem_of_mem_head? hentry)
  exact hstarted.assembles hnamed hunder hzero htrace

/-- What happens at a selected entry. -/
theorem visit_traces
    {rest : Bool → MzPathHelper → ExtractProg Bool} {pEntry : ZipEntry} {ok : Bool}
    (hready : ReadyFor pArchive targetDir zpath helper (pEntry :: entries))
    (htrace : (visit zlib fuel pArchive args rest pEntry ok helper).run.Traces events value) :
    Reallocates events false ∧ value = .ok false ∨
      ∃ made second after, events = made ++ second ∧ Reallocates made true ∧
        after.Started targetDir zpath ∧
        (extractTarget zlib fuel pArchive args pEntry
          (pEntry.targetPath pArchive.map targetDir zpath) ok >>=
            continueLoop rest after).run.Traces second value := by
  rw [visit, Prog.traces_except_bind] at htrace
  rcases htrace with ⟨stuck, hpath, rfl⟩ | ⟨first, middle, second, rfl, hpath, hsecond⟩
  · rcases hready pEntry rfl _ _ hpath with ⟨-, hvalue⟩ | ⟨after, -, -, hvalue⟩
    · cases hvalue
    · cases hvalue
  · rcases hready pEntry rfl _ _ hpath with ⟨hrefused, hvalue⟩ | ⟨after, hafter, hmade, hvalue⟩
    · obtain rfl := Except.ok.inj hvalue
      obtain ⟨rfl, rfl⟩ := Prog.traces_pure.mp hsecond
      rw [List.append_nil]
      exact .inl ⟨hrefused, rfl⟩
    · obtain rfl := Except.ok.inj hvalue
      exact .inr ⟨first, second, after, rfl, hmade, hafter, hsecond⟩

/-- What a dry run has done at the end. -/
structure DryRan (paths : List Bytes) (events : List (Event ExtractOp ExtractReply))
    (value : Except Stuck Bool) : Prop where
  whole : events.any refusesMemory = false →
    value = .ok true ∧ events.filterMap callbackPath = paths
  part : events.any refusesMemory = true →
    value = .ok false ∧ events.filterMap callbackPath <+: paths

theorem extractSelected_dryRun
    (hdry : args.dryRun = true) (hcallback : args.callback = true) (hzero : 0 ∉ targetDir)
    (hselects : Selects pArchive.map zpath entries)
    (hready : ReadyFor pArchive targetDir zpath helper entries)
    (htrace : (extractSelected zlib fuel pArchive args entries true helper).run.Traces
      events value) :
    DryRan (entries.map (ZipEntry.targetPath pArchive.map targetDir zpath)) events value := by
  induction entries generalizing helper events with
  | nil =>
      obtain ⟨rfl, rfl⟩ := Prog.traces_pure.mp htrace
      exact ⟨fun _ => ⟨rfl, rfl⟩, nofun⟩
  | cons pEntry entries ih =>
      rcases visit_traces hready htrace with
        ⟨hrefused, rfl⟩ | ⟨made, second, after, rfl, hmade, hafter, hsecond⟩
      · have hnone := hrefused.refusesMemory
        refine ⟨fun hall => ?_, fun _ => ⟨rfl, ?_⟩⟩
        · cases hall.symm.trans hnone
        · rw [hrefused.callbackPath]
          exact List.nil_prefix
      · have htarget : (extractTarget zlib fuel pArchive args pEntry
            (pEntry.targetPath pArchive.map targetDir zpath) true >>= continueLoop
              (extractSelected zlib fuel pArchive args entries) after).run =
            .request (.callback (pEntry.targetPath pArchive.map targetDir zpath)) fun _ =>
              (extractSelected zlib fuel pArchive args entries true after).run := by
          rw [extractTarget, if_pos hdry, notify, if_pos hcallback]
          rfl
        rw [htarget] at hsecond
        obtain ⟨reply, third, rfl, hthird⟩ := Prog.traces_request.mp hsecond
        have hothers : Selects pArchive.map zpath entries :=
          fun other hother => hselects other (List.mem_cons_of_mem _ hother)
        obtain ⟨hwhole, hpart⟩ := ih hothers (hafter.readyFor hothers hzero) hthird
        have hany : (made ++ (⟨.callback (pEntry.targetPath pArchive.map targetDir zpath), reply⟩ ::
            third)).any refusesMemory = third.any refusesMemory := by
          rw [List.any_append, hmade.refusesMemory]
          rfl
        have hpaths : (made ++ (⟨.callback (pEntry.targetPath pArchive.map targetDir zpath), reply⟩ ::
            third)).filterMap callbackPath =
              pEntry.targetPath pArchive.map targetDir zpath :: third.filterMap callbackPath := by
          rw [List.filterMap_append, hmade.callbackPath]
          rfl
        rw [List.map_cons]
        constructor
        · rw [hany, hpaths]
          intro hall
          exact ⟨(hwhole hall).1, congrArg _ (hwhole hall).2⟩
        · rw [hany, hpaths]
          intro hrefused
          exact ⟨(hpart hrefused).1, (List.prefix_cons_inj _).mpr (hpart hrefused).2⟩

end Runs

/-! ## Any run of the function -/

section Whole

variable {zlib : Zlib} {fuel : Nat} {pArchive : OpenArchive} {args : ExtractArgs}
variable {zipDir targetDir : MemoryText}

/-- The entries that are extracted. -/
def OpenArchive.selected (pArchive : OpenArchive) (zipDir : MemoryText) : List ZipEntry :=
  pArchive.archive.pEntries.filter (ZipEntry.under pArchive.map (canonicalDir zipDir.text))

theorem OpenArchive.named (pArchive : OpenArchive) :
    ∀ pEntry ∈ pArchive.archive.pEntries, pEntry.Named pArchive.map := by
  obtain ⟨alloc, hparse⟩ := pArchive.accepted
  obtain ⟨offset, -, -, hpasses, hfaithful⟩ := parseZipArchive_accepts hparse
  intro pEntry hentry
  obtain ⟨record, hrecord, rfl⟩ := List.mem_map.mp (hfaithful.perm.mem_iff.mp hentry)
  exact (hpasses record hrecord).named

theorem OpenArchive.selects (pArchive : OpenArchive) (zipDir : MemoryText) :
    Selects pArchive.map (canonicalDir zipDir.text) (pArchive.selected zipDir) := by
  intro pEntry hentry
  obtain ⟨hmem, hunder⟩ := List.mem_filter.mp hentry
  exact ⟨pArchive.named pEntry hmem, ZipEntry.under_iff.mp hunder⟩

theorem canonicalDir_le (path : Bytes) : (canonicalDir path).length ≤ path.length + 1 := by
  rw [canonicalDir]
  split
  · exact Nat.zero_le _
  · exact withSlash_le path

theorem mzExtractRecursive_run
    (hrelative : zipDir.text.head? ≠ some slash) (habsolute : targetDir.text.head? = some slash) :
    (mzExtractRecursive zlib fuel pArchive zipDir targetDir args).run =
      .request (.malloc (zipDir.text.length + 2)) fun reply =>
        reply.elim (.pure (.ok false)) fun _ =>
          (extractSelected zlib fuel pArchive args (pArchive.selected zipDir) true
            (freshHelper targetDir.text (canonicalDir zipDir.text))).run := by
  have hsorted : Sorted pArchive.map pArchive.archive.pEntries := by
    obtain ⟨alloc, hparse⟩ := pArchive.accepted
    exact (index_faithful hparse).2.1
  have hle := canonicalDir_le zipDir.text
  rw [mzExtractRecursive, if_neg hrelative, if_neg (not_not.mpr habsolute)]
  refine congrArg (Prog.request _) (funext fun reply => ?_)
  cases reply with
  | none => rfl
  | some memory =>
      have hstore : ∃ buf, store memory.toList 0 (canonicalDir zipDir.text ++ [0]) = .ok buf := by
        refine ⟨_, if_pos ?_⟩
        rw [memory.toList_length, List.length_append, List.length_singleton]
        omega
      obtain ⟨buf, hbuf⟩ := hstore
      have hloop := @extractEntries_selected zlib fuel pArchive args (canonicalDir zipDir.text)
        pArchive.archive.pEntries false true
        (freshHelper targetDir.text (canonicalDir zipDir.text)) pArchive.named hsorted nofun
      change (fallible (store memory.toList 0 (canonicalDir zipDir.text ++ [0])) >>= fun _ =>
        extractEntries zlib fuel pArchive args (canonicalDir zipDir.text)
          pArchive.archive.pEntries false true
          (freshHelper targetDir.text (canonicalDir zipDir.text))).run = _
      rw [hbuf, hloop]
      rfl

/-- A dry run does not leave its buffers, and calls the callback for the selected entries in
their order, unless the system has no memory for it. -/
def DryRunExact (zlib : Zlib) (fuel : Nat) (pArchive : OpenArchive)
    (zipDir targetDir : MemoryText) (args : ExtractArgs) : Prop :=
  ∀ events value,
    (mzExtractRecursive zlib fuel pArchive zipDir targetDir args).run.Traces events value →
      value ≠ .error .outOfBounds ∧
        DryRan ((pArchive.selected zipDir).map (ZipEntry.targetPath pArchive.map targetDir.text
          (canonicalDir zipDir.text))) events value

theorem not_dryRunExact
    (hrelative : zipDir.text.head? ≠ some slash) (habsolute : targetDir.text.head? = some slash)
    {first : ZipEntry} (hfirst : first ∈ (pArchive.selected zipDir).head?)
    (hlong : 2 ^ 31 ≤ first.needLen (canonicalDir zipDir.text) targetDir.text) :
    ¬DryRunExact zlib fuel pArchive zipDir targetDir args := by
  intro hexact
  obtain ⟨rest, hselected⟩ : ∃ rest, pArchive.selected zipDir = first :: rest :=
    List.head?_eq_some_iff.mp hfirst
  obtain ⟨hnamed, hunder⟩ := pArchive.selects zipDir first (List.mem_of_mem_head? hfirst)
  have hpath := freshHelper_overflows hnamed hunder targetDir.length_lt hlong
  have htrace : (extractSelected zlib fuel pArchive args (pArchive.selected zipDir) true
      (freshHelper targetDir.text (canonicalDir zipDir.text))).run.Traces [] (.error .outOfBounds) := by
    rw [hselected, extractSelected, visit, Prog.traces_except_bind]
    refine .inl ⟨.outOfBounds, ?_, rfl⟩
    rw [hpath]
    exact .returned _
  refine (hexact [⟨.malloc (zipDir.text.length + 2), some (.replicate _ 0)⟩]
    (.error .outOfBounds) ?_).1 rfl
  rw [mzExtractRecursive_run hrelative habsolute]
  exact .asked _ htrace

/-- A dry run is exact just when an `int` holds the length that the first path needs. -/
theorem dryRun_exact_iff
    (hrelative : zipDir.text.head? ≠ some slash) (habsolute : targetDir.text.head? = some slash)
    (hdry : args.dryRun = true) (hcallback : args.callback = true) :
    DryRunExact zlib fuel pArchive zipDir targetDir args ↔
      ∀ first ∈ (pArchive.selected zipDir).head?,
        first.needLen (canonicalDir zipDir.text) targetDir.text < 2 ^ 31 := by
  constructor
  · intro hexact first hfirst
    by_contra hlong
    exact not_dryRunExact hrelative habsolute hfirst (not_lt.mp hlong) hexact
  · intro hfits events value htrace
    have hselects := pArchive.selects zipDir
    have hready : ReadyFor pArchive targetDir.text (canonicalDir zipDir.text)
        (freshHelper targetDir.text (canonicalDir zipDir.text)) (pArchive.selected zipDir) := by
      intro pEntry hentry events value htrace
      obtain ⟨hnamed, hunder⟩ := hselects pEntry (List.mem_of_mem_head? hentry)
      exact freshHelper_assembles hnamed hunder targetDir.no_zero (hfits pEntry hentry) htrace
    have hran : DryRan ((pArchive.selected zipDir).map (ZipEntry.targetPath pArchive.map
        targetDir.text (canonicalDir zipDir.text))) events value := by
      rw [mzExtractRecursive_run hrelative habsolute, Prog.traces_request] at htrace
      obtain ⟨reply, rest, rfl, hrest⟩ := htrace
      cases reply with
      | none =>
          obtain ⟨rfl, rfl⟩ := Prog.traces_pure.mp hrest
          exact ⟨nofun, fun _ => ⟨rfl, List.nil_prefix⟩⟩
      | some memory =>
          obtain ⟨hwhole, hpart⟩ := extractSelected_dryRun hdry hcallback targetDir.no_zero hselects
            hready hrest
          exact ⟨hwhole, hpart⟩
    refine ⟨?_, hran⟩
    rintro rfl
    cases hany : events.any refusesMemory with
    | false => cases (hran.whole hany).1
    | true => cases (hran.part hany).1

/-- Both files of an archive, under the root. -/
theorem dryRun_exact_twoFiles :
    ∃ pArchive : OpenArchive, pArchive.map = twoFiles ∧
      (pArchive.selected ⟨[], by decide, by decide⟩).map (ZipEntry.targetPath twoFiles [slash] []) =
        [[slash, 97], [slash, 98]] ∧
      DryRunExact (Zlib.stepwise oneBlock) 0 pArchive ⟨[], by decide, by decide⟩
        ⟨[slash], by decide, by decide⟩ ⟨mzExtractDryRun, none, true⟩ := by
  have hnames : ((parseZipArchive twoFiles fun _ => true).toOption.map fun archive =>
      ((archive.pEntries.filter (ZipEntry.under twoFiles [])).map
        (ZipEntry.targetPath twoFiles [slash] []),
          (archive.pEntries.filter (ZipEntry.under twoFiles [])).head?.map
            fun first => first.needLen [] [slash])) =
      some ([[slash, 97], [slash, 98]], some 4) := by
    decide +kernel
  cases hparse : parseZipArchive twoFiles (fun _ => true) with
  | error exit =>
      rw [hparse] at hnames
      cases hnames
  | ok archive =>
      rw [hparse] at hnames
      obtain ⟨hpaths, hfirst⟩ := Prod.mk.inj (Option.some.inj hnames)
      refine ⟨⟨twoFiles, archive, ⟨_, hparse⟩, fun _ _ => false, 0⟩, rfl, hpaths, ?_⟩
      refine (dryRun_exact_iff (by decide) rfl rfl rfl).mpr fun first hmem => ?_
      have hhead : (archive.pEntries.filter (ZipEntry.under twoFiles [])).head? = some first := hmem
      rw [hhead] at hfirst
      have hneed : first.needLen [] [slash] = 4 := Option.some.inj hfirst
      change first.needLen [] [slash] < 2 ^ 31
      rw [hneed]
      decide

/-- A path of slashes. -/
def longDir : MemoryText where
  text := List.replicate (2 ^ 31 - 2) slash
  no_zero := by
    rw [List.mem_replicate]
    exact fun h => absurd h.2 (by decide)
  length_lt := by
    rw [List.length_replicate]
    norm_num

/-- There is no buffer for a path whose length is just too much for an `int`. -/
theorem dryRun_cuts_lengths :
    ¬∀ (zlib : Zlib) (fuel : Nat) (pArchive : OpenArchive) (zipDir targetDir : MemoryText)
      (args : ExtractArgs), zipDir.text.head? ≠ some slash → targetDir.text.head? = some slash →
        args.dryRun = true → args.callback = true →
          DryRunExact zlib fuel pArchive zipDir targetDir args := by
  intro hexact
  have hcount : ((parseZipArchive twoFiles fun _ => true).toOption.map fun archive =>
      (archive.pEntries.filter (ZipEntry.under twoFiles [])).length) = some 2 := by
    decide +kernel
  cases hparse : parseZipArchive twoFiles (fun _ => true) with
  | error exit =>
      rw [hparse] at hcount
      cases hcount
  | ok archive =>
      rw [hparse] at hcount
      obtain ⟨first, hfirst⟩ : ∃ first,
          first ∈ (archive.pEntries.filter (ZipEntry.under twoFiles [])).head? := by
        cases hentries : archive.pEntries.filter (ZipEntry.under twoFiles []) with
        | nil =>
            change some (archive.pEntries.filter (ZipEntry.under twoFiles [])).length = _ at hcount
            rw [hentries] at hcount
            cases hcount
        | cons first rest => exact ⟨first, rfl⟩
      have habsolute : longDir.text.head? = some slash := by
        rw [longDir, List.head?_replicate, if_neg (by norm_num)]
      have hlong : 2 ^ 31 ≤ first.needLen (canonicalDir []) longDir.text := by
        rw [ZipEntry.needLen, longDir, List.length_replicate]
        omega
      exact @not_dryRunExact (Zlib.stepwise oneBlock) 0
        ⟨twoFiles, archive, ⟨_, hparse⟩, fun _ _ => false, 0⟩ ⟨mzExtractDryRun, none, true⟩
        ⟨[], by decide, by decide⟩ longDir (by decide) habsolute first hfirst hlong
        (hexact _ _ _ _ _ _ (by decide) habsolute rfl rfl)

end Whole

end OpenRecovery.Minzip
