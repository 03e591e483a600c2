import OpenRecovery.ZipSelection
import Mathlib

/-!
# Failures in the body of the extraction loop

An entry is extracted completely if its data come whole and every operation succeeds.
The body of the loop notices what goes wrong before it has made a file or a link, and
leaves the loop with false.  What goes wrong later it notices, but forgets.
-/

namespace OpenRecovery.Minzip

open Deflate Effects Words

/-! ## The data that an entry gives -/

/-- What a program passes on to a function that accepts everything, and its result. -/
def delivers (program : ContentsProg Bool) : Except Stuck Bool × Bytes :=
  program.run.run (fun data out => (true, out ++ data)) []

theorem delivers_feed (refused : Bool) (chunks : List Bytes) (result : Except Stuck Bool) :
    delivers (feed refused chunks result) = (result, chunks.flatten) := by
  have hgather : ∀ out : Bytes, (feed refused chunks result).run.run
      (fun data out => (true, out ++ data)) out = (result, out ++ chunks.flatten) := by
    induction chunks with
    | nil =>
        intro out
        rw [List.flatten_nil, List.append_nil]
        rfl
    | cons chunk chunks ih =>
        intro out
        rw [feed_cons_run, List.flatten_cons, ← List.append_assoc]
        exact ih (out ++ chunk)
  exact hgather []

section Feeding

variable (zlib : Zlib) (fd : ArchiveFd)

/-- The loop only passes on chunks, whatever the decompressor does. -/
theorem inflateLoop_feed
    (fuel : Nat) (stream : zlib.State) (input out : Bytes) (totalOut : Nat) (compRemaining : Int)
    (position : Nat) :
    ∃ chunks result, inflateLoop zlib fd fuel stream input out totalOut compRemaining position =
      feed (-1) chunks result := by
  induction fuel generalizing stream input out totalOut compRemaining position with
  | zero => exact ⟨[], .error .hang, rfl⟩
  | succ fuel ih =>
      cases hfill : fillInput fd input compRemaining position with
      | error stuck =>
          refine ⟨[], .error stuck, ?_⟩
          rw [inflateLoop, hfill]
          rfl
      | ok filled =>
          cases filled with
          | none =>
              refine ⟨[], .ok (-1), ?_⟩
              rw [inflateLoop, hfill]
              rfl
          | some filled =>
              obtain ⟨input', compRemaining', position'⟩ := filled
              rw [inflateLoop_filled hfill rfl]
              have hafter : ∀ out', ∃ chunks result, afterInflate zlib fd fuel
                  (zlib.inflate stream input' (bufSize - out.length)) input' totalOut
                    compRemaining' position' out' = feed (-1) chunks result := by
                intro out'
                rw [afterInflate]
                split
                · exact ih _ _ _ _ _ _
                · exact ⟨[], .ok _, rfl⟩
              split
              · exact ⟨[], .ok (-1), rfl⟩
              · split
                · obtain ⟨chunks, result, hrest⟩ := hafter []
                  refine ⟨(out ++ (zlib.inflate stream input' (bufSize - out.length)).output) :: chunks,
                    result, ?_⟩
                  rw [feed, hrest]
                · exact hafter _

theorem mzProcessZipEntryContents_feed (fuel : Nat) (entry : ZipEntry) (position : Nat) :
    ∃ refused chunks result, mzProcessZipEntryContents zlib fuel fd entry position =
      feed refused chunks result ∧ (refused = true → entry.uncompLen = -1) := by
  by_cases hstored : entry.compression = storedMethod
  · obtain ⟨chunks, whole, hprogram, -⟩ := stored_feeds zlib fuel fd position hstored
    exact ⟨_, _, _, hprogram, nofun⟩
  by_cases hdeflated : entry.compression = deflatedMethod
  · rw [mzProcessZipEntryContents_deflated hdeflated]
    cases hinit : zlib.init with
    | none => exact ⟨_, _, _, processDeflatedEntry_denied hinit, nofun⟩
    | some stream =>
        obtain ⟨chunks, result, hloop⟩ := inflateLoop_feed zlib fd fuel stream [] [] 0
          entry.compLen (entry.seek position)
        exact ⟨_, _, _, processDeflatedEntry_feeds hinit hloop,
          fun hrefused => (of_decide_eq_true hrefused).symm⟩
  · exact ⟨_, _, _, mzProcessZipEntryContents_other hstored hdeflated, nofun⟩

end Feeding

/-! ## Writing the data -/

/-- An operation that fails.  Nobody looks at what `close` returns. -/
def fails : Event ExtractOp ExtractReply → Bool
  | ⟨.malloc _, reply⟩ => reply.isNone
  | ⟨.realloc _, reply⟩ => reply.isNone
  | ⟨.dirCreateHierarchy .., ret⟩ => decide (ret ≠ (0 : Int))
  | ⟨.creat .., fd⟩ => decide (fd < (0 : Int))
  | ⟨.write _ buf, reply⟩ =>
      decide (reply.n ≤ 0) && !reply.interrupted || decide ((buf.length : Int) < reply.n)
  | ⟨.close _, _⟩ => false
  | ⟨.symlink .., ret⟩ => decide (ret ≠ (0 : Int))
  | ⟨.utime .., ret⟩ => decide (ret ≠ (0 : Int))
  | ⟨.callback _, _⟩ => false
  | ⟨.mkdirRecursive _, ret⟩ => decide (ret ≠ (0 : Int))
  | ⟨.runShellScript _, _⟩ => false

/-- The data that the system takes. -/
def taken : Event ExtractOp ExtractReply → Bytes
  | ⟨.write _ buf, reply⟩ => buf.take reply.n.toNat
  | _ => []

/-- A write to a file. -/
def WritesTo (fd : Int) (event : Event ExtractOp ExtractReply) : Prop :=
  ∃ buf reply, event = ⟨.write fd buf, reply⟩

section Writing

variable {fd : Int} {fuel : Nat} {events : List (Event ExtractOp ExtractReply)}

/-- What a function for data has done to a file. -/
structure Wrote (fd : Int) (data : Bytes) (events : List (Event ExtractOp ExtractReply)) : Prop where
  writes : ∀ event ∈ events, WritesTo fd event
  noneFails : events.any fails = false
  taken_eq : events.flatMap taken = data

theorem writeProcessFunction_traces
    {data : Bytes} {value : Except Stuck Bool}
    (htrace : (writeProcessFunction fd fuel data).run.Traces events value) :
    (∀ event ∈ events, WritesTo fd event) ∧
      (value = .error .hang ∧ events.any fails = false ∨
        value = .ok true ∧ Wrote fd data events ∨ value = .ok false ∧ events.any fails = true) := by
  induction fuel generalizing data events with
  | zero =>
      obtain ⟨rfl, rfl⟩ := Prog.traces_pure.mp htrace
      exact ⟨nofun, .inl ⟨rfl, rfl⟩⟩
  | succ fuel ih =>
      obtain ⟨reply, rest, rfl, hrest⟩ := Prog.traces_request.mp htrace
      change (if reply.n ≤ 0 then _ else _ : ExtractProg Bool).run.Traces rest value at hrest
      have hcons : ∀ {others : List (Event ExtractOp ExtractReply)},
          (∀ event ∈ others, WritesTo fd event) →
            ∀ event ∈ (⟨.write fd data, reply⟩ : Event ExtractOp ExtractReply) :: others,
              WritesTo fd event := by
        intro others hothers event hevent
        rcases List.mem_cons.mp hevent with rfl | hevent
        · exact ⟨_, _, rfl⟩
        · exact hothers event hevent
      by_cases hnone : reply.n ≤ 0
      · rw [if_pos hnone] at hrest
        have htake : data.take reply.n.toNat = [] := by
          rw [Int.toNat_of_nonpos hnone, List.take_zero]
        have hlength : ¬(data.length : Int) < reply.n := by omega
        cases hinterrupted : reply.interrupted with
        | false =>
            rw [hinterrupted] at hrest
            obtain ⟨rfl, rfl⟩ := Prog.traces_pure.mp hrest
            refine ⟨hcons nofun, .inr (.inr ⟨rfl, ?_⟩)⟩
            rw [List.any_cons, fails, hinterrupted, decide_eq_true hnone]
            rfl
        | true =>
            rw [hinterrupted] at hrest
            obtain ⟨hwrites, hvalue⟩ := ih hrest
            have hfails : fails ⟨.write fd data, reply⟩ = false := by
              rw [fails, hinterrupted, decide_eq_false hlength]
              simp
            refine ⟨hcons hwrites, hvalue.imp ?_ (Or.imp ?_ ?_)⟩
            · rintro ⟨rfl, hnone⟩
              refine ⟨rfl, ?_⟩
              rw [List.any_cons, hfails, hnone]
              rfl
            · rintro ⟨rfl, hwrote⟩
              refine ⟨rfl, hcons hwrites, ?_, ?_⟩
              · rw [List.any_cons, hfails, hwrote.noneFails]
                rfl
              · rw [List.flatMap_cons, taken, htake, hwrote.taken_eq]
                rfl
            · rintro ⟨rfl, hfailed⟩
              refine ⟨rfl, ?_⟩
              rw [List.any_cons, hfailed, Bool.or_true]
      · rw [if_neg hnone] at hrest
        have hfails : fails ⟨.write fd data, reply⟩ = decide ((data.length : Int) < reply.n) := by
          rw [fails, decide_eq_false hnone]
          rfl
        by_cases hall : reply.n = data.length
        · rw [if_pos hall] at hrest
          obtain ⟨rfl, rfl⟩ := Prog.traces_pure.mp hrest
          refine ⟨hcons nofun, .inr (.inl ⟨rfl, hcons nofun, ?_, ?_⟩)⟩
          · rw [List.any_cons, hfails, decide_eq_false (by omega)]
            rfl
          · rw [List.flatMap_cons, taken, hall, Int.toNat_natCast, List.take_length]
            exact List.append_nil _
        · rw [if_neg hall] at hrest
          by_cases hover : (data.length : Int) < reply.n
          · rw [if_pos hover] at hrest
            obtain ⟨rfl, rfl⟩ := Prog.traces_pure.mp hrest
            refine ⟨hcons nofun, .inr (.inr ⟨rfl, ?_⟩)⟩
            rw [List.any_cons, hfails, decide_eq_true hover]
            rfl
          · rw [if_neg hover] at hrest
            obtain ⟨hwrites, hvalue⟩ := ih hrest
            refine ⟨hcons hwrites, hvalue.imp ?_ (Or.imp ?_ ?_)⟩
            · rintro ⟨rfl, hnone⟩
              refine ⟨rfl, ?_⟩
              rw [List.any_cons, hfails, decide_eq_false hover, hnone]
              rfl
            · rintro ⟨rfl, hwrote⟩
              refine ⟨rfl, hcons hwrites, ?_, ?_⟩
              · rw [List.any_cons, hfails, decide_eq_false hover, hwrote.noneFails]
                rfl
              · rw [List.flatMap_cons, taken, hwrote.taken_eq, List.take_append_drop]
            · rintro ⟨rfl, hfailed⟩
              refine ⟨rfl, ?_⟩
              rw [List.any_cons, hfailed, Bool.or_true]

/-- All the chunks are written, or one of them is refused. -/
theorem feed_writes
    {refused : Bool} {chunks : List Bytes} {result value : Except Stuck Bool}
    (htrace : ((feed refused chunks result).run.interpret
      (writeProcessFunction fd fuel) : ExtractProg Bool).run.Traces events value) :
    (∀ event ∈ events, WritesTo fd event) ∧
      (value = .error .hang ∧ events.any fails = false ∨
        value = result ∧ Wrote fd chunks.flatten events ∨
          value = .ok refused ∧ events.any fails = true) := by
  induction chunks generalizing events with
  | nil =>
      have hpure : ((feed refused [] result).run.interpret
          (writeProcessFunction fd fuel) : ExtractProg Bool).run = .pure result := by
        cases result with
        | error stuck => rfl
        | ok value => rfl
      rw [hpure] at htrace
      obtain ⟨rfl, rfl⟩ := Prog.traces_pure.mp htrace
      exact ⟨nofun, .inr (.inl ⟨rfl, nofun, rfl, rfl⟩)⟩
  | cons chunk chunks ih =>
      rw [feed_cons_run, Prog.interpret, Prog.traces_except_bind] at htrace
      rcases htrace with ⟨stuck, hfirst, rfl⟩ | ⟨first, accepted, second, rfl, hfirst, hsecond⟩
      · obtain ⟨hwrites, hvalue⟩ := writeProcessFunction_traces hfirst
        refine ⟨hwrites, ?_⟩
        rcases hvalue with hvalue | ⟨hvalue, -⟩ | ⟨hvalue, -⟩
        · exact .inl hvalue
        · cases hvalue
        · cases hvalue
      · obtain ⟨hwrites, hvalue⟩ := writeProcessFunction_traces hfirst
        rcases hvalue with ⟨hvalue, -⟩ | ⟨hvalue, hwrote⟩ | ⟨hvalue, hfailed⟩
        · cases hvalue
        · obtain rfl := Except.ok.inj hvalue
          obtain ⟨hothers, hrest⟩ := ih hsecond
          have hall : ∀ event ∈ first ++ second, WritesTo fd event := by
            intro event hevent
            exact (List.mem_append.mp hevent).elim (hwrites event) (hothers event)
          refine ⟨hall, hrest.imp ?_ (Or.imp ?_ ?_)⟩
          · rintro ⟨rfl, hnone⟩
            refine ⟨rfl, ?_⟩
            rw [List.any_append, hwrote.noneFails, hnone]
            rfl
          · rintro ⟨rfl, hwrote'⟩
            refine ⟨rfl, hall, ?_, ?_⟩
            · rw [List.any_append, hwrote.noneFails, hwrote'.noneFails]
              rfl
            · rw [List.flatMap_append, hwrote.taken_eq, hwrote'.taken_eq, List.flatten_cons]
          · rintro ⟨rfl, hfailed⟩
            refine ⟨rfl, ?_⟩
            rw [List.any_append, hfailed, Bool.or_true]
        · obtain rfl := Except.ok.inj hvalue
          obtain ⟨rfl, rfl⟩ := Prog.traces_pure.mp hsecond
          rw [List.append_nil]
          exact ⟨hwrites, .inr (.inr ⟨rfl, hfailed⟩)⟩

end Writing

/-! ## An entry that is extracted completely -/

section Complete

variable (format : Format) (zlib : Zlib) (fuel : Nat) (pArchive : OpenArchive)
variable (args : ExtractArgs)

/-- The data of an entry come as they should: so many bytes as are recorded, and they are the
contents of the entry. -/
def DeliversContents (pEntry : ZipEntry) (contents : Bytes) : Prop :=
  delivers (pArchive.contents zlib fuel pEntry) = (.ok true, contents) ∧
    (contents.length : Int) = pEntry.uncompLen ∧
    Contents format pArchive.map.data pEntry contents

/-- The last byte of the name; before an empty name stands the header. -/
def ZipEntry.isDirectory (map : MemMapping) (pEntry : ZipEntry) : Bool :=
  map.bytesAt (pEntry.fileName + pEntry.fileNameLen - 1) 1 = [slash]

def ExtractArgs.makesLink (pEntry : ZipEntry) : Bool :=
  !args.filesOnly && mzIsZipEntrySymlink pEntry

variable (path : Bytes) (events : List (Event ExtractOp ExtractReply))

def DirectoryDone : Prop :=
  events = if args.filesOnly then []
    else [⟨.dirCreateHierarchy path unzipDirmode args.timestamp false, (0 : Int)⟩]

def LinkDone (contents : Bytes) : Prop :=
  ∃ target size, ∃ memory : List.Vector UInt8 size, textOf (contents ++ [0]) = .ok target ∧
    events = [⟨.dirCreateHierarchy path unzipDirmode args.timestamp true, (0 : Int)⟩,
      ⟨.malloc size, some memory⟩, ⟨.symlink target path, (0 : Int)⟩]

/-- The event that sets the times of a file. -/
def ExtractArgs.stamp : List (Event ExtractOp ExtractReply) :=
  args.timestamp.toList.map fun timestamp => ⟨.utime path timestamp, (0 : Int)⟩

def FileDone (contents : Bytes) : Prop :=
  ∃ fd writes closed, (0 : Int) ≤ fd ∧ Wrote fd contents writes ∧
    events = ⟨.dirCreateHierarchy path unzipDirmode args.timestamp true, (0 : Int)⟩ ::
      ⟨.creat path unzipFilemode, fd⟩ :: (writes ++ ⟨.close fd, closed⟩ :: args.stamp path)

/-- The events that extract an entry completely. -/
def EntryDone (pEntry : ZipEntry) : Prop :=
  if pEntry.isDirectory pArchive.map then DirectoryDone args path events
  else ∃ contents, DeliversContents format zlib fuel pArchive pEntry contents ∧
    if args.makesLink pEntry then LinkDone args path events contents
    else FileDone args path events contents

/-- A file or a link is made. -/
def makes : Event ExtractOp ExtractReply → Bool
  | ⟨.creat .., fd⟩ => decide ((0 : Int) ≤ fd)
  | ⟨.symlink .., ret⟩ => decide (ret = (0 : Int))
  | _ => false

/-- Nothing goes wrong for an entry after its file or its link was made. -/
def Sound (pEntry : ZipEntry) : Prop :=
  events.any makes = true →
    (∃ contents, DeliversContents format zlib fuel pArchive pEntry contents) ∧
      events.any fails = false

/-- What the loop body says about an entry. -/
inductive Attempted (sound complete : Prop) : LoopStep → Prop where
  | proceed (hsame : sound ↔ complete) : Attempted sound complete (.proceed true)
  | quiet (hsound : ¬sound) (hcomplete : ¬complete) : Attempted sound complete (.leave true)
  | loud (hsound : sound) (hcomplete : ¬complete) : Attempted sound complete (.leave false)

end Complete

section Entry

variable {format : Format} {zlib : Zlib} {fuel : Nat} {pArchive : OpenArchive} {args : ExtractArgs}
variable {path : Bytes} {events : List (Event ExtractOp ExtractReply)} {pEntry : ZipEntry}
variable {step : LoopStep}

theorem ExtractArgs.stamp_noneFails : (args.stamp path).any fails = false := by
  rw [stamp]
  cases args.timestamp with
  | none => rfl
  | some timestamp => rfl

theorem FileDone.noneFails {contents : Bytes} (hdone : FileDone args path events contents) :
    events.any fails = false := by
  obtain ⟨fd, writes, closed, hfd, hwrote, rfl⟩ := hdone
  have hcreat : fails ⟨.creat path unzipFilemode, fd⟩ = false := decide_eq_false (not_lt.mpr hfd)
  rw [List.any_cons, List.any_cons, List.any_append, List.any_cons, hcreat, hwrote.noneFails,
    args.stamp_noneFails]
  rfl

theorem EntryDone.noneFails
    (hdone : EntryDone format zlib fuel pArchive args path events pEntry) :
    events.any fails = false := by
  rw [EntryDone] at hdone
  split at hdone
  · rw [DirectoryDone] at hdone
    subst hdone
    split
    · rfl
    · rfl
  · obtain ⟨contents, -, hdone⟩ := hdone
    split at hdone
    · obtain ⟨target, size, memory, -, rfl⟩ := hdone
      rfl
    · exact hdone.noneFails

/-- A failure is seen in the events. -/
theorem not_entryDone (hfails : events.any fails = true) :
    ¬EntryDone format zlib fuel pArchive args path events pEntry := by
  intro hdone
  cases hfails.symm.trans hdone.noneFails

theorem sound_of_not_makes (hmakes : events.any makes = false) :
    Sound format zlib fuel pArchive events pEntry := by
  intro hmade
  cases hmade.symm.trans hmakes

theorem not_sound_of_fails (hmakes : events.any makes = true) (hfails : events.any fails = true) :
    ¬Sound format zlib fuel pArchive events pEntry := by
  intro hsound
  cases hfails.symm.trans (hsound hmakes).2

theorem sound_iff (hmakes : events.any makes = true) (hnone : events.any fails = false) :
    Sound format zlib fuel pArchive events pEntry ↔
      ∃ contents, DeliversContents format zlib fuel pArchive pEntry contents :=
  ⟨fun hsound => (hsound hmakes).1, fun hdelivers _ => ⟨hdelivers, hnone⟩⟩

theorem entryDone_directory_iff (hdirectory : pEntry.isDirectory pArchive.map = true) :
    EntryDone format zlib fuel pArchive args path events pEntry ↔
      DirectoryDone args path events := by
  rw [EntryDone, if_pos hdirectory]

theorem extractDirectory_attempted
    (hdirectory : pEntry.isDirectory pArchive.map = true)
    (htrace : (extractDirectory args path true).run.Traces events (.ok step)) :
    Attempted (Sound format zlib fuel pArchive events pEntry)
      (EntryDone format zlib fuel pArchive args path events pEntry) step := by
  rw [extractDirectory] at htrace
  cases hfilesOnly : args.filesOnly with
  | true =>
      rw [hfilesOnly] at htrace
      obtain ⟨rfl, hstep⟩ := Prog.traces_pure.mp htrace
      obtain rfl := Except.ok.inj hstep
      refine .proceed (iff_of_true (sound_of_not_makes rfl) ?_)
      rw [entryDone_directory_iff hdirectory, DirectoryDone, hfilesOnly]
      rfl
  | false =>
      rw [hfilesOnly] at htrace
      obtain ⟨ret, rest, rfl, hrest⟩ := Prog.traces_request.mp htrace
      change (if ret ≠ (0 : Int) then _ else _ : ExtractProg LoopStep).run.Traces rest _ at hrest
      by_cases hret : ret = (0 : Int)
      · rw [if_neg (not_not.mpr hret)] at hrest
        obtain ⟨rfl, hstep⟩ := Prog.traces_pure.mp hrest
        obtain rfl := Except.ok.inj hstep
        subst hret
        refine .proceed (iff_of_true (sound_of_not_makes rfl) ?_)
        rw [entryDone_directory_iff hdirectory, DirectoryDone, hfilesOnly]
        rfl
      · rw [if_pos hret] at hrest
        obtain ⟨rfl, hstep⟩ := Prog.traces_pure.mp hrest
        obtain rfl := Except.ok.inj hstep
        refine .loud (sound_of_not_makes rfl) (not_entryDone ?_)
        rw [List.any_cons, fails, decide_eq_true hret]
        rfl

theorem entryDone_file_iff
    (hdirectory : pEntry.isDirectory pArchive.map = false) (hlink : args.makesLink pEntry = false) :
    EntryDone format zlib fuel pArchive args path events pEntry ↔
      ∃ contents, DeliversContents format zlib fuel pArchive pEntry contents ∧
        FileDone args path events contents := by
  rw [EntryDone, hdirectory, hlink]
  exact Iff.rfl

/-- The events of a regular file. -/
def fileEvents (args : ExtractArgs) (path : Bytes) (fd closed : Int)
    (writes rest : List (Event ExtractOp ExtractReply)) : List (Event ExtractOp ExtractReply) :=
  ⟨.dirCreateHierarchy path unzipDirmode args.timestamp true, (0 : Int)⟩ ::
    ⟨.creat path unzipFilemode, fd⟩ :: (writes ++ ⟨.close fd, closed⟩ :: rest)

section File

variable {fd closed : Int} {writes rest : List (Event ExtractOp ExtractReply)}

theorem fileEvents_makes (hfd : 0 ≤ fd) :
    (fileEvents args path fd closed writes rest).any makes = true := by
  have hmakes : makes ⟨.creat path unzipFilemode, fd⟩ = true := decide_eq_true hfd
  rw [fileEvents, List.any_cons, List.any_cons, hmakes]
  exact Bool.or_true _

theorem fileEvents_fails (hfd : 0 ≤ fd) :
    (fileEvents args path fd closed writes rest).any fails =
      (writes.any fails || rest.any fails) := by
  have hfails : fails ⟨.creat path unzipFilemode, fd⟩ = false := decide_eq_false (not_lt.mpr hfd)
  rw [fileEvents, List.any_cons, List.any_cons, List.any_append, List.any_cons, hfails]
  rfl

/-- The end of a file whose data have been passed on. -/
theorem extractFile_end
    (hdirectory : pEntry.isDirectory pArchive.map = false) (hlink : args.makesLink pEntry = false)
    {refused inner : Bool} {chunks : List Bytes} {result : Except Stuck Bool} (hfd : 0 ≤ fd)
    (hcontents : pArchive.contents zlib fuel pEntry = feed refused chunks result)
    (hrefused : refused = true → pEntry.uncompLen = -1)
    (hinner : Except.ok inner = result ∧ Wrote fd chunks.flatten writes ∨
      (Except.ok inner : Except Stuck Bool) = .ok refused ∧ writes.any fails = true)
    (htrace : (if inner = false then pure (.leave true)
      else
        match args.timestamp with
        | none => pure (.proceed true)
        | some timestamp => do
            let ret ← call (.utime path timestamp)
            if ret ≠ 0 then pure (.leave true) else pure (.proceed true) :
              ExtractProg LoopStep).run.Traces rest (.ok step)) :
    Attempted
      (Sound format zlib fuel pArchive (fileEvents args path fd closed writes rest) pEntry)
      (EntryDone format zlib fuel pArchive args path (fileEvents args path fd closed writes rest)
        pEntry) step := by
  have hdelivers : ∀ contents, DeliversContents format zlib fuel pArchive pEntry contents →
      result = .ok true ∧ chunks.flatten = contents := by
    rintro contents ⟨hresult, -, -⟩
    rw [hcontents, delivers_feed] at hresult
    exact Prod.mk.inj hresult
  have hmakes := @fileEvents_makes args path fd closed writes rest hfd
  have hfails := @fileEvents_fails args path fd closed writes rest hfd
  have hquiet : (fileEvents args path fd closed writes rest).any fails = true →
      Attempted
        (Sound format zlib fuel pArchive (fileEvents args path fd closed writes rest) pEntry)
        (EntryDone format zlib fuel pArchive args path (fileEvents args path fd closed writes rest)
          pEntry) (.leave true) :=
    fun hany => .quiet (not_sound_of_fails hmakes hany) (not_entryDone hany)
  cases inner with
  | false =>
      obtain ⟨rfl, hstep⟩ := Prog.traces_pure.mp htrace
      obtain rfl := Except.ok.inj hstep
      rcases hinner with ⟨rfl, -⟩ | ⟨-, hfailed⟩
      · have hnone : ¬∃ contents, DeliversContents format zlib fuel pArchive pEntry contents := by
          rintro ⟨contents, hcontents⟩
          cases (hdelivers contents hcontents).1
        refine .quiet (fun hsound => hnone (hsound hmakes).1) (fun hdone => hnone ?_)
        obtain ⟨contents, hcontents, -⟩ := (entryDone_file_iff hdirectory hlink).mp hdone
        exact ⟨contents, hcontents⟩
      · apply hquiet
        rw [hfails, hfailed]
        rfl
  | true =>
      have hproceed : rest = args.stamp path → Attempted
          (Sound format zlib fuel pArchive (fileEvents args path fd closed writes rest) pEntry)
          (EntryDone format zlib fuel pArchive args path
            (fileEvents args path fd closed writes rest) pEntry) (.proceed true) := by
        intro hrest
        refine .proceed ?_
        rw [entryDone_file_iff hdirectory hlink]
        rcases hinner with ⟨-, hwrote⟩ | ⟨htrue, hfailed⟩
        · have hnone : (fileEvents args path fd closed writes rest).any fails = false := by
            rw [hfails, hwrote.noneFails, hrest, args.stamp_noneFails]
            rfl
          rw [sound_iff hmakes hnone]
          refine exists_congr fun contents => ⟨fun hcontents => ⟨hcontents, ?_⟩, fun h => h.1⟩
          obtain ⟨-, rfl⟩ := hdelivers contents hcontents
          exact ⟨fd, writes, closed, hfd, hwrote, hrest ▸ rfl⟩
        · -- The data are refused, and no length is -1.
          have hlength := hrefused (Except.ok.inj htrue).symm
          have hnone : ∀ contents,
              ¬DeliversContents format zlib fuel pArchive pEntry contents := by
            rintro contents ⟨-, hcount, -⟩
            omega
          refine iff_of_false (fun hsound => ?_) ?_
          · obtain ⟨contents, hcontents⟩ := (hsound hmakes).1
            exact hnone contents hcontents
          · rintro ⟨contents, hcontents, -⟩
            exact hnone contents hcontents
      change (match args.timestamp with
        | none => pure (.proceed true)
        | some timestamp => do
            let ret ← call (.utime path timestamp)
            if ret ≠ 0 then pure (.leave true) else pure (.proceed true) :
              ExtractProg LoopStep).run.Traces rest (.ok step) at htrace
      cases htimestamp : args.timestamp with
      | none =>
          rw [htimestamp] at htrace
          obtain ⟨rfl, hstep⟩ := Prog.traces_pure.mp htrace
          obtain rfl := Except.ok.inj hstep
          apply hproceed
          rw [ExtractArgs.stamp, htimestamp]
          rfl
      | some timestamp =>
          rw [htimestamp] at htrace
          obtain ⟨ret, tail, rfl, htail⟩ := Prog.traces_request.mp htrace
          change (if ret ≠ (0 : Int) then _ else _ : ExtractProg LoopStep).run.Traces tail _ at htail
          by_cases hret : ret = (0 : Int)
          · rw [if_neg (not_not.mpr hret)] at htail
            obtain ⟨rfl, hstep⟩ := Prog.traces_pure.mp htail
            obtain rfl := Except.ok.inj hstep
            apply hproceed
            rw [ExtractArgs.stamp, htimestamp, hret]
            rfl
          · rw [if_pos hret] at htail
            obtain ⟨rfl, hstep⟩ := Prog.traces_pure.mp htail
            obtain rfl := Except.ok.inj hstep
            have htime : fails ⟨.utime path timestamp, ret⟩ = true := decide_eq_true hret
            apply hquiet
            rw [hfails, List.any_cons, htime]
            exact Bool.or_true _

end File

theorem extractFile_attempted
    (hdirectory : pEntry.isDirectory pArchive.map = false) (hlink : args.makesLink pEntry = false)
    {rest : List (Event ExtractOp ExtractReply)}
    (htrace : (extractFile zlib fuel pArchive args pEntry path true).run.Traces rest (.ok step)) :
    let events := ⟨.dirCreateHierarchy path unzipDirmode args.timestamp true, (0 : Int)⟩ :: rest
    Attempted (Sound format zlib fuel pArchive events pEntry)
      (EntryDone format zlib fuel pArchive args path events pEntry) step := by
  intro events
  obtain ⟨fd, tail, rfl, htail⟩ := Prog.traces_request.mp htrace
  change (if fd < (0 : Int) then _ else _ : ExtractProg LoopStep).run.Traces tail _ at htail
  by_cases hfd : fd < (0 : Int)
  · rw [if_pos hfd] at htail
    obtain ⟨rfl, hstep⟩ := Prog.traces_pure.mp htail
    obtain rfl := Except.ok.inj hstep
    have hmakes : makes ⟨.creat path unzipFilemode, fd⟩ = false :=
      decide_eq_false (not_le.mpr hfd)
    have hfails : fails ⟨.creat path unzipFilemode, fd⟩ = true := decide_eq_true hfd
    refine .loud (sound_of_not_makes ?_) (not_entryDone ?_)
    · rw [List.any_cons, List.any_cons, hmakes]
      rfl
    · rw [List.any_cons, List.any_cons, hfails]
      rfl
  · rw [if_neg hfd, Prog.traces_except_bind] at htail
    obtain ⟨refused, chunks, result, hcontents, hrefused⟩ := mzProcessZipEntryContents_feed zlib
      pArchive.fd fuel pEntry pArchive.position
    change pArchive.contents zlib fuel pEntry = _ at hcontents
    rcases htail with ⟨stuck, -, hvalue⟩ | ⟨writes, inner, after, rfl, hwrites, hafter⟩
    · cases hvalue
    · rw [mzExtractZipEntryToFile, hcontents] at hwrites
      obtain ⟨closed, rest, rfl, hrest⟩ := Prog.traces_request.mp hafter
      exact extractFile_end hdirectory hlink (not_lt.mp hfd) hcontents hrefused
        ((feed_writes hwrites).2.resolve_left fun h => nomatch h.1) hrest

theorem entryDone_link_iff
    (hdirectory : pEntry.isDirectory pArchive.map = false) (hlink : args.makesLink pEntry = true) :
    EntryDone format zlib fuel pArchive args path events pEntry ↔
      ∃ contents, DeliversContents format zlib fuel pArchive pEntry contents ∧
        LinkDone args path events contents := by
  rw [EntryDone, hdirectory, hlink]
  exact Iff.rfl

/-- The target of a link whose data are whole. -/
theorem read_target
    {memory contents after : Bytes} (hpos : 0 ≤ pEntry.uncompLen)
    (hmemory : (memory.length : Int) = pEntry.uncompLen + 1)
    (hcontents : DeliversContents format zlib fuel pArchive pEntry contents)
    (hread : mzReadZipEntry zlib fuel pArchive.fd pEntry pArchive.position memory
      pEntry.uncompLen = .ok (true, after)) :
    store after pEntry.uncompLen.toNat [0] = .ok (contents ++ [0]) := by
  obtain ⟨refused, chunks, result, hprogram, -⟩ := mzProcessZipEntryContents_feed zlib
    pArchive.fd fuel pEntry pArchive.position
  obtain ⟨hdelivers, hlength, -⟩ := hcontents
  rw [OpenArchive.contents, hprogram, delivers_feed] at hdelivers
  obtain ⟨rfl, rfl⟩ := Prod.mk.inj hdelivers
  obtain ⟨count, hcount⟩ := Int.eq_ofNat_of_zero_le hpos
  have hsplit : memory = memory.take count ++ memory.drop count := (List.take_append_drop _ _).symm
  have htake : (memory.take count).length = count := List.length_take_of_le (by omega)
  have htail : (memory.drop count).length = 1 := by
    rw [List.length_drop]
    omega
  have hflatten : chunks.flatten.length = count := by omega
  rw [hsplit] at hread
  have hwhole := (@read_feed pArchive.fd pEntry pArchive.position zlib fuel refused chunks
    (.ok true) (memory.take count) (memory.drop count) (by omega) hprogram).1 (by omega)
  have hnone : (memory.take count).drop chunks.flatten.length = [] := by
    rw [List.drop_eq_nil_iff]
    omega
  rw [hnone, List.append_nil] at hwhole
  obtain rfl := (Prod.mk.inj (Except.ok.inj (hread.symm.trans hwhole))).2
  have hstore := store_append chunks.flatten (memory.drop count) [0]
  rw [if_pos (by rw [List.length_singleton, htail]), hflatten] at hstore
  rw [hcount, Int.toNat_natCast, hstore, List.drop_of_length_le (by rw [htail]; exact le_rfl),
    List.append_nil]

/-- The end of a link whose data have been read. -/
theorem extractLink_end
    (hdirectory : pEntry.isDirectory pArchive.map = false) (hlink : args.makesLink pEntry = true)
    (hpos : 0 ≤ pEntry.uncompLen) {size : Nat} {memory : List.Vector UInt8 size}
    (hmemory : (memory.toList.length : Int) = pEntry.uncompLen + 1) {linkTarget : Bytes}
    (hread : mzReadZipEntry zlib fuel pArchive.fd pEntry pArchive.position memory.toList
      pEntry.uncompLen = .ok (true, linkTarget))
    {tail : List (Event ExtractOp ExtractReply)}
    (htrace : (do
      let linkTarget ← fallible (store linkTarget pEntry.uncompLen.toNat [0])
      let target ← fallible (textOf linkTarget)
      let ret ← call (.symlink target path)
      if ret ≠ 0 then pure (.leave false) else pure (.proceed true) :
        ExtractProg LoopStep).run.Traces tail (.ok step)) :
    let events := ⟨.dirCreateHierarchy path unzipDirmode args.timestamp true, (0 : Int)⟩ ::
      ⟨.malloc size, some memory⟩ :: tail
    Attempted (Sound format zlib fuel pArchive events pEntry)
      (EntryDone format zlib fuel pArchive args path events pEntry) step := by
  intro events
  cases hstore : store linkTarget pEntry.uncompLen.toNat [0] with
  | error stuck =>
      rw [hstore] at htrace
      cases (Prog.traces_pure.mp htrace).2
  | ok text =>
      rw [hstore] at htrace
      cases htext : textOf text with
      | error stuck =>
          change (fallible (textOf text) >>= _).run.Traces tail _ at htrace
          rw [htext] at htrace
          cases (Prog.traces_pure.mp htrace).2
      | ok target =>
          change (fallible (textOf text) >>= _).run.Traces tail _ at htrace
          rw [htext] at htrace
          obtain ⟨ret, rest, rfl, hrest⟩ := Prog.traces_request.mp htrace
          change (if ret ≠ (0 : Int) then _ else _ : ExtractProg LoopStep).run.Traces rest _ at hrest
          by_cases hret : ret = (0 : Int)
          · rw [if_neg (not_not.mpr hret)] at hrest
            obtain ⟨rfl, hstep⟩ := Prog.traces_pure.mp hrest
            obtain rfl := Except.ok.inj hstep
            subst hret
            refine .proceed ?_
            rw [sound_iff rfl rfl, entryDone_link_iff hdirectory hlink]
            refine exists_congr fun contents => ⟨fun hcontents => ⟨hcontents, ?_⟩, fun h => h.1⟩
            have hwhole := read_target hpos hmemory hcontents hread
            obtain rfl := Except.ok.inj (hstore.symm.trans hwhole)
            exact ⟨target, size, memory, htext, rfl⟩
          · rw [if_pos hret] at hrest
            obtain ⟨rfl, hstep⟩ := Prog.traces_pure.mp hrest
            obtain rfl := Except.ok.inj hstep
            have hmakes : makes ⟨.symlink target path, ret⟩ = false := decide_eq_false hret
            have hfails : fails ⟨.symlink target path, ret⟩ = true := decide_eq_true hret
            refine .loud (sound_of_not_makes ?_) (not_entryDone ?_)
            · rw [List.any_cons, List.any_cons, List.any_cons, hmakes]
              rfl
            · rw [List.any_cons, List.any_cons, List.any_cons, hfails]
              rfl

theorem extractLink_attempted
    (hdirectory : pEntry.isDirectory pArchive.map = false) (hlink : args.makesLink pEntry = true)
    (hrange : pEntry.InRange) {rest : List (Event ExtractOp ExtractReply)}
    (htrace : (extractLink zlib fuel pArchive pEntry path).run.Traces rest (.ok step)) :
    let events := ⟨.dirCreateHierarchy path unzipDirmode args.timestamp true, (0 : Int)⟩ :: rest
    Attempted (Sound format zlib fuel pArchive events pEntry)
      (EntryDone format zlib fuel pArchive args path events pEntry) step := by
  intro events
  -- A link needs two more events than the one for the directory.
  have hshort : events.length < 3 → ¬EntryDone format zlib fuel pArchive args path events pEntry := by
    intro hless hdone
    obtain ⟨contents, -, target, size, memory, -, hevents⟩ :=
      (entryDone_link_iff hdirectory hlink).mp hdone
    rw [hevents] at hless
    exact Nat.lt_irrefl 3 hless
  rw [extractLink] at htrace
  by_cases hzero : pEntry.uncompLen = 0
  · rw [if_pos hzero] at htrace
    obtain ⟨rfl, hstep⟩ := Prog.traces_pure.mp htrace
    obtain rfl := Except.ok.inj hstep
    exact .loud (sound_of_not_makes rfl) (hshort (show 1 < 3 by decide))
  · rw [if_neg hzero] at htrace
    obtain ⟨reply, tail, rfl, htail⟩ := Prog.traces_request.mp htrace
    cases reply with
    | none =>
        obtain ⟨rfl, hstep⟩ := Prog.traces_pure.mp htail
        obtain rfl := Except.ok.inj hstep
        exact .loud (sound_of_not_makes rfl) (hshort (show 2 < 3 by decide))
    | some memory =>
        change (fallible (mzReadZipEntry zlib fuel pArchive.fd pEntry pArchive.position
          memory.toList pEntry.uncompLen) >>= _).run.Traces tail _ at htail
        cases hread : mzReadZipEntry zlib fuel pArchive.fd pEntry pArchive.position memory.toList
            pEntry.uncompLen with
        | error stuck =>
            rw [hread] at htail
            cases (Prog.traces_pure.mp htail).2
        | ok read =>
            obtain ⟨ok, linkTarget⟩ := read
            rw [hread] at htail
            cases ok with
            | false =>
                obtain ⟨rfl, hstep⟩ := Prog.traces_pure.mp htail
                obtain rfl := Except.ok.inj hstep
                exact .loud (sound_of_not_makes rfl) (hshort (show 2 < 3 by decide))
            | true =>
                change (if pEntry.uncompLen < 0 then _ else _ :
                  ExtractProg LoopStep).run.Traces tail _ at htail
                by_cases hnegative : pEntry.uncompLen < 0
                · rw [if_pos hnegative] at htail
                  cases (Prog.traces_pure.mp htail).2
                · rw [if_neg hnegative] at htail
                  have hlengths := wrap32_range pEntry.uncompLen
                  rw [hrange.uncompLen_eq] at hlengths
                  have hmemory : (memory.toList.length : Int) = pEntry.uncompLen + 1 := by
                    rw [memory.toList_length, Int.emod_eq_of_lt (by omega) (by omega)]
                    omega
                  exact extractLink_end hdirectory hlink (not_lt.mp hnegative) hmemory hread htail

end Entry

/-! ## The loop body -/

/-- The requests for one entry, without its path and the callback. -/
def WorksOn (path : Bytes) : ExtractOp → Prop
  | .malloc _ | .write .. | .close _ => True
  | .dirCreateHierarchy other .. | .creat other _ | .symlink _ other | .utime other _ =>
      other = path
  | .realloc _ | .callback _ | .mkdirRecursive _ | .runShellScript _ => False

section Body

variable {format : Format} {zlib : Zlib} {fuel : Nat} {pArchive : OpenArchive} {args : ExtractArgs}
variable {path : Bytes} {events : List (Event ExtractOp ExtractReply)} {pEntry : ZipEntry}
variable {step : LoopStep}

theorem uses_call {allowed : ExtractOp → Prop} {op : ExtractOp} {α : Type}
    {rest : ExtractReply op → ExtractProg α} (hop : allowed op)
    (hrest : ∀ reply, Prog.Uses allowed (rest reply).run) :
    Prog.Uses allowed (call op >>= rest).run :=
  ⟨hop, hrest⟩

theorem uses_fallible {allowed : ExtractOp → Prop} {α β : Type} {result : Except Stuck α}
    {rest : α → ExtractProg β} (hrest : ∀ value, Prog.Uses allowed (rest value).run) :
    Prog.Uses allowed (fallible result >>= rest).run := by
  cases result with
  | error stuck => trivial
  | ok value => exact hrest value

theorem writeProcessFunction_uses (fd : Int) (data : Bytes) :
    Prog.Uses (WorksOn path) (writeProcessFunction fd fuel data).run := by
  induction fuel generalizing data with
  | zero => trivial
  | succ fuel ih =>
      refine uses_call trivial fun reply => ?_
      split
      · split
        · exact ih data
        · trivial
      · split
        · trivial
        · split
          · trivial
          · exact ih _

theorem extractDirectory_uses (ok : Bool) :
    Prog.Uses (WorksOn path) (extractDirectory args path ok).run := by
  rw [extractDirectory]
  split
  · trivial
  · refine uses_call rfl fun ret => ?_
    split
    · trivial
    · trivial

theorem extractLink_uses :
    Prog.Uses (WorksOn path) (extractLink zlib fuel pArchive pEntry path).run := by
  rw [extractLink]
  split
  · trivial
  · refine uses_call trivial fun memory => ?_
    cases memory with
    | none => trivial
    | some memory =>
        refine uses_fallible fun read => ?_
        obtain ⟨ok, linkTarget⟩ := read
        change Prog.Uses (WorksOn path) (if ok = false then _ else _ : ExtractProg LoopStep).run
        split
        · trivial
        · split
          · trivial
          · refine uses_fallible fun text => uses_fallible fun target => ?_
            refine uses_call rfl fun ret => ?_
            split
            · trivial
            · trivial

theorem extractFile_uses (ok : Bool) :
    Prog.Uses (WorksOn path) (extractFile zlib fuel pArchive args pEntry path ok).run := by
  rw [extractFile]
  refine uses_call rfl fun fd => ?_
  split
  · trivial
  · refine Prog.uses_run_bind (Prog.uses_interpret (writeProcessFunction_uses fd) _) fun inner => ?_
    refine uses_call trivial fun closed => ?_
    split
    · trivial
    · split
      · trivial
      · refine uses_call rfl fun ret => ?_
        split
        · trivial
        · trivial

theorem extractEntry_uses (ok : Bool) :
    Prog.Uses (WorksOn path) (extractEntry zlib fuel pArchive args pEntry path ok).run := by
  rw [extractEntry]
  refine uses_fallible fun last => ?_
  split
  · exact extractDirectory_uses ok
  · refine uses_call rfl fun ret => ?_
    split
    · trivial
    · split
      · exact extractLink_uses
      · exact extractFile_uses ok

/-- The byte that the code reads to tell a directory. -/
theorem ZipEntry.Named.readLast (hnamed : pEntry.Named pArchive.map) :
    readMapped pArchive.map (add32 pEntry.fileName (pEntry.fileNameLen + (2 ^ 32 - 1))) 1 =
      .ok (pArchive.map.bytesAt (pEntry.fileName + pEntry.fileNameLen - 1) 1) := by
  have hbefore := hnamed.before
  have hend := hnamed.inside.2
  have hstop := pArchive.map.stop_lt_word
  have hadd : add32 pEntry.fileName (pEntry.fileNameLen + (2 ^ 32 - 1)) =
      pEntry.fileName + pEntry.fileNameLen - 1 := by
    rw [add32]
    omega
  rw [readMapped, hadd, MemMapping.read, if_pos ⟨by omega, by omega⟩]
  rfl

theorem extractEntry_attempted
    (hnamed : pEntry.Named pArchive.map) (hrange : pEntry.InRange)
    (htrace : (extractEntry zlib fuel pArchive args pEntry path true).run.Traces events
      (.ok step)) :
    Attempted (Sound format zlib fuel pArchive events pEntry)
      (EntryDone format zlib fuel pArchive args path events pEntry) step := by
  rw [extractEntry, hnamed.readLast] at htrace
  change (if pArchive.map.bytesAt (pEntry.fileName + pEntry.fileNameLen - 1) 1 = [slash] then _
    else _ : ExtractProg LoopStep).run.Traces events _ at htrace
  by_cases hlast : pArchive.map.bytesAt (pEntry.fileName + pEntry.fileNameLen - 1) 1 = [slash]
  · rw [if_pos hlast] at htrace
    exact extractDirectory_attempted (decide_eq_true hlast) htrace
  · have hdirectory : pEntry.isDirectory pArchive.map = false := decide_eq_false hlast
    rw [if_neg hlast] at htrace
    obtain ⟨ret, rest, rfl, hrest⟩ := Prog.traces_request.mp htrace
    change (if ret ≠ (0 : Int) then _ else _ : ExtractProg LoopStep).run.Traces rest _ at hrest
    by_cases hret : ret = (0 : Int)
    · rw [if_neg (not_not.mpr hret)] at hrest
      subst hret
      cases hlink : args.makesLink pEntry with
      | true =>
          rw [← ExtractArgs.makesLink, hlink, if_pos rfl] at hrest
          exact extractLink_attempted hdirectory hlink hrange hrest
      | false =>
          rw [← ExtractArgs.makesLink, hlink, if_neg (by decide)] at hrest
          exact extractFile_attempted hdirectory hlink hrest
    · rw [if_pos hret] at hrest
      obtain ⟨rfl, hstep⟩ := Prog.traces_pure.mp hrest
      obtain rfl := Except.ok.inj hstep
      have hfails : fails ⟨.dirCreateHierarchy path unzipDirmode args.timestamp true, ret⟩ = true :=
        decide_eq_true hret
      refine .loud (sound_of_not_makes rfl) (not_entryDone ?_)
      rw [List.any_cons, hfails]
      rfl

end Body

section Target

variable (format : Format) (zlib : Zlib) (fuel : Nat) (pArchive : OpenArchive)
variable (args : ExtractArgs) (path : Bytes) (events : List (Event ExtractOp ExtractReply))
variable (pEntry : ZipEntry)

/-- The call of the callback. -/
def ExtractArgs.note : List (Event ExtractOp ExtractReply) :=
  if args.callback then [⟨.callback path, ()⟩] else []

def ExtractArgs.noteAfter : LoopStep → List (Event ExtractOp ExtractReply)
  | .leave _ => []
  | .proceed _ => args.note path

/-- The events of an entry that is dealt with completely.  A dry run only calls the callback. -/
def TargetDone : Prop :=
  ∃ work, events = work ++ args.note path ∧
    if args.dryRun then work = []
    else EntryDone format zlib fuel pArchive args path work pEntry

variable {format zlib fuel pArchive args path events pEntry}

theorem note_makes : (args.note path).any makes = false := by
  rw [ExtractArgs.note]
  split
  · rfl
  · rfl

theorem note_fails : (args.note path).any fails = false := by
  rw [ExtractArgs.note]
  split
  · rfl
  · rfl

theorem sound_append_note :
    Sound format zlib fuel pArchive (events ++ args.note path) pEntry ↔
      Sound format zlib fuel pArchive events pEntry := by
  rw [Sound, Sound, List.any_append, List.any_append, note_makes, note_fails, Bool.or_false,
    Bool.or_false]

theorem notify_traces
    {first step : LoopStep} (htrace : (notify args path first).run.Traces events (.ok step)) :
    step = first ∧ events = args.noteAfter path first := by
  cases first with
  | leave ok =>
      obtain ⟨rfl, hstep⟩ := Prog.traces_pure.mp htrace
      exact ⟨Except.ok.inj hstep, rfl⟩
  | proceed ok =>
      rw [notify] at htrace
      rw [ExtractArgs.noteAfter, ExtractArgs.note]
      by_cases hcallback : args.callback = true
      · rw [if_pos hcallback] at htrace ⊢
        obtain ⟨reply, rest, rfl, hrest⟩ := Prog.traces_request.mp htrace
        obtain ⟨rfl, hstep⟩ := Prog.traces_pure.mp hrest
        exact ⟨Except.ok.inj hstep, rfl⟩
      · rw [if_neg hcallback] at htrace ⊢
        obtain ⟨rfl, hstep⟩ := Prog.traces_pure.mp htrace
        exact ⟨Except.ok.inj hstep, rfl⟩

/-- The requests for one entry, without its path. -/
def Confined (path : Bytes) (events : List (Event ExtractOp ExtractReply)) : Prop :=
  ∀ event ∈ events, WorksOn path event.1 ∨ event.1 = .callback path

theorem extractTarget_confined
    {value : Except Stuck LoopStep}
    (htrace : (extractTarget zlib fuel pArchive args pEntry path true).run.Traces events value) :
    Confined path events := by
  have hnotify : ∀ first, Prog.Uses (fun op => WorksOn path op ∨ op = .callback path)
      (notify args path first).run := by
    intro first
    cases first with
    | leave ok => trivial
    | proceed ok =>
        rw [notify]
        split
        · exact uses_call (.inr rfl) fun _ => trivial
        · trivial
  have huses : Prog.Uses (fun op => WorksOn path op ∨ op = .callback path)
      (extractTarget zlib fuel pArchive args pEntry path true).run := by
    rw [extractTarget]
    split
    · exact hnotify _
    · exact Prog.uses_run_bind ((extractEntry_uses true).mono fun op hop => .inl hop) hnotify
  exact huses.of_traces htrace

/-- The callback is not called for an entry that leaves the loop. -/
theorem not_targetDone
    (hdry : args.dryRun = false) (huses : ∀ event ∈ events, WorksOn path event.1)
    (hnot : ¬EntryDone format zlib fuel pArchive args path events pEntry) :
    ¬TargetDone format zlib fuel pArchive args path events pEntry := by
  rintro ⟨work, rfl, hdone⟩
  rw [hdry] at hdone
  by_cases hcallback : args.callback = true
  · have hmem : (⟨.callback path, ()⟩ : Event ExtractOp ExtractReply) ∈ work ++ args.note path := by
      rw [ExtractArgs.note, if_pos hcallback]
      exact List.mem_append_right _ (List.mem_singleton_self _)
    exact huses _ hmem
  · rw [ExtractArgs.note, if_neg hcallback, List.append_nil] at hnot
    exact hnot hdone

theorem extractTarget_attempted
    (hnamed : pEntry.Named pArchive.map) (hrange : pEntry.InRange) {step : LoopStep}
    (htrace : (extractTarget zlib fuel pArchive args pEntry path true).run.Traces events
      (.ok step)) :
    Attempted (Sound format zlib fuel pArchive events pEntry)
      (TargetDone format zlib fuel pArchive args path events pEntry) step := by
  rw [extractTarget] at htrace
  cases hdry : args.dryRun with
  | true =>
      rw [hdry, if_pos rfl] at htrace
      obtain ⟨rfl, rfl⟩ := notify_traces htrace
      refine .proceed (iff_of_true (sound_of_not_makes note_makes) ⟨[], rfl, ?_⟩)
      rw [hdry]
      rfl
  | false =>
      rw [hdry, if_neg (by decide)] at htrace
      rcases Prog.traces_except_bind.mp htrace with
        ⟨stuck, -, hvalue⟩ | ⟨work, first, rest, rfl, hwork, hrest⟩
      · cases hvalue
      · have huses := (extractEntry_uses true).of_traces hwork
        have hattempted := @extractEntry_attempted format zlib fuel pArchive args path work pEntry
          first hnamed hrange hwork
        obtain ⟨rfl, rfl⟩ := notify_traces hrest
        cases hattempted with
        | proceed hsame =>
            refine .proceed ?_
            rw [ExtractArgs.noteAfter, sound_append_note, hsame, TargetDone, hdry]
            constructor
            · intro hdone
              exact ⟨work, rfl, hdone⟩
            · rintro ⟨other, hother, hdone⟩
              rw [List.append_cancel_right hother]
              exact hdone
        | quiet hsound hnot =>
            rw [ExtractArgs.noteAfter, List.append_nil]
            exact .quiet hsound (not_targetDone hdry huses hnot)
        | loud hsound hnot =>
            rw [ExtractArgs.noteAfter, List.append_nil]
            exact .loud hsound (not_targetDone hdry huses hnot)

end Target

/-! ## After a failure the code comes to an end -/

/-- A program that gives a value in every run. -/
def Ends {α : Type} (program : ExtractProg α) : Prop :=
  program.run.Returns fun value => ∃ result, value = .ok result

/-- A run that gets stuck has seen no failure. -/
def Settles {α : Type} (program : ExtractProg α) : Prop :=
  ∀ events stuck, program.run.Traces events (.error stuck) → events.any fails = false

section Settling

variable {α β : Type}

theorem ends_pure (value : α) : Ends (pure value : ExtractProg α) :=
  ⟨value, rfl⟩

theorem Ends.settles {program : ExtractProg α} (hends : Ends program) : Settles program := by
  intro events stuck htrace
  obtain ⟨result, hresult⟩ := hends.of_traces htrace
  cases hresult

theorem settles_pure (value : α) : Settles (pure value : ExtractProg α) :=
  (ends_pure value).settles

theorem settles_throw (stuck : Stuck) : Settles (throw stuck : ExtractProg α) := by
  intro events other htrace
  obtain ⟨rfl, -⟩ := Prog.traces_pure.mp htrace
  rfl

theorem settles_fallible
    {result : Except Stuck α} {rest : α → ExtractProg β} (hrest : ∀ value, Settles (rest value)) :
    Settles (fallible result >>= rest) := by
  cases result with
  | error stuck => exact settles_throw stuck
  | ok value => exact hrest value

theorem settles_call
    {op : ExtractOp} {rest : ExtractReply op → ExtractProg β}
    (hfails : ∀ reply, fails ⟨op, reply⟩ = true → Ends (rest reply))
    (hrest : ∀ reply, Settles (rest reply)) : Settles (call op >>= rest) := by
  intro events stuck htrace
  obtain ⟨reply, others, rfl, hothers⟩ := Prog.traces_request.mp htrace
  cases hfailed : fails ⟨op, reply⟩ with
  | false =>
      rw [List.any_cons, hfailed, hrest reply _ _ hothers]
      rfl
  | true =>
      obtain ⟨result, hresult⟩ := (hfails reply hfailed).of_traces hothers
      cases hresult

theorem Settles.bind
    {program : ExtractProg α} {rest : α → ExtractProg β} (hsettles : Settles program)
    (hrest : ∀ value, Ends (rest value)) : Settles (program >>= rest) := by
  intro events stuck htrace
  rcases Prog.traces_except_bind.mp htrace with
    ⟨other, hfirst, -⟩ | ⟨first, middle, second, rfl, -, hsecond⟩
  · exact hsettles events other hfirst
  · obtain ⟨result, hresult⟩ := (hrest middle).of_traces hsecond
    cases hresult

end Settling

section Settles

variable {zlib : Zlib} {fuel : Nat} {pArchive : OpenArchive} {args : ExtractArgs}
variable {path : Bytes} {pEntry : ZipEntry}

theorem mzExtractZipEntryToFile_settles (fd : Int) :
    Settles (mzExtractZipEntryToFile zlib fuel pArchive pEntry fd) := by
  intro events stuck htrace
  obtain ⟨refused, chunks, result, hcontents, -⟩ := mzProcessZipEntryContents_feed zlib
    pArchive.fd fuel pEntry pArchive.position
  rw [mzExtractZipEntryToFile, OpenArchive.contents, hcontents] at htrace
  rcases (feed_writes htrace).2 with ⟨-, hnone⟩ | ⟨-, hwrote⟩ | ⟨hvalue, -⟩
  · exact hnone
  · exact hwrote.noneFails
  · cases hvalue

theorem extractDirectory_settles (ok : Bool) : Settles (extractDirectory args path ok) := by
  rw [extractDirectory]
  split
  · exact settles_pure _
  · refine settles_call (fun ret hfails => ?_) fun ret => ?_
    · rw [if_pos (of_decide_eq_true hfails)]
      exact ends_pure _
    · split
      · exact settles_pure _
      · exact settles_pure _

theorem extractLink_settles : Settles (extractLink zlib fuel pArchive pEntry path) := by
  rw [extractLink]
  split
  · exact settles_pure _
  · refine settles_call (fun memory hfails => ?_) fun memory => ?_
    · cases memory with
      | none => exact ends_pure _
      | some memory => cases hfails
    · cases memory with
      | none => exact settles_pure _
      | some memory =>
          refine settles_fallible fun read => ?_
          obtain ⟨ok, linkTarget⟩ := read
          change Settles (if ok = false then _ else _ : ExtractProg LoopStep)
          split
          · exact settles_pure _
          · split
            · exact settles_throw _
            · refine settles_fallible fun text => settles_fallible fun target => ?_
              refine settles_call (fun ret hfails => ?_) fun ret => ?_
              · rw [if_pos (of_decide_eq_true hfails)]
                exact ends_pure _
              · split
                · exact settles_pure _
                · exact settles_pure _

theorem extractFile_settles (ok : Bool) :
    Settles (extractFile zlib fuel pArchive args pEntry path ok) := by
  rw [extractFile]
  refine settles_call (fun fd hfails => ?_) fun fd => ?_
  · rw [if_pos (of_decide_eq_true hfails)]
    exact ends_pure _
  · split
    · exact settles_pure _
    · refine (mzExtractZipEntryToFile_settles fd).bind fun inner => fun closed => ?_
      change Ends (if inner = false then _ else _ : ExtractProg LoopStep)
      split
      · exact ends_pure _
      · split
        · exact ends_pure _
        · intro ret
          change Ends (if ret ≠ (0 : Int) then _ else _ : ExtractProg LoopStep)
          split
          · exact ends_pure _
          · exact ends_pure _

theorem extractEntry_settles (ok : Bool) :
    Settles (extractEntry zlib fuel pArchive args pEntry path ok) := by
  rw [extractEntry]
  refine settles_fallible fun last => ?_
  split
  · exact extractDirectory_settles ok
  · refine settles_call (fun ret hfails => ?_) fun ret => ?_
    · rw [if_pos (of_decide_eq_true hfails)]
      exact ends_pure _
    · split
      · exact settles_pure _
      · split
        · exact extractLink_settles
        · exact extractFile_settles ok

theorem extractTarget_settles :
    Settles (extractTarget zlib fuel pArchive args pEntry path true) := by
  have hnotify : ∀ first, Ends (notify args path first) := by
    intro first
    cases first with
    | leave ok => exact ends_pure _
    | proceed ok =>
        rw [notify]
        split
        · exact fun _ => ends_pure _
        · exact ends_pure _
  rw [extractTarget]
  split
  · exact (hnotify _).settles
  · exact (extractEntry_settles true).bind hnotify

end Settles

end OpenRecovery.Minzip
