import OpenRecovery.ZipFailures
import Mathlib

/-!
# What a run of the extraction reports

The events of a run are cut into the parts that belong to one entry each.  The run
reports its failures if every entry but the last was extracted completely, and the last
one too if the function returns true.  The code keeps that promise as long as nothing goes
wrong after it has made a file or a link.
-/

namespace OpenRecovery.Minzip

open Deflate Effects Words

/-! ## Runs -/

/-- The events that belong to one entry: the buffer for its path may be made larger first. -/
structure Segment where
  entry : ZipEntry
  allocation : List (Event ExtractOp ExtractReply)
  attempt : List (Event ExtractOp ExtractReply)

def Segment.events (segment : Segment) : List (Event ExtractOp ExtractReply) :=
  segment.allocation ++ segment.attempt

section Reports

variable (format : Format) (zlib : Zlib) (fuel : Nat) (pArchive : OpenArchive)
variable (targetDir zpath : Bytes) (args : ExtractArgs)

/-- The entry was extracted completely. -/
def Segment.Complete (segment : Segment) : Prop :=
  Reallocates segment.allocation true ∧
    TargetDone format zlib fuel pArchive args
      (segment.entry.targetPath pArchive.map targetDir zpath) segment.attempt segment.entry

/-- A run that claims success has extracted every entry, and a run that has not extracted an
entry stops there and claims no success. -/
structure Reports (entries : List ZipEntry) (segments : List Segment) (success : Prop) : Prop where
  complete : success → segments.map Segment.entry = entries ∧
    ∀ segment ∈ segments, segment.Complete format zlib fuel pArchive targetDir zpath args
  stops : ∀ before segment after, segments = before ++ segment :: after →
    ¬segment.Complete format zlib fuel pArchive targetDir zpath args → after = [] ∧ ¬success

/-- The events of a run, cut into what belongs to the entries. -/
structure Splits (entries : List ZipEntry) (segments : List Segment)
    (events : List (Event ExtractOp ExtractReply)) : Prop where
  entries_begin : segments.map Segment.entry <+: entries
  events_eq : events = segments.flatMap Segment.events
  allocation : ∀ segment ∈ segments, ∃ granted, Reallocates segment.allocation granted
  confined : ∀ segment ∈ segments,
    Confined (segment.entry.targetPath pArchive.map targetDir zpath) segment.attempt

variable {format zlib fuel pArchive targetDir zpath args}
variable {entries : List ZipEntry} {segments : List Segment} {segment : Segment} {success : Prop}
variable {events : List (Event ExtractOp ExtractReply)}

theorem splits_nil : Splits pArchive targetDir zpath entries [] [] :=
  ⟨List.nil_prefix, rfl, nofun, nofun⟩

theorem Splits.cons
    (hsplits : Splits pArchive targetDir zpath entries segments events)
    (hallocation : ∃ granted, Reallocates segment.allocation granted)
    (hconfined : Confined (segment.entry.targetPath pArchive.map targetDir zpath)
      segment.attempt) :
    Splits pArchive targetDir zpath (segment.entry :: entries) (segment :: segments)
      (segment.events ++ events) := by
  constructor
  · exact (List.prefix_cons_inj _).mpr hsplits.entries_begin
  · rw [List.flatMap_cons, hsplits.events_eq]
  · intro other hother
    rcases List.mem_cons.mp hother with rfl | hother
    · exact hallocation
    · exact hsplits.allocation other hother
  · intro other hother
    rcases List.mem_cons.mp hother with rfl | hother
    · exact hconfined
    · exact hsplits.confined other hother

/-- The last segment. -/
theorem Splits.single
    (hallocation : ∃ granted, Reallocates segment.allocation granted)
    (hconfined : Confined (segment.entry.targetPath pArchive.map targetDir zpath)
      segment.attempt) :
    Splits pArchive targetDir zpath (segment.entry :: entries) [segment] segment.events := by
  have hcons := (@splits_nil pArchive targetDir zpath entries).cons hallocation hconfined
  rwa [List.append_nil] at hcons

theorem Reallocates.noneFails (hmade : Reallocates events true) : events.any fails = false := by
  cases hmade with
  | enough => rfl
  | granted memory => rfl

theorem Segment.Complete.noneFails
    (hcomplete : segment.Complete format zlib fuel pArchive targetDir zpath args) :
    segment.events.any fails = false := by
  obtain ⟨hmade, work, hattempt, hdone⟩ := hcomplete
  have hwork : work.any fails = false := by
    split at hdone
    · rw [hdone]
      rfl
    · exact hdone.noneFails
  rw [Segment.events, List.any_append, hmade.noneFails, hattempt, List.any_append, hwork,
    note_fails]
  rfl

theorem reports_cons_iff
    (hcomplete : segment.Complete format zlib fuel pArchive targetDir zpath args) :
    Reports format zlib fuel pArchive targetDir zpath args (segment.entry :: entries)
        (segment :: segments) success ↔
      Reports format zlib fuel pArchive targetDir zpath args entries segments success := by
  constructor
  · rintro ⟨hcompletes, hstops⟩
    refine ⟨fun hsuccess => ?_, fun before other after heq hother => ?_⟩
    · obtain ⟨hentries, hall⟩ := hcompletes hsuccess
      exact ⟨(List.cons.inj hentries).2,
        fun other hother => hall other (List.mem_cons_of_mem _ hother)⟩
    · exact hstops (segment :: before) other after (by rw [heq]; rfl) hother
  · rintro ⟨hcompletes, hstops⟩
    refine ⟨fun hsuccess => ?_, fun before other after heq hother => ?_⟩
    · obtain ⟨hentries, hall⟩ := hcompletes hsuccess
      refine ⟨by rw [List.map_cons, hentries], fun other hother => ?_⟩
      rcases List.mem_cons.mp hother with rfl | hother
      · exact hcomplete
      · exact hall other hother
    · cases before with
      | nil =>
          obtain ⟨rfl, -⟩ := List.cons.inj heq
          exact absurd hcomplete hother
      | cons first before => exact hstops before other after (List.cons.inj heq).2 hother

/-- An entry that is not complete has to be the last, and there is no success. -/
theorem reports_incomplete
    (hincomplete : ¬segment.Complete format zlib fuel pArchive targetDir zpath args) :
    Reports format zlib fuel pArchive targetDir zpath args entries (segment :: segments) success ↔
      segments = [] ∧ ¬success := by
  constructor
  · intro hreports
    exact hreports.stops [] segment segments rfl hincomplete
  · rintro ⟨rfl, hfails⟩
    refine ⟨fun hsuccess => absurd hsuccess hfails, fun before other after heq _ => ⟨?_, hfails⟩⟩
    have hlength := congrArg List.length heq
    rw [List.length_append, List.length_cons, List.length_cons, List.length_nil] at hlength
    exact List.eq_nil_of_length_eq_zero (by omega)

theorem reports_nil (hsuccess : success → entries = []) :
    Reports format zlib fuel pArchive targetDir zpath args entries [] success := by
  refine ⟨fun h => ⟨(hsuccess h).symm, nofun⟩, ?_⟩
  intro before segment after heq
  cases before with
  | nil => cases heq
  | cons first before => cases heq

end Reports

section Visits

variable (zlib : Zlib) (fuel : Nat) (pArchive : OpenArchive)
variable (targetDir zpath : Bytes) (args : ExtractArgs)

/-- The rest of the loop body has such a run for the entry of the segment. -/
def Segment.Runs (segment : Segment) (step : Except Stuck LoopStep) : Prop :=
  (extractTarget zlib fuel pArchive args segment.entry
    (segment.entry.targetPath pArchive.map targetDir zpath) true).run.Traces segment.attempt step

/-- The runs of the loop over the selected entries. -/
inductive Visits : List ZipEntry → List Segment → Except Stuck Bool → Prop where
  | nil : Visits [] [] (.ok true)
  | refused (segment : Segment) (entries : List ZipEntry)
      (hrefused : Reallocates segment.allocation false) (hattempt : segment.attempt = []) :
      Visits (segment.entry :: entries) [segment] (.ok false)
  | stuck (segment : Segment) (entries : List ZipEntry) (stuck : Stuck)
      (hmade : Reallocates segment.allocation true)
      (hruns : segment.Runs zlib fuel pArchive targetDir zpath args (.error stuck)) :
      Visits (segment.entry :: entries) [segment] (.error stuck)
  | left (segment : Segment) (entries : List ZipEntry) (ok : Bool)
      (hmade : Reallocates segment.allocation true)
      (hruns : segment.Runs zlib fuel pArchive targetDir zpath args (.ok (.leave ok))) :
      Visits (segment.entry :: entries) [segment] (.ok ok)
  | proceeded (segment : Segment) (entries : List ZipEntry) (segments : List Segment)
      (value : Except Stuck Bool) (hmade : Reallocates segment.allocation true)
      (hruns : segment.Runs zlib fuel pArchive targetDir zpath args (.ok (.proceed true)))
      (hrest : Visits entries segments value) :
      Visits (segment.entry :: entries) (segment :: segments) value

variable {format : Format}
variable {zlib fuel pArchive targetDir zpath args}
variable {entries : List ZipEntry} {segments : List Segment} {segment : Segment}
variable {events : List (Event ExtractOp ExtractReply)} {value : Except Stuck Bool}

theorem extractSelected_visits
    (format : Format) {helper : MzPathHelper} (hzero : 0 ∉ targetDir) (hselects : Selects pArchive.map zpath entries)
    (hrange : ∀ pEntry ∈ entries, pEntry.InRange)
    (hready : ReadyFor pArchive targetDir zpath helper entries)
    (htrace : (extractSelected zlib fuel pArchive args entries true helper).run.Traces events
      value) :
    ∃ segments, events = segments.flatMap Segment.events ∧
      Visits zlib fuel pArchive targetDir zpath args entries segments value := by
  induction entries generalizing helper events with
  | nil =>
      obtain ⟨rfl, rfl⟩ := Prog.traces_pure.mp htrace
      exact ⟨[], rfl, .nil⟩
  | cons pEntry entries ih =>
      obtain ⟨hnamed, hunder⟩ := hselects pEntry List.mem_cons_self
      have hsingle : ∀ segment : Segment, segment.events = [segment].flatMap Segment.events := by
        intro segment
        rw [List.flatMap_cons, List.flatMap_nil, List.append_nil]
      rcases visit_traces hready htrace with
        ⟨hrefused, rfl⟩ | ⟨made, second, after, rfl, hmade, hafter, hsecond⟩
      · refine ⟨[⟨pEntry, events, []⟩], ?_, .refused ⟨pEntry, events, []⟩ entries hrefused rfl⟩
        rw [← hsingle, Segment.events, List.append_nil]
      · rcases Prog.traces_except_bind.mp hsecond with
          ⟨stuck, hattempt, rfl⟩ | ⟨attempt, step, rest, rfl, hattempt, hrest⟩
        · exact ⟨[⟨pEntry, made, second⟩], hsingle ⟨pEntry, made, second⟩,
            .stuck ⟨pEntry, made, second⟩ entries stuck hmade hattempt⟩
        · cases step with
          | leave ok =>
              obtain ⟨rfl, rfl⟩ := Prog.traces_pure.mp hrest
              refine ⟨[⟨pEntry, made, attempt⟩], ?_,
                .left ⟨pEntry, made, attempt⟩ entries ok hmade hattempt⟩
              rw [← hsingle, Segment.events, List.append_nil]
          | proceed ok =>
              obtain rfl : ok = true := by
                cases @extractTarget_attempted format zlib fuel pArchive args
                  (pEntry.targetPath pArchive.map targetDir zpath) attempt pEntry hnamed
                  (hrange pEntry List.mem_cons_self) _ hattempt
                rfl
              have hothers : Selects pArchive.map zpath entries :=
                fun other hother => hselects other (List.mem_cons_of_mem _ hother)
              obtain ⟨segments, rfl, hvisits⟩ := ih hothers
                (fun other hother => hrange other (List.mem_cons_of_mem _ hother))
                (hafter.readyFor hothers hzero) hrest
              refine ⟨⟨pEntry, made, attempt⟩ :: segments, ?_,
                .proceeded ⟨pEntry, made, attempt⟩ entries segments value hmade hattempt hvisits⟩
              rw [List.flatMap_cons, Segment.events, List.append_assoc]

theorem Visits.splits
    (hvisits : Visits zlib fuel pArchive targetDir zpath args entries segments value) :
    Splits pArchive targetDir zpath entries segments (segments.flatMap Segment.events) := by
  have hsingle : ∀ (segment : Segment) (entries : List ZipEntry),
      (∃ granted, Reallocates segment.allocation granted) →
        Confined (segment.entry.targetPath pArchive.map targetDir zpath) segment.attempt →
          Splits pArchive targetDir zpath (segment.entry :: entries) [segment]
            ([segment].flatMap Segment.events) := by
    intro segment entries hallocation hconfined
    have hsplits := @Splits.single pArchive targetDir zpath entries segment hallocation hconfined
    rwa [List.flatMap_cons, List.flatMap_nil, List.append_nil]
  induction hvisits with
  | nil => exact splits_nil
  | refused segment entries hrefused hattempt =>
      refine hsingle segment entries ⟨_, hrefused⟩ ?_
      rw [hattempt]
      nofun
  | stuck segment entries stuck hmade hruns =>
      exact hsingle segment entries ⟨_, hmade⟩ (extractTarget_confined hruns)
  | left segment entries ok hmade hruns =>
      exact hsingle segment entries ⟨_, hmade⟩ (extractTarget_confined hruns)
  | proceeded segment entries segments value hmade hruns hrest ih =>
      rw [List.flatMap_cons]
      exact ih.cons ⟨_, hmade⟩ (extractTarget_confined hruns)

/-- What the loop body says about a segment. -/
theorem Segment.Runs.attempted
    {step : LoopStep} (hselects : Selects pArchive.map zpath (segment.entry :: entries))
    (hrange : ∀ pEntry ∈ segment.entry :: entries, pEntry.InRange)
    (hmade : Reallocates segment.allocation true)
    (hruns : segment.Runs zlib fuel pArchive targetDir zpath args (.ok step)) :
    Attempted (Sound format zlib fuel pArchive segment.attempt segment.entry)
      (segment.Complete format zlib fuel pArchive targetDir zpath args) step := by
  have hattempted := @extractTarget_attempted format zlib fuel pArchive args
    (segment.entry.targetPath pArchive.map targetDir zpath) segment.attempt segment.entry
    (hselects _ List.mem_cons_self).1 (hrange _ List.mem_cons_self) step hruns
  have hcomplete : segment.Complete format zlib fuel pArchive targetDir zpath args ↔
      TargetDone format zlib fuel pArchive args
        (segment.entry.targetPath pArchive.map targetDir zpath) segment.attempt segment.entry :=
    and_iff_right hmade
  rwa [hcomplete]

theorem Visits.last (hvisits : Visits zlib fuel pArchive targetDir zpath args entries [] value) :
    value = .ok true := by
  cases hvisits
  rfl

/-- A run reports its failures just when nothing goes wrong after a file or a link was made. -/
theorem Visits.reports_iff
    {result : Bool} (hselects : Selects pArchive.map zpath entries)
    (hrange : ∀ pEntry ∈ entries, pEntry.InRange)
    (hvisits : Visits zlib fuel pArchive targetDir zpath args entries segments value)
    (hvalue : value = .ok result) :
    Reports format zlib fuel pArchive targetDir zpath args entries segments (result = true) ↔
      ∀ segment ∈ segments, Sound format zlib fuel pArchive segment.attempt segment.entry := by
  induction hvisits with
  | nil => exact iff_of_true (reports_nil fun _ => rfl) nofun
  | refused segment entries hrefused hattempt =>
      obtain rfl := Except.ok.inj hvalue
      rw [List.forall_mem_singleton]
      refine iff_of_true ((reports_incomplete ?_).mpr ⟨rfl, nofun⟩) ?_
      · rintro ⟨hgranted, -⟩
        cases hgranted.refusesMemory.symm.trans hrefused.refusesMemory
      · rw [hattempt]
        exact sound_of_not_makes rfl
  | stuck segment entries stuck hmade hruns => cases hvalue
  | left segment entries ok hmade hruns =>
      obtain rfl := Except.ok.inj hvalue
      rw [List.forall_mem_singleton]
      cases hruns.attempted hselects hrange hmade with
      | quiet hsound hcomplete =>
          refine iff_of_false ?_ hsound
          rw [reports_incomplete hcomplete]
          exact fun h => h.2 rfl
      | loud hsound hcomplete =>
          exact iff_of_true ((reports_incomplete hcomplete).mpr ⟨rfl, nofun⟩) hsound
  | proceeded segment entries segments value hmade hruns hrest ih =>
      have hreports := ih (fun other hother => hselects other (List.mem_cons_of_mem _ hother))
        (fun other hother => hrange other (List.mem_cons_of_mem _ hother)) hvalue
      cases hruns.attempted hselects hrange hmade with
      | proceed hsame =>
          rw [List.forall_mem_cons, hsame, ← hreports]
          by_cases hdone : segment.Complete format zlib fuel pArchive targetDir zpath args
          · rw [reports_cons_iff hdone]
            exact (and_iff_right hdone).symm
          · rw [reports_incomplete hdone]
            refine iff_of_false ?_ fun h => hdone h.1
            rintro ⟨rfl, hfalse⟩
            exact hfalse (Except.ok.inj (hvalue.symm.trans hrest.last))

/-- A run that gets stuck has seen no failure, or forgot one. -/
theorem Visits.noneFails
    {stuck : Stuck} (hselects : Selects pArchive.map zpath entries)
    (hrange : ∀ pEntry ∈ entries, pEntry.InRange)
    (hvisits : Visits zlib fuel pArchive targetDir zpath args entries segments value)
    (hvalue : value = .error stuck)
    (hsound : ∀ segment ∈ segments, Sound format zlib fuel pArchive segment.attempt segment.entry) :
    (segments.flatMap Segment.events).any fails = false := by
  induction hvisits with
  | nil => cases hvalue
  | refused segment entries hrefused hattempt => cases hvalue
  | stuck segment entries other hmade hruns =>
      rw [List.flatMap_cons, List.flatMap_nil, List.append_nil, Segment.events, List.any_append,
        hmade.noneFails, extractTarget_settles _ _ hruns]
      rfl
  | left segment entries ok hmade hruns => cases hvalue
  | proceeded segment entries segments value hmade hruns hrest ih =>
      rw [List.forall_mem_cons] at hsound
      have hnone := ih (fun other hother => hselects other (List.mem_cons_of_mem _ hother))
        (fun other hother => hrange other (List.mem_cons_of_mem _ hother)) hvalue hsound.2
      cases hruns.attempted hselects hrange hmade with
      | proceed hsame =>
          rw [List.flatMap_cons, List.any_append, (hsame.mp hsound.1).noneFails, hnone]
          rfl

end Visits

/-! ## Whole runs -/

theorem OpenArchive.inRange (pArchive : OpenArchive) :
    ∀ pEntry ∈ pArchive.archive.pEntries, pEntry.InRange := by
  obtain ⟨alloc, hparse⟩ := pArchive.accepted
  obtain ⟨offset, -, -, -, hfaithful⟩ := parseZipArchive_accepts hparse
  intro pEntry hentry
  obtain ⟨record, -, rfl⟩ := List.mem_map.mp (hfaithful.perm.mem_iff.mp hentry)
  exact entryAt_inRange record

/-- The requests that belong to no entry. -/
def Outside : ExtractOp → Prop
  | .malloc _ | .mkdirRecursive _ | .runShellScript _ => True
  | _ => False

/-- The events of a run, cut into those of its start, of the selected entries and of its end. -/
structure Cuts (pArchive : OpenArchive) (zipDir targetDir : MemoryText)
    (head : List (Event ExtractOp ExtractReply)) (segments : List Segment)
    (tail events : List (Event ExtractOp ExtractReply)) : Prop where
  events_eq : events = head ++ segments.flatMap Segment.events ++ tail
  outside : ∀ event ∈ head ++ tail, Outside event.1
  splits : Splits pArchive targetDir.text (canonicalDir zipDir.text) (pArchive.selected zipDir)
    segments (segments.flatMap Segment.events)

section Accounts

variable (format : Format) (zlib : Zlib) (fuel : Nat) (pArchive : OpenArchive)
variable (zipDir targetDir : MemoryText) (args : ExtractArgs)

/-- A run whose value tells of success reports every failure just when nothing goes wrong after
a file or a link was made.  One that gets stuck then has seen no failure. -/
def AccountsFor (events : List (Event ExtractOp ExtractReply)) (value : Except Stuck Bool) : Prop :=
  ∃ head segments tail, Cuts pArchive zipDir targetDir head segments tail events ∧
    (head.any fails = true → segments = [] ∧ value = .ok false) ∧
    (∀ result, value = .ok result →
      (Reports format zlib fuel pArchive targetDir.text (canonicalDir zipDir.text) args
          (pArchive.selected zipDir) segments (result = true) ↔
        ∀ segment ∈ segments, Sound format zlib fuel pArchive segment.attempt segment.entry)) ∧
    ∀ stuck, value = .error stuck →
      (∀ segment ∈ segments, Sound format zlib fuel pArchive segment.attempt segment.entry) →
        events.any fails = false

variable {format zlib fuel pArchive zipDir targetDir args}
variable {events : List (Event ExtractOp ExtractReply)} {value : Except Stuck Bool}

theorem cuts_outside (houtside : ∀ event ∈ events, Outside event.1) :
    Cuts pArchive zipDir targetDir events [] [] events := by
  refine ⟨?_, ?_, splits_nil⟩
  · rw [List.flatMap_nil, List.append_nil, List.append_nil]
  · rwa [List.append_nil]

/-- A run that does not come to the entries. -/
theorem accountsFor_false (houtside : ∀ event ∈ events, Outside event.1) :
    AccountsFor format zlib fuel pArchive zipDir targetDir args events (.ok false) := by
  refine ⟨events, [], [], cuts_outside houtside, fun _ => ⟨rfl, rfl⟩, ?_, nofun⟩
  intro result hresult
  obtain rfl := Except.ok.inj hresult
  exact iff_of_true (reports_nil nofun) nofun

theorem AccountsFor.surround
    {before after : List (Event ExtractOp ExtractReply)}
    (haccounts : AccountsFor format zlib fuel pArchive zipDir targetDir args events value)
    (houtside : ∀ event ∈ before ++ after, Outside event.1)
    (hnone : (before ++ after).any fails = false) :
    AccountsFor format zlib fuel pArchive zipDir targetDir args (before ++ events ++ after)
      value := by
  obtain ⟨head, segments, tail, hcuts, hhead, hreports, hstuck⟩ := haccounts
  obtain ⟨hbefore, hafter⟩ := Bool.or_eq_false_iff.mp (List.any_append ▸ hnone)
  refine ⟨before ++ head, segments, tail ++ after, ⟨?_, ?_, hcuts.splits⟩, ?_, hreports, ?_⟩
  · rw [hcuts.events_eq]
    simp only [List.append_assoc]
  · intro event hevent
    have hinside := hcuts.outside event
    have hothers := houtside event
    simp only [List.mem_append] at hevent hinside hothers
    rcases hevent with (hevent | hevent) | (hevent | hevent)
    · exact hothers (.inl hevent)
    · exact hinside (.inl hevent)
    · exact hinside (.inr hevent)
    · exact hothers (.inr hevent)
  · rw [List.any_append, hbefore]
    exact hhead
  · intro stuck hvalue hsound
    rw [List.any_append, List.any_append, hbefore, hafter, hstuck stuck hvalue hsound]
    rfl

theorem mzExtractRecursive_accounts
    (htrace : (mzExtractRecursive zlib fuel pArchive zipDir targetDir args).run.Traces events
      value) :
    AccountsFor format zlib fuel pArchive zipDir targetDir args events value := by
  by_cases hrelative : zipDir.text.head? = some slash
  · rw [mzExtractRecursive, if_pos hrelative] at htrace
    obtain ⟨rfl, rfl⟩ := Prog.traces_pure.mp htrace
    exact accountsFor_false (by simp)
  by_cases habsolute : targetDir.text.head? = some slash
  · rw [mzExtractRecursive_run hrelative habsolute] at htrace
    obtain ⟨reply, rest, rfl, hrest⟩ := Prog.traces_request.mp htrace
    have houtside : ∀ event ∈ [(⟨.malloc (zipDir.text.length + 2), reply⟩ :
        Event ExtractOp ExtractReply)], Outside event.1 := by
      intro event hevent
      rw [List.mem_singleton.mp hevent]
      trivial
    cases reply with
    | none =>
        obtain ⟨rfl, rfl⟩ := Prog.traces_pure.mp hrest
        exact accountsFor_false houtside
    | some memory =>
        change (extractSelected zlib fuel pArchive args (pArchive.selected zipDir) true
          (freshHelper targetDir.text (canonicalDir zipDir.text))).run.Traces rest value at hrest
        have hselects := pArchive.selects zipDir
        have hrange : ∀ pEntry ∈ pArchive.selected zipDir, pEntry.InRange :=
          fun pEntry hentry => pArchive.inRange pEntry (List.mem_of_mem_filter hentry)
        by_cases hfits : ∀ first ∈ (pArchive.selected zipDir).head?,
            first.needLen (canonicalDir zipDir.text) targetDir.text < 2 ^ 31
        · have hready : ReadyFor pArchive targetDir.text (canonicalDir zipDir.text)
              (freshHelper targetDir.text (canonicalDir zipDir.text)) (pArchive.selected zipDir) := by
            intro pEntry hentry events value hpath
            obtain ⟨hnamed, hunder⟩ := hselects pEntry (List.mem_of_mem_head? hentry)
            exact freshHelper_assembles hnamed hunder targetDir.no_zero (hfits pEntry hentry) hpath
          obtain ⟨segments, rfl, hvisits⟩ := extractSelected_visits format targetDir.no_zero hselects
            hrange hready hrest
          refine ⟨[⟨.malloc (zipDir.text.length + 2), some memory⟩], segments, [], ⟨?_, ?_, ?_⟩,
            (by intro hfails; cases hfails), ?_, ?_⟩
          · rw [List.append_nil]
            rfl
          · rwa [List.append_nil]
          · exact hvisits.splits
          · exact fun result hvalue => hvisits.reports_iff hselects hrange hvalue
          · intro stuck hvalue hsound
            rw [List.any_cons, hvisits.noneFails hselects hrange hvalue hsound]
            rfl
        · -- The length of the first path is cut, and the path does not fit in its buffer.
          push Not at hfits
          obtain ⟨first, hfirst, hlong⟩ := hfits
          obtain ⟨others, hselected⟩ : ∃ others, pArchive.selected zipDir = first :: others :=
            List.head?_eq_some_iff.mp hfirst
          obtain ⟨hnamed, hunder⟩ := hselects first (List.mem_of_mem_head? hfirst)
          have hpath := freshHelper_overflows hnamed hunder targetDir.length_lt hlong
          rw [hselected, extractSelected, visit, ExceptT.run_bind, hpath] at hrest
          obtain ⟨rfl, rfl⟩ := Prog.traces_pure.mp hrest
          exact ⟨_, [], [], cuts_outside houtside, (by intro hfails; cases hfails),
            (by intro result hresult; cases hresult), fun _ _ _ => rfl⟩
  · rw [mzExtractRecursive, if_neg hrelative, if_pos habsolute] at htrace
    obtain ⟨rfl, rfl⟩ := Prog.traces_pure.mp htrace
    exact accountsFor_false (by simp)

/-- The arguments of `package_extract_dir`. -/
def packageArgs : ExtractArgs :=
  ⟨mzExtractFilesOnly, some ⟨1217592000, 1217592000⟩, false⟩

theorem packageExtractDirFn_accounts
    {zipPath destPath : MemoryText} {value : Except Stuck Bytes}
    (htrace : (packageExtractDirFn zlib fuel pArchive zipPath destPath).run.Traces events value) :
    AccountsFor format zlib fuel pArchive zipPath destPath packageArgs events
      (value.map fun text => decide (text = ascii "t")) := by
  rcases Prog.traces_except_bind.mp htrace with
    ⟨stuck, hfirst, rfl⟩ | ⟨first, success, rest, rfl, hfirst, hrest⟩
  · exact mzExtractRecursive_accounts hfirst
  · obtain ⟨rfl, rfl⟩ := Prog.traces_pure.mp hrest
    rw [List.append_nil]
    have haccounts := @mzExtractRecursive_accounts format _ _ _ _ _ _ _ _ hfirst
    cases success with
    | true => exact haccounts
    | false => exact haccounts

theorem noDir_no_zero : 0 ∉ ([] : Bytes) := by decide

theorem noDir_length_lt : ([] : Bytes).length + 1 + 4096 ≤ 2 ^ 32 := by decide

/-- No directory: all entries are selected. -/
def noDir : MemoryText where
  text := []
  no_zero := noDir_no_zero
  length_lt := noDir_length_lt

theorem handleOrUpdate_accounts
    {value : Except Stuck Int}
    (htrace : (handleOrUpdate zlib fuel pArchive).run.Traces events value) :
    AccountsFor format zlib fuel pArchive noDir orUpdateExtractDirName ⟨0, none, false⟩ events
      (value.map fun result => decide (result = installSuccess)) := by
  obtain ⟨cleared, first, rfl, hfirst⟩ := Prog.traces_request.mp htrace
  obtain ⟨made, second, rfl, hsecond⟩ := Prog.traces_request.mp hfirst
  change (if made ≠ (0 : Int) then _ else _ : ExtractProg Int).run.Traces second value at hsecond
  have hbefore : ∀ event ∈ [(⟨.runShellScript (ascii "rm -rf " ++ orUpdateExtractDirName.text),
      cleared⟩ : Event ExtractOp ExtractReply),
        ⟨.mkdirRecursive orUpdateExtractDirName.text, made⟩], Outside event.1 := by
    intro event hevent
    rcases List.mem_cons.mp hevent with rfl | hevent
    · trivial
    · rw [List.mem_singleton.mp hevent]
      trivial
  by_cases hmade : made = (0 : Int)
  · subst hmade
    rw [if_neg (by decide)] at hsecond
    rcases Prog.traces_except_bind.mp hsecond with
      ⟨stuck, hextract, rfl⟩ | ⟨extracted, ok, rest, rfl, hextract, hrest⟩
    · have haccounts := (@mzExtractRecursive_accounts format _ _ _ _ _ _ _ _ hextract).surround
        (by rwa [List.append_nil]) rfl
      rw [List.append_nil] at haccounts
      exact haccounts
    · have hscripts : (∀ event ∈ rest, ∃ command reply,
            event = (⟨.runShellScript command, reply⟩ : Event ExtractOp ExtractReply)) ∧
          value.map (fun result => decide (result = installSuccess)) = .ok ok := by
        cases ok with
        | false =>
            obtain ⟨reply, others, rfl, hothers⟩ := Prog.traces_request.mp hrest
            obtain ⟨rfl, rfl⟩ := Prog.traces_pure.mp hothers
            refine ⟨fun event hevent => ?_, rfl⟩
            exact ⟨_, _, List.mem_singleton.mp hevent⟩
        | true =>
            obtain ⟨reply, others, rfl, hothers⟩ := Prog.traces_request.mp hrest
            obtain ⟨reply', last, rfl, hlast⟩ := Prog.traces_request.mp hothers
            obtain ⟨rfl, rfl⟩ := Prog.traces_pure.mp hlast
            refine ⟨fun event hevent => ?_, rfl⟩
            rcases List.mem_cons.mp hevent with rfl | hevent
            · exact ⟨_, _, rfl⟩
            · exact ⟨_, _, List.mem_singleton.mp hevent⟩
      obtain ⟨hrest, hvalue⟩ := hscripts
      rw [hvalue]
      refine @AccountsFor.surround format zlib fuel pArchive noDir orUpdateExtractDirName
        ⟨0, none, false⟩ extracted (.ok ok) [_, _] rest (mzExtractRecursive_accounts hextract) ?_ ?_
      · intro event hevent
        rcases List.mem_append.mp hevent with hevent | hevent
        · exact hbefore event hevent
        · obtain ⟨command, reply, rfl⟩ := hrest event hevent
          trivial
      · have hnone : rest.any fails = false := by
          rw [List.any_eq_false]
          intro event hevent
          obtain ⟨command, reply, rfl⟩ := hrest event hevent
          exact Bool.false_ne_true
        rw [List.any_append, hnone]
        rfl
  · rw [if_pos hmade] at hsecond
    obtain ⟨rfl, rfl⟩ := Prog.traces_pure.mp hsecond
    exact accountsFor_false hbefore

end Accounts

/-- The extraction and its callers report every failure just when nothing goes wrong after a
file or a link was made. -/
theorem extraction_reports_iff
    (format : Format) (zlib : Zlib) (fuel : Nat) (pArchive : OpenArchive) :
    (∀ zipDir targetDir args events value,
      (mzExtractRecursive zlib fuel pArchive zipDir targetDir args).run.Traces events value →
        AccountsFor format zlib fuel pArchive zipDir targetDir args events value) ∧
    (∀ zipPath destPath events value,
      (packageExtractDirFn zlib fuel pArchive zipPath destPath).run.Traces events value →
        AccountsFor format zlib fuel pArchive zipPath destPath packageArgs events
          (value.map fun text => decide (text = ascii "t"))) ∧
    ∀ events value, (handleOrUpdate zlib fuel pArchive).run.Traces events value →
      AccountsFor format zlib fuel pArchive noDir orUpdateExtractDirName ⟨0, none, false⟩ events
        (value.map fun result => decide (result = installSuccess)) :=
  ⟨fun _ _ _ _ _ => mzExtractRecursive_accounts, fun _ _ _ _ => packageExtractDirFn_accounts,
    fun _ _ => handleOrUpdate_accounts⟩

/-- A system where everything succeeds, but for the writes perhaps. -/
def systemReply (written : Bytes → WriteReply) : (op : ExtractOp) → ExtractReply op
  | .malloc size => some (.replicate size 0)
  | .realloc size => some (.replicate size 0)
  | .dirCreateHierarchy .. => (0 : Int)
  | .creat .. => (3 : Int)
  | .write _ buf => written buf
  | .close _ => (0 : Int)
  | .symlink .. => (0 : Int)
  | .utime .. => (0 : Int)
  | .callback _ => ()
  | .mkdirRecursive _ => (0 : Int)
  | .runShellScript _ => ()

def openMapped (map : MemMapping) : Option OpenArchive :=
  match hparse : parseZipArchive map fun _ => true with
  | .error _ => none
  | .ok archive => some ⟨map, archive, ⟨_, hparse⟩, fun _ _ => false, 0⟩

def rootDir : MemoryText where
  text := [slash]
  no_zero := by decide
  length_lt := by decide

theorem openMapped_map {map : MemMapping} {pArchive : OpenArchive}
    (hopen : pArchive ∈ openMapped map) : pArchive.map = map := by
  rw [openMapped] at hopen
  split at hopen
  · cases hopen
  · rw [← Option.some.inj hopen]

/-- `package_extract_dir` of an archive with one file. -/
def packageRun (written : Bytes → WriteReply) (pArchive : OpenArchive) :
    List (Event ExtractOp ExtractReply) × Except Stuck Bytes :=
  (packageExtractDirFn (Zlib.stepwise oneBlock) 1 pArchive noDir rootDir).run.answers
    (systemReply written)

theorem exists_packageRun
    {map : MemMapping} {written : Bytes → WriteReply}
    {good : List (Event ExtractOp ExtractReply) → Bool}
    (hgood : (openMapped map).any (fun pArchive =>
      decide ((packageRun written pArchive).2.toOption = some (ascii "t")) &&
        good (packageRun written pArchive).1) = true) :
    ∃ pArchive events, pArchive.map = map ∧ good events = true ∧
      (packageExtractDirFn (Zlib.stepwise oneBlock) 1 pArchive noDir rootDir).run.Traces events
        (.ok (ascii "t")) := by
  obtain ⟨pArchive, hopen, hruns⟩ := (Option.any_eq_true ..).mp hgood
  obtain ⟨hvalue, hevents⟩ := Bool.and_eq_true_iff.mp hruns
  refine ⟨pArchive, _, openMapped_map hopen, hevents, ?_⟩
  have htrace := Prog.traces_answers (systemReply written)
    (packageExtractDirFn (Zlib.stepwise oneBlock) 1 pArchive noDir rootDir).run
  have hok : (packageRun written pArchive).2 = .ok (ascii "t") := by
    cases hresult : (packageRun written pArchive).2 with
    | error stuck =>
        rw [hresult] at hvalue
        cases of_decide_eq_true hvalue
    | ok text =>
        rw [hresult] at hvalue
        exact congrArg _ (Option.some.inj (of_decide_eq_true hvalue))
  rwa [← hok]

/-- The one file is written. -/
theorem extraction_reports_oneFile :
    ∃ pArchive events, pArchive.map = oneEntry 0 3 [120, 121, 122] (by decide) ∧
      events.flatMap taken = [120, 121, 122] ∧
      (packageExtractDirFn (Zlib.stepwise oneBlock) 1 pArchive noDir rootDir).run.Traces events
        (.ok (ascii "t")) ∧
      AccountsFor oneBlock (Zlib.stepwise oneBlock) 1 pArchive noDir rootDir packageArgs events
        (.ok true) := by
  obtain ⟨pArchive, events, hmap, htaken, htrace⟩ := @exists_packageRun
    (oneEntry 0 3 [120, 121, 122] (by decide)) (fun data => ⟨data.length, false⟩)
    (fun events => decide (events.flatMap taken = [120, 121, 122])) (by with_unfolding_all decide)
  exact ⟨pArchive, events, hmap, of_decide_eq_true htaken, htrace,
    (extraction_reports_iff oneBlock _ _ _).2.1 _ _ _ _ htrace⟩

/-- A write that the system refuses. -/
def refusesWrite : Event ExtractOp ExtractReply → Bool
  | ⟨.write .., reply⟩ => decide (reply.n < 0) && !reply.interrupted
  | _ => false

theorem refusesWrite_fails {event : Event ExtractOp ExtractReply}
    (hrefuses : refusesWrite event = true) : fails event = true ∧ ¬Outside event.1 := by
  obtain ⟨op, reply⟩ := event
  cases op with
  | write fd buf =>
      obtain ⟨hnegative, hinterrupted⟩ := Bool.and_eq_true_iff.mp hrefuses
      refine ⟨?_, id⟩
      rw [fails, decide_eq_true (of_decide_eq_true hnegative).le, hinterrupted]
      rfl
  | _ => cases hrefuses

/-- The write of the one file is refused, and `package_extract_dir` gives a true value. -/
theorem extraction_forgets_failures :
    (∃ pArchive events, pArchive.map = oneEntry 0 3 [120, 121, 122] (by decide) ∧
      events.any refusesWrite = true ∧
      (packageExtractDirFn (Zlib.stepwise oneBlock) 1 pArchive noDir rootDir).run.Traces events
        (.ok (ascii "t"))) ∧
    ¬∀ (format : Format) (zlib : Zlib) (fuel : Nat) (pArchive : OpenArchive)
      (zipDir targetDir : MemoryText) (args : ExtractArgs)
      (events : List (Event ExtractOp ExtractReply)) (result : Bool),
      (mzExtractRecursive zlib fuel pArchive zipDir targetDir args).run.Traces events (.ok result) →
        ∃ head segments tail, Cuts pArchive zipDir targetDir head segments tail events ∧
          Reports format zlib fuel pArchive targetDir.text (canonicalDir zipDir.text) args
            (pArchive.selected zipDir) segments (result = true) := by
  obtain ⟨pArchive, events, hmap, hrefuses, htrace⟩ := @exists_packageRun
    (oneEntry 0 3 [120, 121, 122] (by decide)) (fun _ => ⟨-1, false⟩)
    (fun events => events.any refusesWrite) (by with_unfolding_all decide)
  refine ⟨⟨pArchive, events, hmap, hrefuses, htrace⟩, fun hreports => ?_⟩
  rcases Prog.traces_except_bind.mp htrace with
    ⟨stuck, -, hvalue⟩ | ⟨first, success, rest, rfl, hfirst, hrest⟩
  · cases hvalue
  obtain ⟨rfl, hvalue⟩ := Prog.traces_pure.mp hrest
  obtain rfl : success = true := by
    cases success with
    | true => rfl
    | false => cases Except.ok.inj hvalue
  rw [List.append_nil] at hrefuses
  obtain ⟨head, segments, tail, hcuts, hall, -⟩ := hreports oneBlock _ _ _ _ _ _ _ _ hfirst
  obtain ⟨event, hevent, hrefused⟩ := List.any_eq_true.mp hrefuses
  obtain ⟨hfails, hinside⟩ := refusesWrite_fails hrefused
  have houtside := hcuts.outside event
  rw [hcuts.events_eq, List.mem_append, List.mem_append] at hevent
  rcases hevent with (hevent | hevent) | hevent
  · exact hinside (houtside (List.mem_append_left _ hevent))
  · obtain ⟨segment, hsegment, hevent⟩ := List.mem_flatMap.mp hevent
    have hnone := ((hall rfl).2 segment hsegment).noneFails
    exact List.any_eq_false.mp hnone event hevent hfails
  · exact hinside (houtside (List.mem_append_right _ hevent))

end OpenRecovery.Minzip
