import OpenRecovery.FileContents
import OpenRecovery.Traces
import Mathlib

/-!
# What `MakeFreeSpaceOnCache` deletes

The candidates are the regular files found directly in two directories, without
the copy of the source and without the files that are open.  They are deleted
one after the other until the free space that was last reported is enough.
-/

namespace OpenRecovery

open Effects

abbrev SysEvent := Event SysOp SysOp.Reply

def SysEvent.statfs (path : CString) (reply : Option (Nat × Nat)) : SysEvent := ⟨.statfs path, reply⟩
def SysEvent.readdir (path : CString) (reply : Option (List CString)) : SysEvent :=
  ⟨.readdir path, reply⟩
def SysEvent.stat (path : CString) (reply : Option FileStat) : SysEvent := ⟨.stat path, reply⟩
def SysEvent.openFiles (reply : Option (List CString)) : SysEvent := ⟨.openFiles, reply⟩
def SysEvent.unlink (path : CString) (reply : Bool) : SysEvent := ⟨.unlink path, reply⟩

/-- The free space that `FreeSpaceForFile` reports after a call of `statfs`. -/
def freeBytes : Option (Nat × Nat) → Nat
  | none => 2 ^ 32 - 1
  | some (bsize, bfree) => bsize * bfree % 2 ^ 32

/-- The reports of free space in a trace. -/
def reports (events : List SysEvent) : List Nat :=
  events.filterMap fun
    | ⟨.statfs _, reply⟩ => some (freeBytes reply)
    | _ => none

/-- The paths given to `unlink` in a trace. -/
def unlinked (events : List SysEvent) : List CString :=
  events.filterMap fun
    | ⟨.unlink path, _⟩ => some path
    | _ => none

section Reports

theorem reports_append (first second : List SysEvent) :
    reports (first ++ second) = reports first ++ reports second :=
  List.filterMap_append

theorem unlinked_append (first second : List SysEvent) :
    unlinked (first ++ second) = unlinked first ++ unlinked second :=
  List.filterMap_append

end Reports

/-- A trace of `stat` calls only. -/
def OnlyLooks (events : List SysEvent) : Prop :=
  reports events = [] ∧ unlinked events = []

theorem freeSpaceForFile_traces
    {path : CString} {events : List SysEvent} {free : Nat}
    (htrace : (freeSpaceForFile path).Traces events free) :
    ∃ reply, events = [.statfs path reply] ∧ free = freeBytes reply := by
  obtain ⟨reply, rest, rfl, hnext⟩ := Prog.traces_request.mp htrace
  cases reply with
  | none =>
      obtain ⟨rfl, rfl⟩ := Prog.traces_pure.mp hnext
      exact ⟨none, rfl, rfl⟩
  | some both =>
      obtain ⟨rfl, rfl⟩ := Prog.traces_pure.mp hnext
      exact ⟨some both, rfl, rfl⟩

/-- A path that `regularFiles` may give for a directory. -/
def FoundIn (events : List SysEvent) (dir : CString) (names : List CString) (path : CString) :
    Prop :=
  path ≠ cacheTempSource ∧ (∃ name ∈ names, path = dir ++ '/' :: name) ∧
    ∃ st, .stat path (some st) ∈ events ∧ st.isReg = true

theorem regularFiles_traces
    {dir : CString} {names : List CString} {events : List SysEvent} {files : List CString}
    (htrace : (regularFiles dir names).Traces events files) :
    OnlyLooks events ∧ files.Sublist (names.map fun name => dir ++ '/' :: name) ∧
      ∀ path ∈ files, FoundIn events dir names path := by
  induction names generalizing events files with
  | nil =>
      obtain ⟨rfl, rfl⟩ := Prog.traces_pure.mp htrace
      exact ⟨⟨rfl, rfl⟩, List.Sublist.refl _, by simp⟩
  | cons name names ih =>
      have hweaken : ∀ {events path}, FoundIn events dir names path →
          FoundIn events dir (name :: names) path := by
        rintro events path ⟨hsaved, ⟨other, hother, hpath⟩, hregular⟩
        exact ⟨hsaved, ⟨other, List.mem_cons_of_mem _ hother, hpath⟩, hregular⟩
      rw [regularFiles] at htrace
      split_ifs at htrace with hsaved
      · obtain ⟨hlooks, hsub, hfound⟩ := ih htrace
        exact ⟨hlooks, hsub.cons _, fun path hpath => hweaken (hfound path hpath)⟩
      · rw [Prog.ask_bind_eq, Prog.traces_request] at htrace
        obtain ⟨reply, rest, rfl, hnext⟩ := htrace
        have hlater : ∀ {path}, FoundIn rest dir names path →
            FoundIn (.stat (dir ++ '/' :: name) reply :: rest) dir (name :: names) path := by
          intro path hfound
          obtain ⟨hother, hname, st, hst, hreg⟩ := hweaken hfound
          exact ⟨hother, hname, st, List.mem_cons_of_mem _ hst, hreg⟩
        cases reply with
        | none =>
            obtain ⟨hlooks, hsub, hfound⟩ := ih hnext
            exact ⟨hlooks, hsub.cons _, fun path hpath => hlater (hfound path hpath)⟩
        | some st =>
            obtain ⟨first, middle, second, rfl, hfirst, hsecond⟩ := Prog.traces_bind.mp hnext
            obtain ⟨rfl, rfl⟩ := Prog.traces_pure.mp hsecond
            rw [List.append_nil] at hlater ⊢
            obtain ⟨hlooks, hsub, hfound⟩ := ih hfirst
            refine ⟨hlooks, ?_, ?_⟩
            · split_ifs
              · exact hsub.cons_cons _
              · exact hsub.cons _
            · intro path hpath
              by_cases hreg : st.isReg = true
              · rw [if_pos hreg] at hpath
                rcases List.mem_cons.mp hpath with rfl | hmem
                · exact ⟨hsaved, ⟨name, List.mem_cons_self, rfl⟩, st, List.mem_cons_self, hreg⟩
                · exact hlater (hfound path hmem)
              · rw [if_neg hreg] at hpath
                exact hlater (hfound path hpath)

/-- A path that `filesInDirs` may give. -/
def Found (events : List SysEvent) (dirs : List CString) (path : CString) : Prop :=
  ∃ dir ∈ dirs, ∃ names, .readdir dir (some names) ∈ events ∧ FoundIn events dir names path

theorem FoundIn.mono
    {events events' : List SysEvent} {dir path : CString} {names : List CString}
    (hfound : FoundIn events dir names path) (hmore : events ⊆ events') :
    FoundIn events' dir names path := by
  obtain ⟨hsaved, hname, st, hst, hreg⟩ := hfound
  exact ⟨hsaved, hname, st, hmore hst, hreg⟩

theorem Found.mono
    {events events' : List SysEvent} {dirs : List CString} {path : CString}
    (hfound : Found events dirs path) (hmore : events ⊆ events') : Found events' dirs path := by
  obtain ⟨dir, hdir, names, hnames, hfound⟩ := hfound
  exact ⟨dir, hdir, names, hmore hnames, hfound.mono hmore⟩

/-- `readdir` gives each entry once, by a name without slashes. -/
def ProperListings (events : List SysEvent) : Prop :=
  ∀ dir names, .readdir dir (some names) ∈ events → names.Nodup ∧ ∀ name ∈ names, '/' ∉ name

theorem join_inj
    {dir dir' name name' : CString} (hname : '/' ∉ name) (hname' : '/' ∉ name')
    (hsame : dir ++ '/' :: name = dir' ++ '/' :: name') : dir = dir' ∧ name = name' := by
  rcases List.append_eq_append_iff.mp hsame with ⟨middle, hdir, hrest⟩ | ⟨middle, hdir, hrest⟩
  · cases middle with
    | nil => exact ⟨by simpa using hdir.symm, (List.cons.inj hrest).2⟩
    | cons head middle =>
        have htail : name = middle ++ '/' :: name' := (List.cons.inj hrest).2
        exact absurd (by rw [htail]; simp) hname
  · cases middle with
    | nil => exact ⟨by simpa using hdir, (List.cons.inj hrest).2.symm⟩
    | cons head middle =>
        have htail : name' = middle ++ '/' :: name := (List.cons.inj hrest).2
        exact absurd (by rw [htail]; simp) hname'

theorem filesInDirs_traces
    {dirs : List CString} {events : List SysEvent} {files : List CString}
    (htrace : (filesInDirs dirs).Traces events files) :
    OnlyLooks events ∧ (∀ path ∈ files, Found events dirs path) ∧
      (dirs.Nodup → ProperListings events → files.Nodup) := by
  induction dirs generalizing events files with
  | nil =>
      obtain ⟨rfl, rfl⟩ := Prog.traces_pure.mp htrace
      exact ⟨⟨rfl, rfl⟩, by simp, fun _ _ => List.nodup_nil⟩
  | cons dir dirs ih =>
      have hweaken : ∀ {events path}, Found events dirs path → Found events (dir :: dirs) path := by
        rintro events path ⟨other, hother, hfound⟩
        exact ⟨other, List.mem_cons_of_mem _ hother, hfound⟩
      rw [filesInDirs, Prog.ask_bind_eq, Prog.traces_request] at htrace
      obtain ⟨reply, rest, rfl, hnext⟩ := htrace
      cases reply with
      | none =>
          obtain ⟨hlooks, hfound, hnodup⟩ := ih hnext
          refine ⟨hlooks, fun path hpath => ?_, fun hdirs hproper => ?_⟩
          · exact hweaken ((hfound path hpath).mono (List.subset_cons_self _ _))
          · exact hnodup (List.nodup_cons.mp hdirs).2 fun other names hmem =>
              hproper other names (List.mem_cons_of_mem _ hmem)
      | some names =>
          obtain ⟨first, here, second, rfl, hfirst, hsecond⟩ := Prog.traces_bind.mp hnext
          obtain ⟨third, there, fourth, rfl, hthird, hfourth⟩ := Prog.traces_bind.mp hsecond
          obtain ⟨rfl, rfl⟩ := Prog.traces_pure.mp hfourth
          obtain ⟨hlooks, hsub, hfound⟩ := regularFiles_traces hfirst
          obtain ⟨hlooks', hfound', hnodup'⟩ := ih hthird
          rw [List.append_nil]
          refine ⟨⟨?_, ?_⟩, ?_, ?_⟩
          · exact (reports_append first third).trans (by rw [hlooks.1, hlooks'.1]; rfl)
          · exact (unlinked_append first third).trans (by rw [hlooks.2, hlooks'.2]; rfl)
          · intro path hpath
            rcases List.mem_append.mp hpath with hhere | hthere
            · refine ⟨dir, List.mem_cons_self, names, List.mem_cons_self, ?_⟩
              exact (hfound path hhere).mono fun event hevent =>
                List.mem_cons_of_mem _ (List.mem_append_left _ hevent)
            · exact hweaken ((hfound' path hthere).mono fun event hevent =>
                List.mem_cons_of_mem _ (List.mem_append_right _ hevent))
          · intro hdirs hproper
            obtain ⟨hdir, hrest⟩ := List.nodup_cons.mp hdirs
            obtain ⟨hnames, hslash⟩ := hproper dir names List.mem_cons_self
            have hproper' : ProperListings third := fun other listed hmem =>
              hproper other listed (List.mem_cons_of_mem _ (List.mem_append_right _ hmem))
            refine List.Nodup.append ?_ (hnodup' hrest hproper') ?_
            · refine hsub.nodup (hnames.map fun name name' hsame => ?_)
              exact (List.cons.inj (List.append_cancel_left hsame)).2
            · intro path hhere hthere
              obtain ⟨-, ⟨name, hname, hpath⟩, -⟩ := hfound path hhere
              obtain ⟨other, hother, listed, hlisted, -, ⟨name', hname', hpath'⟩, -⟩ :=
                hfound' path hthere
              have hsame := join_inj (hslash name hname) ((hproper' other listed hlisted).2 name' hname')
                (hpath.symm.trans hpath')
              exact hdir (hsame.1 ▸ hother)

theorem eliminateOpenFiles_traces
    {files : List CString} {events : List SysEvent} {left : Option (List (Option CString))}
    (htrace : (eliminateOpenFiles files).Traces events left) :
    ∃ reply, events = [.openFiles reply] ∧ left = reply.map fun links => files.map fun file =>
      if "/cache/".toList.isPrefixOf file ∧ file ∈ links then none else some file := by
  rw [eliminateOpenFiles, Prog.ask_bind_eq, Prog.traces_request] at htrace
  obtain ⟨reply, rest, rfl, hnext⟩ := htrace
  cases reply with
  | none =>
      obtain ⟨rfl, rfl⟩ := Prog.traces_pure.mp hnext
      exact ⟨none, rfl, rfl⟩
  | some links =>
      obtain ⟨rfl, rfl⟩ := Prog.traces_pure.mp hnext
      exact ⟨some links, rfl, rfl⟩

/-- The files are deleted in their order, each after a report of too little free
space, and the last report is what the loop ends with. -/
theorem deleteFiles_traces
    {bytesNeeded freeNow free : Nat} {names : List (Option CString)} {events : List SysEvent}
    (htrace : (deleteFiles bytesNeeded names freeNow).Traces events free) :
    (freeNow :: reports events).getLast? = some free ∧
      (unlinked events).Sublist (names.filterMap id) ∧
      ∀ before path gone after, events = before ++ .unlink path gone :: after →
        ∃ reported, (freeNow :: reports before).getLast? = some reported ∧
          reported < bytesNeeded := by
  induction names generalizing freeNow events with
  | nil =>
      obtain ⟨rfl, rfl⟩ := Prog.traces_pure.mp htrace
      exact ⟨rfl, List.Sublist.refl _, by simp⟩
  | cons name names ih =>
      unfold deleteFiles at htrace
      split_ifs at htrace with henough
      · obtain ⟨rfl, rfl⟩ := Prog.traces_pure.mp htrace
        exact ⟨rfl, List.nil_sublist _, by simp⟩
      · cases name with
        | none => exact ih htrace
        | some path =>
            dsimp only at htrace
            rw [Prog.ask_bind_eq, Prog.traces_request] at htrace
            obtain ⟨gone, rest, rfl, hnext⟩ := htrace
            obtain ⟨first, freeNow', second, rfl, hfirst, hsecond⟩ := Prog.traces_bind.mp hnext
            obtain ⟨reply, rfl, rfl⟩ := freeSpaceForFile_traces hfirst
            obtain ⟨hlast, hsub, hneeded⟩ := ih hsecond
            refine ⟨?_, hsub.cons_cons path, ?_⟩
            · exact (List.getLast?_cons_cons ..).trans hlast
            · intro before path' gone' after hsplit
              cases before with
              | nil => exact ⟨freeNow, rfl, by omega⟩
              | cons event before =>
                  obtain ⟨rfl, htail⟩ := List.cons.inj hsplit
                  cases before with
                  | nil =>
                      have hop := congrArg Sigma.fst (List.cons.inj htail).1
                      cases hop
                  | cons event before =>
                      obtain ⟨rfl, hrest⟩ := List.cons.inj htail
                      obtain ⟨reported, hreported, hless⟩ := hneeded before path' gone' after hrest
                      exact ⟨reported, (List.getLast?_cons_cons ..).trans hreported, hless⟩

/-- The files that leave no gap. -/
theorem filterMap_gaps
    (isOpen : CString → Prop) [DecidablePred isOpen] (files : List CString) :
    ((files.map fun file => if isOpen file then none else some file).filterMap id).Sublist files ∧
      ∀ path ∈ (files.map fun file => if isOpen file then none else some file).filterMap id,
        ¬ isOpen path := by
  induction files with
  | nil => exact ⟨List.Sublist.refl _, by simp⟩
  | cons file files ih =>
      obtain ⟨hsub, hclosed⟩ := ih
      by_cases hopen : isOpen file
      · simp only [List.map_cons, if_pos hopen, List.filterMap_cons, id]
        exact ⟨hsub.cons _, hclosed⟩
      · simp only [List.map_cons, if_neg hopen, List.filterMap_cons, id]
        exact ⟨hsub.cons_cons _, List.forall_mem_cons.mpr ⟨hopen, hclosed⟩⟩

/-- The search deletes nothing, and what it gives may be deleted. -/
theorem findExpendableFiles_traces
    {events : List SysEvent} {left : Option (List (Option CString))}
    (htrace : findExpendableFiles.Traces events left) :
    OnlyLooks events ∧ ∀ names, left = some names →
      (∃ links, .openFiles (some links) ∈ events ∧ ∀ path ∈ names.filterMap id, path ∉ links) ∧
      (∀ path ∈ names.filterMap id, Found events cacheDirs path) ∧
      (ProperListings events → (names.filterMap id).Nodup) := by
  obtain ⟨looks, files, second, rfl, hfiles, hsecond⟩ := Prog.traces_bind.mp htrace
  obtain ⟨reply, rfl, rfl⟩ := eliminateOpenFiles_traces hsecond
  obtain ⟨hlooks, hfound, hnodup⟩ := filesInDirs_traces hfiles
  refine ⟨⟨?_, ?_⟩, ?_⟩
  · rw [reports_append, hlooks.1]
    rfl
  · rw [unlinked_append, hlooks.2]
    rfl
  · intro names hnames
    cases reply with
    | none => cases hnames
    | some links =>
        obtain ⟨hsub, hclosed⟩ := filterMap_gaps
          (fun file => "/cache/".toList.isPrefixOf file ∧ file ∈ links) files
        rw [show names = files.map fun file =>
          if "/cache/".toList.isPrefixOf file ∧ file ∈ links then none else some file from
            (Option.some.inj hnames).symm]
        refine ⟨⟨links, List.mem_append_right _ List.mem_cons_self, ?_⟩, ?_, ?_⟩
        · intro path hpath hlink
          obtain ⟨dir, hdir, listed, -, -, ⟨name, -, rfl⟩, -⟩ := hfound path (hsub.subset hpath)
          refine hclosed _ hpath ⟨?_, hlink⟩
          rcases List.mem_pair.mp hdir with rfl | rfl
          · simp
          · simp
        · intro path hpath
          exact (hfound path (hsub.subset hpath)).mono (List.subset_append_left _ _)
        · intro hproper
          refine hsub.nodup (hnodup (by decide) fun dir listed hmem => ?_)
          exact hproper dir listed (List.mem_append_left _ hmem)

/-- A full cache with one file that is not open and the copy of the source. -/
def fullCache : List SysEvent :=
  [.statfs "/cache".toList (some (4096, 0)),
    .readdir "/cache".toList (some ["saved.file".toList, "log".toList]),
    .stat "/cache/log".toList (some ⟨5000, 0, 0, 0, true⟩),
    .readdir "/cache/recovery/otatest".toList none,
    .openFiles (some ["/cache/other".toList]),
    .unlink "/cache/log".toList true,
    .statfs "/cache".toList (some (4096, 2))]

end OpenRecovery
