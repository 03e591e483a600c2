import OpenRecovery.YaffsAttributeChanges
import Mathlib

/-!
# Owners and permissions of a restored tree

With every entry unyaffs changes the owner and the permissions of what the path of the entry
leads to.  The object that is new there gets what the source has.  Entries behind it lead to it
again if they are hard links to it, or symbolic links that end there; symbolic links lead to files
outside of the tree as well.
-/

namespace OpenRecovery.Yaffs

/-! ## Entries one after the other -/

/-- The entries seen so far and the disk they are on. -/
structure Placed where
  seen : List Entry
  disk : Disk

section Placing

variable (links : Nat) (files : Inode → SourceFile) (base : List Bytes)

def Placed.add (placed : Placed) (entry : Entry) : Placed :=
  ⟨placed.seen ++ [entry], placeEntry files base placed.seen placed.disk entry⟩

def place (disk : Disk) (entries : List Entry) : Placed :=
  entries.foldl (Placed.add files base) ⟨[], disk⟩

/-- The number of the file the path of an entry leads to. -/
def entryNumber (disk : Disk) (entry : Entry) : Option Nat :=
  lastNumber links disk (base ++ entry.path.dropLast) (entry.path.getLast?.getD [])

/-- What the entries change of the file with a number. -/
def changesTo (number : Nat) : Placed → List Entry → List Change
  | _, [] => []
  | placed, entry :: later =>
      (if entryNumber links base (placed.add files base entry).disk entry = some number then
        entryChanges files placed.seen entry else []) ++
      changesTo number (placed.add files base entry) later

variable {files} {base} {disk : Disk}

theorem place_append (first second : List Entry) :
    place files base disk (first ++ second) =
      second.foldl (Placed.add files base) (place files base disk first) :=
  List.foldl_append

theorem place_concat (entries : List Entry) (entry : Entry) :
    place files base disk (entries ++ [entry]) =
      (place files base disk entries).add files base entry :=
  place_append entries [entry]

theorem place_seen (entries : List Entry) : (place files base disk entries).seen = entries := by
  induction entries using List.reverseRecOn with
  | nil => rfl
  | append_singleton entries entry ih =>
      rw [place_concat, Placed.add, ih]

theorem changesTo_append (number : Nat) (placed : Placed) (first second : List Entry) :
    changesTo links files base number placed (first ++ second) =
      changesTo links files base number placed first ++
        changesTo links files base number (first.foldl (Placed.add files base) placed) second := by
  induction first generalizing placed with
  | nil => rfl
  | cons entry first ih =>
      rw [List.cons_append, changesTo, changesTo, ih, List.append_assoc]
      rfl

theorem changesTo_concat (number : Nat) (entries : List Entry) (entry : Entry) :
    changesTo links files base number ⟨[], disk⟩ (entries ++ [entry]) =
      changesTo links files base number ⟨[], disk⟩ entries ++
        if entryNumber links base (place files base disk (entries ++ [entry])).disk entry =
            some number then
          entryChanges files entries entry else [] := by
  rw [changesTo_append, changesTo, changesTo, List.append_nil, place_concat]
  change _ ++ (if entryNumber links base ((place files base disk entries).add files base
    entry).disk entry = some number then
      entryChanges files (place files base disk entries).seen entry else []) = _
  rw [place_seen]

theorem Disk.link_files (disk : Disk) (old new : List Bytes) :
    (disk.link old new).files = disk.files := by
  rw [Disk.link]
  split
  case h_1 => split <;> rfl
  case h_2 => rfl

theorem Disk.link_next (disk : Disk) (old new : List Bytes) :
    (disk.link old new).next = disk.next := by
  rw [Disk.link]
  split
  case h_1 => split <;> rfl
  case h_2 => rfl

theorem placeEntry_next (seen : List Entry) (entry : Entry) :
    disk.next ≤ (placeEntry files base seen disk entry).next := by
  rw [placeEntry]
  split
  case h_1 => rw [Disk.link_next]
  case h_2 => exact Nat.le_succ _

/-- Files that are there already stay as they are. -/
theorem placeEntry_files (seen : List Entry) (entry : Entry) {number : Nat}
    (hnumber : number < disk.next) :
    (placeEntry files base seen disk entry).files number = disk.files number := by
  rw [placeEntry]
  split
  case h_1 => rw [Disk.link_files]
  case h_2 => exact Function.update_of_ne hnumber.ne _ _

theorem foldl_add_next (placed : Placed) (entries : List Entry) :
    placed.disk.next ≤ (entries.foldl (Placed.add files base) placed).disk.next := by
  induction entries generalizing placed with
  | nil => exact le_rfl
  | cons entry entries ih =>
      exact (placeEntry_next placed.seen entry).trans (ih (placed.add files base entry))

theorem foldl_add_files (placed : Placed) (entries : List Entry) {number : Nat}
    (hnumber : number < placed.disk.next) :
    (entries.foldl (Placed.add files base) placed).disk.files number =
      placed.disk.files number := by
  induction entries generalizing placed with
  | nil => rfl
  | cons entry entries ih =>
      have hgrown : number < (placed.add files base entry).disk.next :=
        hnumber.trans_le (placeEntry_next placed.seen entry)
      rw [List.foldl_cons, ih _ hgrown]
      exact placeEntry_files placed.seen entry hnumber

/-- Nothing leads to a file that is not there yet. -/
theorem changesTo_unused {number : Nat} (placed : Placed) (entries : List Entry)
    (hnumber : (entries.foldl (Placed.add files base) placed).disk.next ≤ number) :
    changesTo links files base number placed entries = [] := by
  induction entries generalizing placed with
  | nil => rfl
  | cons entry entries ih =>
      have hgrown := @foldl_add_next files base (placed.add files base entry) entries
      have hnone : entryNumber links base (placed.add files base entry).disk entry ≠
          some number := by
        intro hsome
        exact absurd (lastNumber_lt hsome) (by rw [List.foldl_cons] at hnumber; omega)
      rw [changesTo, if_neg hnone, List.nil_append]
      exact ih _ hnumber

end Placing

/-! ## Runs with attributes -/

section Restoring

variable (links : Nat) (files : Inode → SourceFile) (cwd base : List Bytes) (disk : Disk)
  (begun : Nat → Attributes)

/-- Reading the record takes the extraction and the attributes of all files on, whatever
follows. -/
def Restores (state : Extraction) (attributes : Nat → Attributes) (record : Bytes)
    (next : Extraction) (after : Nat → Attributes) : Prop :=
  ∀ (rest : Bytes) (fuel : Nat), (record ++ rest).length < fuel →
    ∃ left, rest.length < left ∧
      extractAttributes links cwd fuel (record ++ rest) state attributes =
        extractAttributes links cwd left rest next after

/-- The attributes are those of the beginning with the changes that the entries seen so far have
made.  The number of a new object is the next one, and its own entry makes all the changes it asks
for. -/
structure Attributed (seen : List Entry) (state : Extraction) (after : Nat → Attributes) :
    Prop where
  rooted : state.disk.Rooted
  disk_eq : state.disk = (place files base disk seen).disk
  attributes : ∀ number, after number =
    applyChanges (state.disk.isFileDirectory number) (begun number)
      (changesTo links files base number ⟨[], disk⟩ seen)
  objects : ∀ before entry later, seen = before ++ entry :: later →
    (∀ other ∈ before, other.inode ≠ entry.inode) →
    state.disk.names (base ++ entry.path) = some (place files base disk before).disk.next ∧
      ((files entry.inode).kind ≠ .link →
        changesTo links files base (place files base disk before).disk.next ⟨[], disk⟩
          (before ++ [entry]) = (files entry.inode).changes)

variable {links} {files} {cwd base} {disk} {begun} {state next last : Extraction}
  {attributes between after : Nat → Attributes}

theorem Restores.trans {first second : Bytes}
    (hfirst : Restores links cwd state attributes first next between)
    (hsecond : Restores links cwd next between second last after) :
    Restores links cwd state attributes (first ++ second) last after := by
  intro rest fuel hfuel
  rw [List.append_assoc] at hfuel ⊢
  obtain ⟨middle, hmiddle, hleft⟩ := hfirst (second ++ rest) fuel hfuel
  obtain ⟨left, hend, hright⟩ := hsecond rest middle hmiddle
  exact ⟨left, hend, hleft.trans hright⟩

theorem Turn.restores {record : Bytes} (hturn : Turn cwd state record next)
    (attributes : Nat → Attributes) :
    Restores links cwd state attributes record next
      ((next.requests.drop state.requests.length).foldl (performRequest links cwd next.disk)
        attributes) := by
  obtain ⟨data, body, hbody, hturn⟩ := hturn
  intro rest fuel hfuel
  rw [List.length_append] at hfuel
  cases fuel with
  | zero => omega
  | succ fuel =>
      refine ⟨fuel, by omega, ?_⟩
      rw [extractAttributes, (hturn rest).1]
      dsimp only
      rw [(hturn rest).2]
      rfl

/-- An entry gives a number one more name. -/
theorem Rebuilt.placeEntry_names {seen : List Entry} {entry : Entry}
    (hrebuilt : Rebuilt files cwd base seen state)
    (hfree : state.disk.IsFree (base ++ entry.path))
    (hdirectory : (files entry.inode).kind = .directory →
      ∀ other ∈ seen, other.inode ≠ entry.inode) :
    ∃ number, (placeEntry files base seen state.disk entry).names =
        Function.update state.disk.names (base ++ entry.path) (some number) ∧
      ((∀ other ∈ seen, other.inode ≠ entry.inode) → number = state.disk.next) := by
  by_cases hinode : ∀ other ∈ seen, other.inode ≠ entry.inode
  · refine ⟨state.disk.next, ?_, fun _ => rfl⟩
    rw [placeEntry_new hinode]
    rfl
  · push Not at hinode
    obtain ⟨other, hother, hsame⟩ := hinode
    have hkind : (files entry.inode).kind ≠ .directory := fun hkind =>
      hdirectory hkind other hother hsame
    obtain ⟨number, hnumber, _, hlink⟩ := hrebuilt.link_eq hother hsame hkind hfree
    refine ⟨number, ?_, fun hnew => absurd hsame (hnew other hother)⟩
    rw [← hrebuilt.link_place hother hsame hkind hfree, hlink]
    rfl

theorem fileObject_ne_link {file : SourceFile} (hkind : file.kind ≠ .link) (target : Bytes) :
    fileObject file ≠ .link target := by
  rw [fileObject]
  cases hfile : file.kind with
  | link => exact absurd hfile hkind
  | _ => simp

/-- One more entry. -/
theorem Attributed.entry {seen : List Entry} {parent : Nat} {path : List Bytes} {name : Bytes}
    {inode : Inode} {record : Bytes}
    (hattributed : Attributed links files base disk begun seen state after)
    (hrebuilt : Rebuilt files cwd base seen state) (hparent : IsParent files seen parent path)
    (hname : ProperName name) (hnew : path ++ [name] ∉ seen.map Entry.path)
    (hdirectory : (files inode).kind = .directory → ∀ other ∈ seen, other.inode ≠ inode)
    (hturn : EntryTurn files cwd base seen state path name inode record next) :
    Attributed links files base disk begun (seen ++ [⟨path ++ [name], inode⟩]) next
      ((next.requests.drop state.requests.length).foldl (performRequest links cwd next.disk)
        after) := by
  obtain ⟨_, _, _, _, hparentDirectory⟩ := hrebuilt.parent hparent
  obtain ⟨_, _, _, _, hdirectoryNext⟩ := hturn.rebuilt.parent (hparent.append _)
  have hfree : state.disk.IsFree (base ++ (path ++ [name])) :=
    hrebuilt.isFree hnew hparentDirectory
  obtain ⟨number, hnames, hnumber⟩ :=
    @Rebuilt.placeEntry_names files cwd base state seen ⟨path ++ [name], inode⟩ hrebuilt hfree
      hdirectory
  rw [← hturn.disk] at hnames
  have hfiles : ∀ other < state.disk.next, next.disk.files other = state.disk.files other := by
    intro other hother
    rw [hturn.disk]
    exact placeEntry_files seen _ hother
  have hplaced : next.disk = (place files base disk (seen ++ [⟨path ++ [name], inode⟩])).disk := by
    rw [hturn.disk, place_concat, Placed.add, place_seen, ← hattributed.disk_eq]
  have hnumberOf : entryNumber links base next.disk ⟨path ++ [name], inode⟩ =
      lastNumber links next.disk (base ++ path) name := by
    rw [entryNumber]
    dsimp only
    rw [List.dropLast_concat, List.getLast?_concat, Option.getD_some]
  have hrooted : next.disk.Rooted := by
    rw [← List.append_assoc] at hnames hfree
    exact hattributed.rooted.extend hfree hname.not_dot hnames hfiles
  refine ⟨hrooted, hplaced, ?_, ?_⟩
  · intro other
    obtain ⟨parentPath, hparentPath, hresolve, hrequests⟩ := hturn.requests
    have hbefore : after other = applyChanges (next.disk.isFileDirectory other) (begun other)
        (changesTo links files base other ⟨[], disk⟩ seen) := by
      rw [hattributed.attributes other]
      by_cases hused : other < state.disk.next
      · rw [Disk.isFileDirectory, Disk.isFileDirectory, hfiles other hused]
      · rw [not_lt, hattributed.disk_eq] at hused
        rw [changesTo_unused links ⟨[], disk⟩ seen hused]
        rfl
    rw [hrequests, List.drop_left, performRequests,
      follow_append hrooted links hparentPath hresolve hdirectoryNext hname.no_slash, ← hnumberOf,
      changesTo_concat, ← hplaced, applyChanges_append, ← hbefore]
    by_cases hleads : entryNumber links base next.disk ⟨path ++ [name], inode⟩ = some other
    · rw [if_pos hleads]
      exact if_pos hleads
    · rw [if_neg hleads]
      exact if_neg hleads
  · intro before entry later hsplit hfirst
    rcases List.eq_nil_or_concat later with rfl | ⟨others, last, rfl⟩
    · obtain ⟨rfl, hentry⟩ := List.append_inj' hsplit rfl
      obtain rfl := List.head_eq_of_cons_eq hentry
      have hself : next.disk.names (base ++ (path ++ [name])) = some state.disk.next := by
        rw [hnames, Function.update_self, hnumber hfirst]
      rw [← hattributed.disk_eq]
      refine ⟨hself, fun hkind => ?_⟩
      obtain ⟨same, hsame, hobject⟩ := hturn.rebuilt.tree.same ⟨path ++ [name], inode⟩ (by simp)
      have hsameNumber : same = state.disk.next := Option.some.inj (hsame.symm.trans hself)
      rw [hsameNumber] at hobject
      have hleads : entryNumber links base next.disk ⟨path ++ [name], inode⟩ =
          some state.disk.next := by
        rw [hnumberOf]
        apply lastNumber_eq links hdirectoryNext hname
        · rw [List.append_assoc, hself]
        · intro target
          rw [hobject]
          exact fileObject_ne_link hkind target
      rw [changesTo_concat, ← hplaced, if_pos hleads, entryChanges_new hfirst,
        changesTo_unused links ⟨[], disk⟩ seen (by rw [hattributed.disk_eq]; rfl)]
      rfl
    · rw [List.concat_eq_append, ← List.cons_append, ← List.append_assoc] at hsplit
      obtain ⟨hsplit, -⟩ := List.append_inj' hsplit rfl
      obtain ⟨hold, hchanges⟩ := hattributed.objects before entry others hsplit hfirst
      refine ⟨?_, hchanges⟩
      rw [hnames, Function.update_of_ne, hold]
      intro hsame
      have hpath : entry.path = path ++ [name] := List.append_cancel_left hsame
      apply hnew
      rw [← hpath, hsplit]
      exact List.mem_map_of_mem (by simp)

variable (links) (files) (cwd base) (disk) (begun) in
/-- The image holds the entries seen so far, and extracting it has restored them. -/
structure Restoring (start : Extraction) (attributes : Nat → Attributes) (seen : List Entry)
    (writer : Writer) : Prop where
  objId : writer.objId = nobjectBuckets + 1 + seen.length
  table : TableKnows seen writer.objList
  restored : ∃ state after, Restores links cwd start attributes writer.image state after ∧
    Rebuilt files cwd base seen state ∧
    Attributed links files base disk begun seen state after

theorem restoring_entries (leftover : UInt32 → UInt32 → Nat → UInt8) (start : Extraction)
    (attributes : Nat → Attributes) :
    KeepsEntries files leftover (Restoring links files cwd base disk begun start attributes) where
  objId := Restoring.objId
  entry := by
    intro seen writer parent path name inode hrestoring hparent hname hnew hfile hroom hdirectory
    obtain ⟨state, after, hrestores, hrebuilt, hattributed⟩ := hrestoring.restored
    obtain ⟨objList, record, next, hprocess, htable, hnext⟩ := processEntry_turn leftover
      hrestoring.objId hrestoring.table hrebuilt hparent hname hnew hfile hroom hdirectory
    refine ⟨_, hprocess, ⟨?_, htable, next, _, hrestores.trans (hnext.turn.restores after),
      hnext.rebuilt,
      hattributed.entry hrebuilt hparent hname hnew hdirectory hnext⟩⟩
    rw [hrestoring.objId, List.length_append, List.length_singleton]
    rfl

/-- The directory to extract into gets the attributes of the source first. -/
def beginAttributes (base : List Bytes) (disk : Disk) (directory : SourceFile)
    (attributes : Nat → Attributes) (number : Nat) : Attributes :=
  if disk.names base = some number then
    applyChanges (disk.isFileDirectory number) (attributes number)
      [.owner directory.uid directory.gid, .permissions directory.mode]
  else attributes number

theorem root_restoring (leftover : UInt32 → UInt32 → Nat → UInt8) {argument : Bytes}
    {directory : SourceFile} (hrooted : disk.Rooted)
    (hempty : EmptyDirectory disk (resolve cwd (dirName argument)))
    (hargument : dirName argument ≠ []) (attributes : Nat → Attributes) :
    Restoring links files cwd (resolve cwd (dirName argument)) disk
      (beginAttributes (resolve cwd (dirName argument)) disk directory attributes)
      (beginExtraction (rootPath argument) disk) attributes []
      ⟨[], nobjectBuckets + 1, writeObjectHeader leftover objectIdRoot .directory directory
        objectIdRoot [] (-1) []⟩ := by
  have hpath : rootPath argument ≠ [] := rootPath_ne_nil hargument
  obtain ⟨next, hturn, hdisk, hrequests, hrebuilt⟩ :=
    @root_turn leftover files cwd disk argument directory hempty hpath
  have hrestores := @Turn.restores links cwd _ _ _ hturn attributes
  refine ⟨rfl, tableKnows_nil, next, _, hrestores, hrebuilt, ⟨hdisk ▸ hrooted, hdisk, ?_, ?_⟩⟩
  · intro number
    have hbegin : (beginExtraction (rootPath argument) disk).requests.length = 0 := rfl
    rw [hbegin, List.drop_zero, hrequests, hdisk, performRequests, follow_append hrooted links hpath (resolve_rootPath cwd)
      hempty.directory (List.forall_mem_nil _), lastNumber_nil links hempty.directory]
    rfl
  · intro before entry later hsplit
    exact absurd hsplit (by simp)

end Restoring

/-! ## What is restored -/

section Restored

variable (links : Nat) (files : Inode → SourceFile) (directory : SourceFile)
  (entries : List Entry) (base : List Bytes) (disk : Disk) (attributes : Nat → Attributes)

/-- Files and directories have their owners and permissions again, and no other file has been
touched. -/
structure Restored (last : Disk) (after : Nat → Attributes) : Prop where
  root : ∀ number, disk.names base = some number → after number = directory.attributes
  objects : ∀ entry ∈ entries, (files entry.inode).kind ≠ .link →
    ∃ number, last.names (base ++ entry.path) = some number ∧
      after number = (files entry.inode).attributes
  outside : ∀ number < disk.next, disk.names base ≠ some number →
    after number = attributes number

/-- The entries leave alone what was there before them. -/
structure LeavesAlone : Prop where
  root : ∀ number, disk.names base = some number →
    Undisturbed true directory.attributes
      (changesTo links files base number ⟨[], disk⟩ entries)
  objects : ∀ before entry later, entries = before ++ entry :: later →
    (∀ other ∈ before, other.inode ≠ entry.inode) → (files entry.inode).kind ≠ .link →
    Undisturbed (decide ((files entry.inode).kind = .directory)) (files entry.inode).attributes
      (changesTo links files base (place files base disk before).disk.next
        (place files base disk (before ++ [entry])) later)
  outside : ∀ number < disk.next, disk.names base ≠ some number →
    Undisturbed (disk.isFileDirectory number) (attributes number)
      (changesTo links files base number ⟨[], disk⟩ entries)

/-- The owner is not -1. -/
def SourceFile.IsOwned (file : SourceFile) : Prop :=
  file.uid ≠ 0xffffffff ∧ file.gid ≠ 0xffffffff

instance (file : SourceFile) : Decidable file.IsOwned :=
  inferInstanceAs (Decidable (_ ∧ _))

variable {links} {files} {directory} {entries} {base} {disk} {attributes} {cwd : List Bytes}
  {state : Extraction} {after : Nat → Attributes}

theorem applyChanges_own {file : SourceFile} (howned : file.IsOwned) (isDirectory : Bool)
    (before : Attributes) :
    applyChanges isDirectory before [.owner file.uid file.gid, .permissions file.mode] =
      file.attributes := by
  rw [applyChanges, List.foldl_cons, List.foldl_cons, List.foldl_nil, Change.applyTo,
    Change.applyTo, if_neg howned.1, if_neg howned.2]
  rfl

/-- What is left of a file that was there before. -/
theorem Attributed.old {begun : Nat → Attributes} {number : Nat}
    (hattributed : Attributed links files base disk begun entries state after)
    (hnumber : number < disk.next) :
    after number = applyChanges (disk.isFileDirectory number) (begun number)
      (changesTo links files base number ⟨[], disk⟩ entries) := by
  have hfile : state.disk.files number = disk.files number := by
    rw [hattributed.disk_eq]
    exact foldl_add_files ⟨[], disk⟩ entries hnumber
  rw [hattributed.attributes, Disk.isFileDirectory, hfile]
  rfl

theorem Attributed.root_iff (hempty : EmptyDirectory disk base) (howned : directory.IsOwned)
    (hattributed : Attributed links files base disk
      (beginAttributes base disk directory attributes) entries state after) {number : Nat}
    (hnumber : disk.names base = some number) :
    after number = directory.attributes ↔ Undisturbed true directory.attributes
      (changesTo links files base number ⟨[], disk⟩ entries) := by
  obtain ⟨same, hsame, hobject⟩ := Disk.isDirectory_iff.1 hempty.directory
  obtain rfl : same = number := Option.some.inj (hsame.symm.trans hnumber)
  have hkind : disk.isFileDirectory same = true := decide_eq_true hobject
  rw [hattributed.old (disk.used _ _ hnumber), hkind, beginAttributes, if_pos hnumber,
    applyChanges_own howned]
  exact applyChanges_eq_iff _ _ _

theorem Attributed.outside_iff
    (hattributed : Attributed links files base disk
      (beginAttributes base disk directory attributes) entries state after) {number : Nat}
    (hnumber : number < disk.next) (hbase : disk.names base ≠ some number) :
    after number = attributes number ↔
      Undisturbed (disk.isFileDirectory number) (attributes number)
        (changesTo links files base number ⟨[], disk⟩ entries) := by
  rw [hattributed.old hnumber, beginAttributes, if_neg hbase]
  exact applyChanges_eq_iff _ _ _

/-- What is left of an object from its first entry on. -/
theorem Attributed.object_iff (hrebuilt : Rebuilt files cwd base entries state)
    (hattributed : Attributed links files base disk
      (beginAttributes base disk directory attributes) entries state after)
    {before later : List Entry} {entry : Entry} (hsplit : entries = before ++ entry :: later)
    (hfirst : ∀ other ∈ before, other.inode ≠ entry.inode)
    (hkind : (files entry.inode).kind ≠ .link) (howned : (files entry.inode).IsOwned) :
    state.disk.names (base ++ entry.path) = some (place files base disk before).disk.next ∧
      (after (place files base disk before).disk.next = (files entry.inode).attributes ↔
        Undisturbed (decide ((files entry.inode).kind = .directory))
          (files entry.inode).attributes
          (changesTo links files base (place files base disk before).disk.next
            (place files base disk (before ++ [entry])) later)) := by
  obtain ⟨hnumber, hown⟩ := hattributed.objects before entry later hsplit hfirst
  obtain ⟨same, hsame, hobject⟩ := hrebuilt.tree.same entry (hsplit ▸ by simp)
  obtain rfl : same = _ := Option.some.inj (hsame.symm.trans hnumber)
  have hdirectory : state.disk.isFileDirectory (place files base disk before).disk.next =
      decide ((files entry.inode).kind = .directory) := by
    rw [Disk.isFileDirectory, hobject, fileObject]
    cases hfile : (files entry.inode).kind with
    | link => exact absurd hfile hkind
    | _ => rfl
  have hchanges : changesTo links files base (place files base disk before).disk.next ⟨[], disk⟩
      entries = (files entry.inode).changes ++
        changesTo links files base (place files base disk before).disk.next
          (place files base disk (before ++ [entry])) later := by
    rw [hsplit, List.append_cons, changesTo_append, hown hkind]
    rfl
  refine ⟨hnumber, ?_⟩
  rw [hattributed.attributes, hchanges, applyChanges_append, hdirectory, SourceFile.changes,
    if_neg hkind, applyChanges_own howned]
  exact applyChanges_eq_iff _ _ _

theorem Attributed.restored_iff (hempty : EmptyDirectory disk base) (hdirectory : directory.IsOwned)
    (howned : ∀ entry ∈ entries, (files entry.inode).IsOwned)
    (hrebuilt : Rebuilt files cwd base entries state)
    (hattributed : Attributed links files base disk
      (beginAttributes base disk directory attributes) entries state after) :
    Restored files directory entries base disk attributes state.disk after ↔
      LeavesAlone links files directory entries base disk attributes := by
  constructor
  · intro hrestored
    refine ⟨?_, ?_, ?_⟩
    · intro number hnumber
      exact (hattributed.root_iff hempty hdirectory hnumber).1 (hrestored.root number hnumber)
    · intro before entry later hsplit hfirst hkind
      have hmem : entry ∈ entries := hsplit ▸ by simp
      obtain ⟨hnumber, hiff⟩ := hattributed.object_iff hrebuilt hsplit hfirst hkind
        (howned entry hmem)
      obtain ⟨same, hsame, hafter⟩ := hrestored.objects entry hmem hkind
      obtain rfl : same = _ := Option.some.inj (hsame.symm.trans hnumber)
      exact hiff.1 hafter
    · intro number hnumber hbase
      exact (hattributed.outside_iff hnumber hbase).1 (hrestored.outside number hnumber hbase)
  · intro halone
    refine ⟨?_, ?_, ?_⟩
    · intro number hnumber
      exact (hattributed.root_iff hempty hdirectory hnumber).2 (halone.root number hnumber)
    · intro entry hmem hkind
      obtain ⟨first, hfirst, hinode, hfind⟩ := find_again hmem rfl
      obtain ⟨_, before, later, hsplit, hbefore⟩ := List.find?_eq_some_iff_append.1 hfind
      have hnone : ∀ other ∈ before, other.inode ≠ first.inode := by
        intro other hother
        rw [hinode]
        simpa using hbefore other hother
      rw [← hinode] at hkind ⊢
      obtain ⟨hnumber, hiff⟩ := hattributed.object_iff hrebuilt hsplit hnone hkind
        (howned first hfirst)
      refine ⟨_, ?_, hiff.2 (halone.objects before first later hsplit hnone hkind)⟩
      rw [← hnumber]
      exact (hrebuilt.tree.links entry hmem first hfirst).2 hinode.symm
    · intro number hnumber hbase
      exact (hattributed.outside_iff hnumber hbase).2 (halone.outside number hnumber hbase)

end Restored

section RoundTrip

variable (links : Nat) (leftover : UInt32 → UInt32 → Nat → UInt8) {files : Inode → SourceFile}
  {cwd : List Bytes} {disk : Disk} {source argument : Bytes} {directory : SourceFile}
  {listing : Listing}

/-- An image that mkyaffs2image has written is extracted with attributes. -/
theorem unyaffsAttributes_mkyaffs2image (htree : IsTree files source (listing.entries files []))
    (hargument : dirName argument ≠ []) (hroom : (rootPath argument).length < sizeofRootPath)
    (hempty : EmptyDirectory disk (resolve cwd (dirName argument))) (hrooted : disk.Rooted)
    (attributes : Nat → Attributes) :
    ∃ image extraction after,
      mkyaffs2image leftover files source directory listing = .ok image ∧
      unyaffsAttributes links cwd argument image disk attributes = .ok (extraction, after) ∧
      Rebuilt files cwd (resolve cwd (dirName argument)) (listing.entries files []) extraction ∧
      Attributed links files (resolve cwd (dirName argument)) disk
        (beginAttributes (resolve cwd (dirName argument)) disk directory attributes)
        (listing.entries files []) extraction after := by
  have hsource : pathString source [] = source := List.append_nil source
  rw [← List.append_nil (listing.entries files []), ← List.nil_append (_ ++ [])] at htree
  obtain ⟨last, hlast, hrestoring⟩ := processDirectory_keeps leftover
    (restoring_entries leftover _ attributes) listing htree (.inl ⟨rfl, rfl⟩)
    (@root_restoring links files cwd disk leftover argument directory hrooted hempty hargument
      attributes)
  rw [hsource] at hlast
  obtain ⟨extraction, after, hrestores, hrebuilt, hattributed⟩ := hrestoring.restored
  obtain ⟨left, hleft, hloop⟩ := hrestores [] (last.image.length + 1)
    (by rw [List.append_nil]; exact Nat.lt_succ_self _)
  refine ⟨last.image, extraction, after, ?_, ?_, hrebuilt, hattributed⟩
  · rw [mkyaffs2image, hlast]
    rfl
  · cases left with
    | zero => exact absurd hleft (Nat.not_lt_zero _)
    | succ left =>
        rw [List.append_nil] at hloop
        rw [unyaffsAttributes, if_neg hargument, Disk.mkdir, if_neg hempty.not_free,
          if_neg (not_or_intro hargument hempty.named), if_pos hroom, hloop]
        rfl

/-- Owners and permissions come back exactly when the entries leave alone what was there before
them: the directory, the objects made by earlier entries and the files outside. -/
theorem restored_iff_leavesAlone (htree : IsTree files source (listing.entries files []))
    (hargument : dirName argument ≠ []) (hroom : (rootPath argument).length < sizeofRootPath)
    (hempty : EmptyDirectory disk (resolve cwd (dirName argument))) (hrooted : disk.Rooted)
    (hdirectory : directory.IsOwned)
    (howned : ∀ entry ∈ listing.entries files [], (files entry.inode).IsOwned)
    (attributes : Nat → Attributes) :
    ∃ image extraction after,
      mkyaffs2image leftover files source directory listing = .ok image ∧
      unyaffsAttributes links cwd argument image disk attributes = .ok (extraction, after) ∧
      (Restored files directory (listing.entries files []) (resolve cwd (dirName argument)) disk
          attributes extraction.disk after ↔
        LeavesAlone links files directory (listing.entries files [])
          (resolve cwd (dirName argument)) disk attributes) := by
  obtain ⟨image, extraction, after, hwritten, hextracted, hrebuilt, hattributed⟩ :=
    @unyaffsAttributes_mkyaffs2image links leftover files cwd disk source argument directory
      listing htree hargument hroom hempty hrooted attributes
  exact ⟨image, extraction, after, hwritten, hextracted,
    hattributed.restored_iff hempty hdirectory howned hrebuilt⟩

end RoundTrip

theorem sample_rooted : sampleDisk.Rooted := by
  refine ⟨rfl, fun path name hnamed => ?_⟩
  by_cases hpath : path ++ [name] = [[101]]
  · have hnil : path = [] := (List.append_eq_singleton_iff.1 hpath).elim (·.1) (by simp)
    subst hnil
    obtain rfl := List.head_eq_of_cons_eq hpath
    exact ⟨rfl, by decide⟩
  · exact absurd (by simp [sampleDisk, hpath]) hnamed

/-- A file, and a directory with a symbolic link to a name that is not there. -/
def plainListing : Listing :=
  .entry [97] ⟨1, 5⟩ .done <| .entry [98] ⟨1, 6⟩ (.entry [99] ⟨1, 7⟩ .done .done) .done

theorem sample_owned (inode : Inode) : (sampleFiles inode).IsOwned := by
  have hroot : (0 : UInt32) ≠ 0xffffffff := by decide
  exact ⟨hroot, hroot⟩

theorem undisturbed_nil (isDirectory : Bool) (attributes : Attributes) :
    Undisturbed isDirectory attributes [] :=
  (applyChanges_eq_iff isDirectory attributes []).1 rfl

/-- The entries seen first are a tree themselves. -/
theorem IsTree.left {files : Inode → SourceFile} {source : Bytes} {first second : List Entry}
    (htree : IsTree files source (first ++ second)) : IsTree files source first where
  distinct := by
    have hdistinct := htree.distinct
    rw [List.map_append] at hdistinct
    exact hdistinct.of_append_left
  directories := by
    have hdirectories := htree.directories
    rw [List.filter_append, List.pairwise_append] at hdirectories
    exact hdirectories.1
  names := fun entry hentry => htree.names entry (List.mem_append_left _ hentry)
  files := fun entry hentry => htree.files entry (List.mem_append_left _ hentry)
  fullNames := fun entry hentry => htree.fullNames entry (List.mem_append_left _ hentry)
  room := by
    have hroom := htree.room
    rw [List.length_append] at hroom
    omega

theorem plainListing_isTree :
    IsTree sampleFiles [47, 101] (plainListing.entries sampleFiles []) :=
  @IsTree.left _ _ _ [⟨[[98], [100]], ⟨1, 5⟩⟩] sample_isTree

def sampleAttributes (_ : Nat) : Attributes :=
  ⟨0o755, 0, 0⟩

/-- Later entries do not lead to the file or to the directory. -/
theorem plainListing_leavesAlone :
    LeavesAlone 40 sampleFiles (sampleFiles ⟨1, 6⟩) (plainListing.entries sampleFiles []) [[101]]
      sampleDisk sampleAttributes := by
  have hentries : plainListing.entries sampleFiles [] =
      [⟨[[97]], ⟨1, 5⟩⟩, ⟨[[98]], ⟨1, 6⟩⟩, ⟨[[98], [99]], ⟨1, 7⟩⟩] := rfl
  have hold : ∀ number < 2, changesTo 40 sampleFiles [[101]] number ⟨[], sampleDisk⟩
      [⟨[[97]], ⟨1, 5⟩⟩, ⟨[[98]], ⟨1, 6⟩⟩, ⟨[[98], [99]], ⟨1, 7⟩⟩] = [] := by
    decide
  have hfile : changesTo 40 sampleFiles [[101]] (place sampleFiles [[101]] sampleDisk []).disk.next
      (place sampleFiles [[101]] sampleDisk [⟨[[97]], ⟨1, 5⟩⟩])
      [⟨[[98]], ⟨1, 6⟩⟩, ⟨[[98], [99]], ⟨1, 7⟩⟩] = [] := by
    decide
  have hinside : changesTo 40 sampleFiles [[101]]
      (place sampleFiles [[101]] sampleDisk [⟨[[97]], ⟨1, 5⟩⟩]).disk.next
      (place sampleFiles [[101]] sampleDisk [⟨[[97]], ⟨1, 5⟩⟩, ⟨[[98]], ⟨1, 6⟩⟩])
      [⟨[[98], [99]], ⟨1, 7⟩⟩] = [] := by
    decide
  rw [hentries]
  refine ⟨?_, ?_, ?_⟩
  · intro number hnumber
    rw [hold number (sampleDisk.used _ _ hnumber)]
    exact undisturbed_nil _ _
  · intro before entry later hsplit _ hkind
    rcases before with _ | ⟨_, _ | ⟨_, _ | ⟨_, _⟩⟩⟩
    · cases hsplit
      rw [List.nil_append, hfile]
      exact undisturbed_nil _ _
    · cases hsplit
      rw [List.singleton_append, hinside]
      exact undisturbed_nil _ _
    · cases hsplit
      exact absurd rfl hkind
    · simp at hsplit
  · intro number hnumber _
    rw [hold number hnumber]
    exact undisturbed_nil _ _

theorem restored_iff_leavesAlone_sample :
    ∃ image extraction after,
      mkyaffs2image (fun _ _ _ => 0) sampleFiles [47, 101] (sampleFiles ⟨1, 6⟩) plainListing =
        .ok image ∧
      unyaffsAttributes 40 [] [47, 101] image sampleDisk sampleAttributes =
        .ok (extraction, after) ∧
      Restored sampleFiles (sampleFiles ⟨1, 6⟩) (plainListing.entries sampleFiles []) [[101]]
        sampleDisk sampleAttributes extraction.disk after := by
  obtain ⟨image, extraction, after, hwritten, hextracted, hiff⟩ :=
    @restored_iff_leavesAlone 40 (fun _ _ _ => 0) sampleFiles [] sampleDisk [47, 101] [47, 101]
      (sampleFiles ⟨1, 6⟩) plainListing plainListing_isTree (by decide) (by decide) sample_empty
      sample_rooted (sample_owned _) (fun _ _ => sample_owned _) sampleAttributes
  exact ⟨image, extraction, after, hwritten, hextracted, hiff.2 plainListing_leavesAlone⟩

/-- The second name of a file gives it the permissions of a header without any. -/
theorem hard_link_opens_permissions :
    ∃ image extraction after,
      mkyaffs2image (fun _ _ _ => 0) sampleFiles [47, 101] (sampleFiles ⟨1, 6⟩) sampleListing =
        .ok image ∧
      unyaffsAttributes 40 [] [47, 101] image sampleDisk sampleAttributes =
        .ok (extraction, after) ∧
      extraction.disk.names [[101], [97]] = some 2 ∧
      (sampleFiles ⟨1, 5⟩).attributes = ⟨0o644, 0, 0⟩ ∧ after 2 = ⟨0o7777, 0, 0⟩ ∧
      ¬Restored sampleFiles (sampleFiles ⟨1, 6⟩) (sampleListing.entries sampleFiles []) [[101]]
        sampleDisk sampleAttributes extraction.disk after := by
  obtain ⟨image, extraction, after, hwritten, hextracted, hrebuilt, hattributed⟩ :=
    @unyaffsAttributes_mkyaffs2image 40 (fun _ _ _ => 0) sampleFiles [] sampleDisk [47, 101]
      [47, 101] (sampleFiles ⟨1, 6⟩) sampleListing sample_isTree (by decide) (by decide)
      sample_empty sample_rooted sampleAttributes
  have hentries : sampleListing.entries sampleFiles [] =
      [⟨[[97]], ⟨1, 5⟩⟩, ⟨[[98]], ⟨1, 6⟩⟩, ⟨[[98], [99]], ⟨1, 7⟩⟩, ⟨[[98], [100]], ⟨1, 5⟩⟩] := rfl
  have hchanges : changesTo 40 sampleFiles [[101]] 2 ⟨[], sampleDisk⟩
      [⟨[[97]], ⟨1, 5⟩⟩, ⟨[[98]], ⟨1, 6⟩⟩, ⟨[[98], [99]], ⟨1, 7⟩⟩, ⟨[[98], [100]], ⟨1, 5⟩⟩] =
        [.owner 0 0, .permissions 0o100644, .owner 0xffffffff 0xffffffff,
          .permissions 0xffffffff] := by
    decide
  have hname : extraction.disk.names [[101], [97]] = some 2 :=
    (hattributed.objects [] _ _ hentries (List.forall_mem_nil _)).1
  have hfile : (sampleFiles ⟨1, 5⟩).attributes = ⟨0o644, 0, 0⟩ := by decide
  have hafter : after 2 = ⟨0o7777, 0, 0⟩ := by
    rw [hattributed.attributes, hentries]
    change applyChanges _ _ (changesTo 40 sampleFiles [[101]] 2 ⟨[], sampleDisk⟩ _) = _
    rw [hchanges]
    cases extraction.disk.isFileDirectory 2 <;> rfl
  refine ⟨image, extraction, after, hwritten, hextracted, hname, hfile, hafter, ?_⟩
  intro hrestored
  obtain ⟨number, hnumber, hsame⟩ :=
    hrestored.objects ⟨[[97]], ⟨1, 5⟩⟩ (by rw [hentries]; simp) (by decide)
  obtain rfl : number = 2 := Option.some.inj (hnumber.symm.trans hname)
  rw [hafter, hfile] at hsame
  exact absurd hsame (by decide)

end OpenRecovery.Yaffs
