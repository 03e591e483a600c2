import OpenRecovery.BackupWalk
import OpenRecovery.FallibleRuns
import Mathlib

/-!
# The image of a part of a tree

What is excluded might as well not be there: the tool writes the image of the tree without it.
The same is true of a directory that seems to end early.
-/

namespace OpenRecovery.Yaffs.Backup

/-! ## The part that is kept -/

section Kept

variable (files : Inode → SourceFile) (excluded : Bytes → Bool)

/-- The tree without the entries for which no object is made. -/
def keptListing (path : Bytes) : Listing → Listing
  | .done => .done
  | .entry name inode inside rest =>
      if IsDot name then .entry name inode inside (keptListing path rest)
      else
        let fullName := path ++ [slash] ++ name
        if IsObject files excluded ⟨fullName, inode⟩ then
          .entry name inode (keptListing fullName inside) (keptListing path rest)
        else keptListing path rest

end Kept

theorem noExceptions_short : ([] : List Bytes).length < sizeofExclList := by decide

/-- Nothing is excluded. -/
def noExceptions : Exceptions :=
  ⟨[], noExceptions_short⟩

def noCut (_ : Bytes) : Option Nat :=
  none

section Listings

variable {files : Inode → SourceFile} {excluded : Bytes → Bool} {path name : Bytes}
  {inode : Inode} {inside rest : Listing}

theorem keptListing_dot (hdot : IsDot name) :
    keptListing files excluded path (.entry name inode inside rest) =
      .entry name inode inside (keptListing files excluded path rest) := by
  rw [keptListing, if_pos hdot]

theorem keptListing_object (hdot : ¬IsDot name)
    (hobject : IsObject files excluded ⟨path ++ [slash] ++ name, inode⟩) :
    keptListing files excluded path (.entry name inode inside rest) =
      .entry name inode (keptListing files excluded (path ++ [slash] ++ name) inside)
        (keptListing files excluded path rest) := by
  rw [keptListing, if_neg hdot]
  exact if_pos hobject

theorem keptListing_skipped (hdot : ¬IsDot name)
    (hskipped : ¬IsObject files excluded ⟨path ++ [slash] ++ name, inode⟩) :
    keptListing files excluded path (.entry name inode inside rest) =
      keptListing files excluded path rest := by
  rw [keptListing, if_neg hdot]
  exact if_neg hskipped

theorem keptListing_inodes (path : Bytes) (listing : Listing) :
    ((keptListing files excluded path listing).inodes files).Sublist (listing.inodes files) := by
  induction listing generalizing path with
  | done => exact List.Sublist.refl _
  | entry name inode inside rest ihInside ihRest =>
      by_cases hdot : IsDot name
      · rw [keptListing_dot hdot, Listing.inodes, if_pos hdot, Listing.inodes, if_pos hdot]
        exact ihRest path
      · rw [Listing.inodes, if_neg hdot]
        by_cases hobject : IsObject files excluded ⟨path ++ [slash] ++ name, inode⟩
        · rw [keptListing_object hdot hobject, Listing.inodes, if_neg hdot]
          refine (List.Sublist.append ?_ (ihRest path)).cons_cons _
          split
          · exact ihInside _
          · exact List.Sublist.refl _
        · rw [keptListing_skipped hdot hobject]
          exact ((ihRest path).trans (List.sublist_append_right _ _)).cons _

theorem objectsOf_append (first second : List Visit) :
    objectsOf files excluded (first ++ second) =
      objectsOf files excluded first ++ objectsOf files excluded second :=
  List.filter_append ..

theorem objectsOf_object {visit : Visit} (hobject : IsObject files excluded visit) :
    objectsOf files excluded [visit] = [visit] := by
  rw [objectsOf, List.filter_singleton, decide_eq_true hobject]
  rfl

theorem objectsOf_skipped {visit : Visit} (hskipped : ¬IsObject files excluded visit) :
    objectsOf files excluded [visit] = [] := by
  rw [objectsOf, List.filter_singleton, decide_eq_false hskipped]
  rfl

/-- The objects of an entry and of those inside and behind it. -/
theorem objectsOf_entry {cut : Bytes → Option Nat} {left : Option Nat} (hleft : left ≠ some 0)
    (hdot : ¬IsDot name) (hobject : IsObject files excluded ⟨path ++ [slash] ++ name, inode⟩) :
    objectsOf files excluded (visitsOf files excluded cut path left
        (.entry name inode inside rest)) =
      ⟨path ++ [slash] ++ name, inode⟩ ::
        ((if (files inode).kind = .directory then
            objectsOf files excluded (visitsOf files excluded cut (path ++ [slash] ++ name)
              (cut (path ++ [slash] ++ name)) inside)
          else []) ++
        objectsOf files excluded (visitsOf files excluded cut path (left.map (· - 1)) rest)) := by
  rw [visitsOf_entry hleft hdot, ← List.singleton_append, objectsOf_append, objectsOf_append,
    objectsOf_object hobject, List.singleton_append]
  congr 2
  by_cases hkind : (files inode).kind = .directory
  · rw [if_pos hkind, if_pos ⟨hkind, hobject.2⟩]
  · rw [if_neg hkind, if_neg fun h => hkind h.1]
    rfl

theorem objectsOf_rest {cut : Bytes → Option Nat} {left : Option Nat} (hleft : left ≠ some 0)
    (hdot : ¬IsDot name) (hskipped : ¬IsObject files excluded ⟨path ++ [slash] ++ name, inode⟩) :
    objectsOf files excluded (visitsOf files excluded cut path left
        (.entry name inode inside rest)) =
      objectsOf files excluded (visitsOf files excluded cut path (left.map (· - 1)) rest) := by
  rw [visitsOf_entry hleft hdot, ← List.singleton_append, objectsOf_append, objectsOf_append,
    objectsOf_skipped hskipped, List.nil_append, if_neg, objectsOf, List.filter_nil,
    List.nil_append]
  rintro ⟨hkind, hfalse⟩
  exact hskipped ⟨by simp [hkind], hfalse⟩

/-- Every visit to the part that is kept is one to an object. -/
theorem visitsOf_kept (path : Bytes) (listing : Listing) :
    visitsOf files (fun _ => false) noCut path none (keptListing files excluded path listing) =
      objectsOf files excluded (visitsOf files excluded noCut path none listing) := by
  have hnone : (none : Option Nat) ≠ some 0 := nofun
  induction listing generalizing path with
  | done => rfl
  | entry name inode inside rest ihInside ihRest =>
      by_cases hdot : IsDot name
      · rw [keptListing_dot hdot, visitsOf_dot hnone hdot, visitsOf_dot hnone hdot]
        exact ihRest path
      · by_cases hobject : IsObject files excluded ⟨path ++ [slash] ++ name, inode⟩
        · rw [keptListing_object hdot hobject, visitsOf_entry hnone hdot,
            objectsOf_entry hnone hdot hobject]
          congr 2
          · by_cases hkind : (files inode).kind = .directory
            · rw [if_pos ⟨hkind, rfl⟩, if_pos hkind]
              exact ihInside _
            · rw [if_neg fun h => hkind h.1, if_neg hkind]
          · exact ihRest path
        · rw [keptListing_skipped hdot hobject, objectsOf_rest hnone hdot hobject]
          exact ihRest path

end Listings

/-! ## Without faults -/

section NoFaults

variable {leftover : UInt32 → UInt32 → Nat → UInt8} {files : Inode → SourceFile} {run : Run}

/-- The part of the state that the tool keeps when nothing fails. -/
def Run.writer (run : Run) : Writer :=
  ⟨run.objList, run.objId, run.image⟩

theorem write_noFaults {data : Bytes} (hdata : data.length ≤ chunkSize) :
    write noFaults data run = ((data.length : Int),
      { run with writes := run.writes + 1, image := run.image ++ data }) := by
  rw [write_some (show noFaults.write run.writes = some chunkSize from rfl),
    List.take_of_length_le hdata]

variable (leftover run) in
theorem writeChunk_noFaults {data : Bytes} (hdata : data.length = chunkSize)
    (objId chunkId nBytes : UInt32) :
    (writeChunk leftover noFaults data objId chunkId nBytes run).2.writer =
        ⟨run.objList, run.objId,
          run.image ++ Yaffs.writeChunk leftover data objId chunkId nBytes⟩ ∧
      (writeChunk leftover noFaults data objId chunkId nBytes run).1 = spareSize := by
  have hspare := spareArea_length leftover objId chunkId nBytes
  have hwrite : noFaults.write run.writes = some chunkSize := rfl
  have hfits : (spareArea leftover objId chunkId nBytes).length ≤ chunkSize := by
    rw [hspare]
    decide
  rw [writeChunk_taken leftover data objId chunkId nBytes hwrite, write_noFaults hfits]
  constructor
  · rw [writeChunk_spareArea, ← List.append_assoc, List.take_of_length_le hdata.le]
    rfl
  · rw [hspare]

variable (leftover run) in
theorem makeHeader_noFaults (newObj : Nat) (t : ObjectType) (file : SourceFile) (parent : Nat)
    (name : Bytes) (equivalentObj : Int) (aliasName : Bytes) :
    (makeHeader leftover noFaults newObj t file parent name equivalentObj aliasName run).writer =
        ⟨run.objList, run.objId, run.image ++
          Yaffs.writeObjectHeader leftover newObj t file parent name equivalentObj aliasName⟩ ∧
      (makeHeader leftover noFaults newObj t file parent name equivalentObj aliasName
        run).error = spareSize := by
  obtain ⟨hwriter, herror⟩ := writeChunk_noFaults leftover run
    (ObjectHeader.bytes_length (objectHeader t file parent name equivalentObj aliasName))
    (UInt32.ofNat newObj) 0 0xffff
  rw [makeHeader, writeObjectHeader, Yaffs.writeObjectHeader]
  exact ⟨hwriter, herror⟩

theorem copyData_noFaults (inode : Inode) (objId fuel chunk : Nat) (unread : Bytes) :
    (copyData leftover noFaults inode objId fuel chunk unread run).writer =
      ⟨run.objList, run.objId, run.image ++ writeData leftover objId fuel chunk unread⟩ := by
  induction fuel generalizing chunk unread run with
  | zero =>
      rw [copyData, writeData, List.append_nil]
      rfl
  | succ fuel ih =>
      rw [copyData, writeData, if_neg (show ¬noFaults.read inode = some chunk by simp [noFaults])]
      dsimp only
      by_cases hmore : 0 < (unread.take chunkSize).length
      · obtain ⟨hwriter, -⟩ := writeChunk_noFaults leftover run (chunk_length unread)
          (UInt32.ofNat objId) (UInt32.ofNat (chunk + 1))
          (UInt32.ofNat (unread.take chunkSize).length)
        rw [if_pos hmore, if_pos hmore, ih, ← List.append_assoc]
        generalize (writeChunk leftover noFaults _ _ _ _ run).2 = next at hwriter ⊢
        injection hwriter with hobjList hobjId himage
        rw [hobjList, hobjId, himage]
      · rw [if_neg hmore, if_neg hmore, List.append_nil]
        rfl

variable (leftover files run) in
theorem writeObject_noFaults (inode : Inode) (newObj parent : Nat) (name : Bytes) :
    (writeObject leftover noFaults files newObj parent name inode run).writer =
      ⟨run.objList, run.objId,
        run.image ++ Yaffs.writeObject leftover newObj parent name (files inode)⟩ := by
  by_cases hkind : (files inode).kind = .regular
  · rw [writeObject_regular leftover inode files hkind, Yaffs.writeObject, hkind]
    obtain ⟨hwriter, herror⟩ := makeHeader_noFaults leftover run newObj .file (files inode)
      parent name (-1) []
    dsimp only
    generalize makeHeader leftover noFaults newObj .file (files inode) parent name (-1) [] run =
      next at hwriter herror ⊢
    rw [herror, if_pos (Int.natCast_nonneg _),
      if_neg (show ¬noFaults.openFile inode = true by simp [noFaults]), copyData_noFaults]
    injection hwriter with hobjList hobjId himage
    rw [hobjList, hobjId, himage, List.append_assoc]
  · obtain ⟨t, aliasName, hobject, hrecord⟩ :=
      writeObject_header leftover inode files hkind newObj parent name
    rw [hobject, hrecord]
    exact (makeHeader_noFaults leftover run newObj t (files inode) parent name (-1)
      aliasName).1

variable (leftover files run) in
/-- Without faults and exceptions an entry is processed as in the model of the tool that does
not know of any. -/
theorem processEntry_noFaults (parent : Nat) (name fullName : Bytes) (inode : Inode) :
    (processEntry leftover noFaults files noExceptions parent name fullName inode run).map
        (Prod.map Run.writer id) =
      Yaffs.processEntry leftover files parent name inode run.writer := by
  rw [Yaffs.processEntry]
  by_cases hkind : (files inode).kind = .other
  · rw [processEntry_skipped fun h => h.1 hkind]
    exact (if_pos hkind).symm
  · rw [processEntry_object ⟨hkind, rfl⟩]
    dsimp only
    rw [if_neg hkind]
    by_cases hfound : findObjInList run.objList inode > 0
    · have hheader := (makeHeader_noFaults leftover { run with objId := run.objId + 1 } run.objId
        .hardlink (files inode) parent name (findObjInList run.objList inode) []).1
      rw [if_pos hfound]
      refine Eq.trans ?_ (if_pos hfound).symm
      exact congrArg (fun writer => Except.ok (writer, false)) hheader
    · rw [if_neg hfound]
      refine Eq.trans ?_ (if_neg hfound).symm
      change _ = addObjToList run.objList inode run.objId >>= _
      cases addObjToList run.objList inode run.objId with
      | error fault => rfl
      | ok objList =>
          have hobject := writeObject_noFaults leftover files
            { run with objList := objList, objId := run.objId + 1 } inode run.objId parent name
          exact congrArg (fun writer => Except.ok (writer,
            decide ((files inode).kind = .directory))) hobject

variable (leftover files run) in
theorem processEntries_noFaults (parent : Nat) (path : Bytes) (listing : Listing) :
    (processEntries leftover noFaults files noExceptions parent path none listing run).map
        Run.writer =
      Yaffs.processDirectory leftover files parent path listing run.writer := by
  have hnone : (none : Option Nat) ≠ some 0 := nofun
  induction listing generalizing run parent path with
  | done => rfl
  | entry name inode inside rest ihInside ihRest =>
      rw [Yaffs.processDirectory]
      by_cases hdot : IsDot name
      · rw [processEntries_dot hnone hdot, if_pos hdot]
        exact ihRest run parent path
      · rw [if_neg hdot]
        by_cases hname : (path ++ [slash] ++ name).length < sizeofFullName
        · rw [processEntries_entry hnone hdot hname]
          refine Eq.trans ?_ (if_pos hname).symm
          have hentry := processEntry_noFaults leftover files run parent name
            (path ++ [slash] ++ name) inode
          rw [← hentry]
          cases processEntry leftover noFaults files noExceptions parent name
              (path ++ [slash] ++ name) inode run with
          | error fault => rfl
          | ok result =>
              obtain ⟨next, descend⟩ := result
              cases descend with
              | true =>
                  have hinside := ihInside next run.objId (path ++ [slash] ++ name)
                  change Except.map Run.writer (processEntries leftover noFaults files noExceptions
                    run.objId (path ++ [slash] ++ name) none inside next >>= _) =
                    (Yaffs.processDirectory leftover files run.objId (path ++ [slash] ++ name)
                      inside next.writer >>= _)
                  rw [← hinside]
                  cases processEntries leftover noFaults files noExceptions run.objId
                      (path ++ [slash] ++ name) none inside next with
                  | error fault => rfl
                  | ok last => exact ihRest last parent path
              | false => exact ihRest _ parent path
        · rw [processEntries_long hnone hdot hname]
          exact (if_neg hname).symm

variable (leftover) in
/-- The tool writes the image that it writes in a world without faults and exceptions. -/
theorem makeImage_noFaults (tree : SourceTree) :
    makeImage leftover noFaults noExceptions tree =
      (Yaffs.mkyaffs2image leftover tree.files tree.path tree.directory tree.listing).map
        fun image => (0, image) := by
  obtain ⟨hwriter, herror⟩ := makeHeader_noFaults leftover ⟨[], nobjectBuckets + 1, 0, [], 0⟩
    objectIdRoot .directory tree.directory objectIdRoot [] (-1) []
  rw [makeImage, if_neg (show ¬noFaults.openImage = true from nofun), Yaffs.mkyaffs2image]
  dsimp only
  generalize makeHeader leftover noFaults objectIdRoot .directory tree.directory objectIdRoot []
    (-1) [] ⟨[], nobjectBuckets + 1, 0, [], 0⟩ = run at hwriter herror ⊢
  rw [if_pos (by rw [herror]; decide)]
  have hwalk := processEntries_noFaults leftover tree.files run objectIdRoot tree.path
    tree.listing
  rw [hwriter, List.nil_append] at hwalk
  rw [← hwalk]
  change (processEntries leftover noFaults tree.files noExceptions objectIdRoot tree.path none
    tree.listing run >>= _) = _
  cases processEntries leftover noFaults tree.files noExceptions objectIdRoot tree.path none
      tree.listing run with
  | error fault => rfl
  | ok last => rfl

end NoFaults

/-! ## The same image -/

section Simulation

variable {leftover : UInt32 → UInt32 → Nat → UInt8} {faults : Faults}
  {files : Inode → SourceFile} {exclList : Exceptions} {excluded : Bytes → Bool}

theorem processEntry_forward {parent : Nat} {name fullName : Bytes} {inode : Inode}
    {run next : Run} {descend : Bool}
    (hrun : processEntry leftover faults files exclList parent name fullName inode run =
      .ok (next, descend)) : run.writes ≤ next.writes := by
  by_cases hobject : IsObject files (isEntryException exclList) ⟨fullName, inode⟩
  · rw [processEntry_object hobject] at hrun
    by_cases hfound : findObjInList run.objList inode > 0
    · rw [if_pos hfound] at hrun
      cases hrun
      exact (makeHeader_grows leftover faults { run with objId := run.objId + 1 }
        _ _ _ _ _ _ _).1.forward
    · rw [if_neg hfound] at hrun
      obtain ⟨objList, -, hresult⟩ := bind_eq_ok.mp hrun
      cases hresult
      exact (writeObject_grows leftover inode files faults
        { run with objList := objList, objId := run.objId + 1 } _ _ _).forward
  · rw [processEntry_skipped hobject] at hrun
    cases hrun
    exact le_rfl

theorem processEntries_forward (listing : Listing) {parent : Nat} {path : Bytes}
    {left : Option Nat} {run last : Run}
    (hrun : processEntries leftover faults files exclList parent path left listing run =
      .ok last) : run.writes ≤ last.writes := by
  induction listing generalizing parent path left run last with
  | done =>
      cases hrun
      exact le_rfl
  | entry name inode inside rest ihInside ihRest =>
      by_cases hleft : left = some 0
      · rw [hleft, processEntries_zero] at hrun
        cases hrun
        exact le_rfl
      by_cases hdot : IsDot name
      · rw [processEntries_dot hleft hdot] at hrun
        exact ihRest hrun
      by_cases hname : (path ++ [slash] ++ name).length < sizeofFullName
      · rw [processEntries_entry hleft hdot hname] at hrun
        obtain ⟨⟨next, descend⟩, hentry, hlater⟩ := bind_eq_ok.mp hrun
        obtain ⟨inner, hinner, hrest⟩ := bind_eq_ok.mp hlater
        refine (processEntry_forward hentry).trans (le_trans ?_ (ihRest hrest))
        cases descend with
        | true => exact ihInside hinner
        | false =>
            cases hinner
            exact le_rfl
      · rw [processEntries_long hleft hdot hname] at hrun
        cases hrun

/-- An object that is written in full is written as without faults and exceptions. -/
theorem processEntry_whole {parent : Nat} {name fullName : Bytes} {inode : Inode}
    {run other next : Run} {descend : Bool}
    (hobject : IsObject files (isEntryException exclList) ⟨fullName, inode⟩)
    (hread : ReadWhole faults files inode) (hsame : Same run other) (heven : run.writes % 2 = 0)
    (hrun : processEntry leftover faults files exclList parent name fullName inode run =
      .ok (next, descend))
    (hfull : ∀ n < next.writes, Full faults n) :
    ∃ next', processEntry leftover noFaults files noExceptions parent name fullName inode other =
        .ok (next', descend) ∧ Same next next' ∧ next.writes % 2 = 0 ∧
      (descend = true → (files inode).kind = .directory) := by
  have hobject' : IsObject files (isEntryException noExceptions) ⟨fullName, inode⟩ :=
    ⟨hobject.1, rfl⟩
  have hobjList : run.objList = other.objList := by rw [hsame]
  have hobjId : run.objId = other.objId := by rw [hsame]
  rw [processEntry_object hobject] at hrun
  rw [processEntry_object hobject', ← hobjList, ← hobjId]
  by_cases hfound : findObjInList run.objList inode > 0
  · rw [if_pos hfound] at hrun ⊢
    cases hrun
    have hsame' := hsame.table run.objList (run.objId + 1)
    obtain ⟨hheader, hwrites⟩ := makeHeader_whole leftover run.objId .hardlink (files inode) parent
      name (findObjInList run.objList inode) []
      (show ({ run with objId := run.objId + 1 } : Run).writes % 2 = 0 from heven) hfull
    refine ⟨_, rfl, ?_, ?_, nofun⟩
    · rw [← hsame'.makeHeader, hheader]
      exact Same.refl _
    · rw [hwrites]
      exact (Nat.add_mod_right run.writes 2).trans heven
  · rw [if_neg hfound] at hrun ⊢
    obtain ⟨objList, hadded, hresult⟩ := bind_eq_ok.mp hrun
    cases hresult
    have hsame' := hsame.table objList (run.objId + 1)
    obtain ⟨hobjectSame, hevenNext⟩ := writeObject_whole leftover inode files run.objId parent name
      hread hsame' heven hfull
    rw [hadded]
    exact ⟨_, rfl, hobjectSame, hevenNext, of_decide_eq_true⟩

/-- A directory without objects is like one without entries. -/
theorem processEntries_nothing (listing : Listing) {parent : Nat} {path : Bytes} {run : Run}
    (hnothing : objectsOf files excluded (visitsOf files excluded noCut path none listing) = []) :
    processEntries leftover noFaults files noExceptions parent path none
      (keptListing files excluded path listing) run = .ok run := by
  have hnone : (none : Option Nat) ≠ some 0 := nofun
  induction listing with
  | done => rfl
  | entry name inode inside rest ihInside ihRest =>
      by_cases hdot : IsDot name
      · rw [visitsOf_dot hnone hdot] at hnothing
        rw [keptListing_dot hdot, processEntries_dot hnone hdot]
        exact ihRest hnothing
      · by_cases hobject : IsObject files excluded ⟨path ++ [slash] ++ name, inode⟩
        · rw [objectsOf_entry hnone hdot hobject] at hnothing
          cases hnothing
        · rw [objectsOf_rest hnone hdot hobject] at hnothing
          rw [keptListing_skipped hdot hobject]
          exact ihRest hnothing

theorem append_eq_of_sublist {Value : Type} {first second first' second' : List Value}
    (hfirst : first'.Sublist first) (hsecond : second'.Sublist second)
    (happend : first' ++ second' = first ++ second) : first' = first ∧ second' = second := by
  have hlength := congrArg List.length happend
  rw [List.length_append, List.length_append] at hlength
  have hlengthFirst := hfirst.length_le
  have hlengthSecond := hsecond.length_le
  exact ⟨hfirst.eq_of_length (by omega), hsecond.eq_of_length (by omega)⟩

/-- A walk that comes to all objects and is written in full writes what the walk through the part
that is kept writes in a world without faults and exceptions. -/
theorem processEntries_kept (listing : Listing) {parent : Nat} {path : Bytes} {left : Option Nat}
    {run other last : Run}
    (hexcluded : ∀ visit ∈ visitsOf files excluded noCut path none listing,
      (files visit.inode).kind ≠ .other →
        isEntryException exclList visit.fullName = excluded visit.fullName)
    (hreach : objectsOf files excluded (visitsOf files excluded faults.cut path left listing) =
      objectsOf files excluded (visitsOf files excluded noCut path none listing))
    (hread : ∀ visit ∈ objectsOf files excluded (visitsOf files excluded noCut path none listing),
      ReadWhole faults files visit.inode)
    (hsame : Same run other) (heven : run.writes % 2 = 0)
    (hrun : processEntries leftover faults files exclList parent path left listing run = .ok last)
    (hfull : ∀ n < last.writes, Full faults n) :
    ∃ last', processEntries leftover noFaults files noExceptions parent path none
        (keptListing files excluded path listing) other = .ok last' ∧ Same last last' ∧
      last.writes % 2 = 0 := by
  have hnone : (none : Option Nat) ≠ some 0 := nofun
  induction listing generalizing parent path left run other last with
  | done =>
      cases hrun
      exact ⟨other, rfl, hsame, heven⟩
  | entry name inode inside rest ihInside ihRest =>
      by_cases hleft : left = some 0
      · rw [hleft, visitsOf_zero] at hreach
        rw [hleft, processEntries_zero] at hrun
        cases hrun
        exact ⟨other, processEntries_nothing _ hreach.symm, hsame, heven⟩
      by_cases hdot : IsDot name
      · rw [visitsOf_dot hnone hdot] at hexcluded hreach hread
        rw [visitsOf_dot hleft hdot] at hreach
        rw [processEntries_dot hleft hdot] at hrun
        rw [keptListing_dot hdot, processEntries_dot hnone hdot]
        exact ihRest hexcluded hreach hread hsame heven hrun hfull
      by_cases hname : (path ++ [slash] ++ name).length < sizeofFullName
      case neg =>
        rw [processEntries_long hleft hdot hname] at hrun
        cases hrun
      rw [processEntries_entry hleft hdot hname] at hrun
      obtain ⟨⟨next, descend⟩, hentry, hlater⟩ := bind_eq_ok.mp hrun
      obtain ⟨inner, hinner, hrest⟩ := bind_eq_ok.mp hlater
      rw [visitsOf_entry hnone hdot] at hexcluded
      rw [List.forall_mem_cons, List.forall_mem_append] at hexcluded
      obtain ⟨hhere, hexcludedInside, hexcludedRest⟩ := hexcluded
      by_cases hobject : IsObject files excluded ⟨path ++ [slash] ++ name, inode⟩
      · rw [objectsOf_entry hleft hdot hobject, objectsOf_entry hnone hdot hobject] at hreach
        rw [objectsOf_entry hnone hdot hobject, List.forall_mem_cons, List.forall_mem_append]
          at hread
        obtain ⟨hreadHere, hreadInside, hreadRest⟩ := hread
        have hinsideReach : (if (files inode).kind = .directory then
              objectsOf files excluded (visitsOf files excluded faults.cut
                (path ++ [slash] ++ name) (faults.cut (path ++ [slash] ++ name)) inside)
            else []) = (if (files inode).kind = .directory then
              objectsOf files excluded (visitsOf files excluded noCut
                (path ++ [slash] ++ name) none inside)
            else []) ∧
            objectsOf files excluded (visitsOf files excluded faults.cut path
              (left.map (· - 1)) rest) =
              objectsOf files excluded (visitsOf files excluded noCut path none rest) := by
          refine append_eq_of_sublist ?_ ((visitsOf_sublist _ _ _).filter _)
            (List.cons_injective hreach)
          split
          · exact (visitsOf_sublist _ _ _).filter _
          · exact List.Sublist.refl _
        obtain ⟨hreachInside, hreachRest⟩ := hinsideReach
        have hobject' : IsObject files (isEntryException exclList)
            ⟨path ++ [slash] ++ name, inode⟩ :=
          ⟨hobject.1, (hhere hobject.1).trans hobject.2⟩
        have hforward := processEntries_forward rest hrest
        have hinnerForward : next.writes ≤ inner.writes := by
          cases descend with
          | true => exact processEntries_forward inside hinner
          | false =>
              cases hinner
              exact le_rfl
        obtain ⟨next', hentry', hsameNext, hevenNext, hkind⟩ := processEntry_whole hobject'
          hreadHere hsame heven hentry fun n hn =>
            hfull n (hn.trans_le (hinnerForward.trans hforward))
        have hobjId : run.objId = other.objId := by rw [hsame]
        rw [keptListing_object hdot hobject, processEntries_entry hnone hdot hname, hentry']
        cases descend with
        | true =>
            rw [if_pos (hkind rfl)] at hreachInside hreadInside
            rw [if_pos (hkind rfl)] at hreachInside
            rw [if_pos ⟨hkind rfl, hobject.2⟩] at hexcludedInside
            obtain ⟨inner', hinner', hsameInner, hevenInner⟩ := ihInside hexcludedInside
              hreachInside hreadInside hsameNext hevenNext hinner fun n hn =>
                hfull n (hn.trans_le hforward)
            obtain ⟨last', hlast', hresult⟩ := ihRest hexcludedRest hreachRest hreadRest
              hsameInner hevenInner hrest hfull
            refine ⟨last', ?_, hresult⟩
            change (processEntries leftover noFaults files noExceptions other.objId
              (path ++ [slash] ++ name) none _ next' >>= _) = _
            rw [← hobjId, hinner']
            exact hlast'
        | false =>
            cases hinner
            exact ihRest hexcludedRest hreachRest hreadRest hsameNext hevenNext hrest hfull
      · rw [objectsOf_rest hleft hdot hobject, objectsOf_rest hnone hdot hobject] at hreach
        rw [objectsOf_rest hnone hdot hobject] at hread
        have hskipped : ¬IsObject files (isEntryException exclList)
            ⟨path ++ [slash] ++ name, inode⟩ :=
          fun h => hobject ⟨h.1, hhere h.1 ▸ h.2⟩
        rw [processEntry_skipped hskipped] at hentry
        cases hentry
        cases hinner
        rw [keptListing_skipped hdot hobject]
        exact ihRest hexcludedRest hreach hread hsame heven hrest hfull

end Simulation

end OpenRecovery.Yaffs.Backup
