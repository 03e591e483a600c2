import OpenRecovery.BackupWrites
import OpenRecovery.YaffsRoundTrip
import Mathlib

/-!
# The walk through the tree

The walk visits entries, of which those that are not excluded become objects.  How it ends is
said by the names that it visits and by the number of inodes among its objects.
-/

namespace OpenRecovery.Yaffs.Backup

open SortedTable

/-! ## Visits -/

/-- An entry that the walk comes to. -/
structure Visit where
  fullName : Bytes
  inode : Inode

section Visits

variable (files : Inode → SourceFile) (excluded : Bytes → Bool) (cut : Bytes → Option Nat)

/-- The entries that are visited, where some directories end early. -/
def visitsOf (path : Bytes) : (left : Option Nat) → Listing → List Visit
  | _, .done => []
  | some 0, .entry _ _ _ _ => []
  | left, .entry name inode inside rest =>
      if IsDot name then visitsOf path (left.map (· - 1)) rest
      else
        let fullName := path ++ [slash] ++ name
        ⟨fullName, inode⟩ ::
          ((if (files inode).kind = .directory ∧ excluded fullName = false then
              visitsOf fullName (cut fullName) inside
            else []) ++ visitsOf path (left.map (· - 1)) rest)

/-- An object is made for an entry of a known type that is not excluded. -/
def IsObject (visit : Visit) : Prop :=
  (files visit.inode).kind ≠ .other ∧ excluded visit.fullName = false

instance (visit : Visit) : Decidable (IsObject files excluded visit) :=
  inferInstanceAs (Decidable (_ ∧ _))

def objectsOf (visits : List Visit) : List Visit :=
  visits.filter fun visit => IsObject files excluded visit

def objectInodes (visits : List Visit) : List Inode :=
  (objectsOf files excluded visits).map Visit.inode

end Visits

/-- The chunks of the image of a directory with these inodes, where an inode that comes again
makes a hard link. -/
def imageChunks (files : Inode → SourceFile) (seen : List Inode) : Nat :=
  1 + seen.length + ∑ inode ∈ seen.toFinset, dataChunks (files inode)

section Lists

variable {files : Inode → SourceFile} {excluded : Bytes → Bool} {cut : Bytes → Option Nat}

theorem visitsOf_entry {path name : Bytes} {left : Option Nat} {inode : Inode}
    {inside rest : Listing} (hleft : left ≠ some 0) (hdot : ¬IsDot name) :
    visitsOf files excluded cut path left (.entry name inode inside rest) =
      ⟨path ++ [slash] ++ name, inode⟩ ::
        ((if (files inode).kind = .directory ∧ excluded (path ++ [slash] ++ name) = false then
            visitsOf files excluded cut (path ++ [slash] ++ name)
              (cut (path ++ [slash] ++ name)) inside
          else []) ++ visitsOf files excluded cut path (left.map (· - 1)) rest) := by
  rw [visitsOf]
  · exact if_neg hdot
  · exact hleft

theorem visitsOf_dot {path name : Bytes} {left : Option Nat} {inode : Inode}
    {inside rest : Listing} (hleft : left ≠ some 0) (hdot : IsDot name) :
    visitsOf files excluded cut path left (.entry name inode inside rest) =
      visitsOf files excluded cut path (left.map (· - 1)) rest := by
  rw [visitsOf]
  · exact if_pos hdot
  · exact hleft

theorem visitsOf_zero (path : Bytes) (listing : Listing) :
    visitsOf files excluded cut path (some 0) listing = [] := by
  cases listing with
  | done => rfl
  | entry name inode inside rest => rfl

theorem objectInodes_append (first second : List Visit) :
    objectInodes files excluded (first ++ second) =
      objectInodes files excluded first ++ objectInodes files excluded second := by
  rw [objectInodes, objectsOf, List.filter_append, List.map_append]
  rfl

theorem objectInodes_object {visit : Visit} (hobject : IsObject files excluded visit) :
    objectInodes files excluded [visit] = [visit.inode] := by
  rw [objectInodes, objectsOf, List.filter_singleton, decide_eq_true hobject]
  rfl

theorem objectInodes_skipped {visit : Visit} (hskipped : ¬IsObject files excluded visit) :
    objectInodes files excluded [visit] = [] := by
  rw [objectInodes, objectsOf, List.filter_singleton, decide_eq_false hskipped]
  rfl

/-- The objects of a walk have inodes of the tree. -/
theorem objectInodes_sublist (path : Bytes) (left : Option Nat) (listing : Listing) :
    (objectInodes files excluded (visitsOf files excluded cut path left listing)).Sublist
      (listing.inodes files) := by
  induction listing generalizing path left with
  | done => exact List.Sublist.refl _
  | entry name inode inside rest ihInside ihRest =>
      by_cases hleft : left = some 0
      · rw [hleft, visitsOf_zero]
        exact List.nil_sublist _
      · rw [Listing.inodes]
        by_cases hdot : IsDot name
        · rw [visitsOf_dot hleft hdot, if_pos hdot]
          exact ihRest path _
        · rw [visitsOf_entry hleft hdot, if_neg hdot, ← List.singleton_append,
            ← List.singleton_append (l := _ ++ rest.inodes files), objectInodes_append,
            objectInodes_append]
          refine List.Sublist.append ?_ (List.Sublist.append ?_ (ihRest path _))
          · by_cases hobject : IsObject files excluded ⟨path ++ [slash] ++ name, inode⟩
            · rw [objectInodes_object hobject]
            · rw [objectInodes_skipped hobject]
              exact List.nil_sublist _
          · by_cases hkind : (files inode).kind = .directory
            · rw [if_pos hkind]
              split
              · exact ihInside _ _
              · exact List.nil_sublist _
            · rw [if_neg hkind, if_neg fun h => hkind h.1]
              exact List.Sublist.refl _

/-- Directories that end early lead to fewer visits. -/
theorem visitsOf_sublist (path : Bytes) (left : Option Nat) (listing : Listing) :
    (visitsOf files excluded cut path left listing).Sublist
      (visitsOf files excluded (fun _ => none) path none listing) := by
  have hnone : (none : Option Nat) ≠ some 0 := nofun
  induction listing generalizing path left with
  | done => exact List.Sublist.refl _
  | entry name inode inside rest ihInside ihRest =>
      by_cases hleft : left = some 0
      · rw [hleft, visitsOf_zero]
        exact List.nil_sublist _
      · by_cases hdot : IsDot name
        · rw [visitsOf_dot hleft hdot, visitsOf_dot hnone hdot]
          exact ihRest path _
        · rw [visitsOf_entry hleft hdot, visitsOf_entry hnone hdot]
          refine List.Sublist.cons_cons _ (List.Sublist.append ?_ (ihRest path _))
          split
          · exact ihInside _ _
          · exact List.Sublist.refl _

/-- Fewer objects make a smaller image. -/
theorem eq_of_imageChunks {first second : List Inode} (hsublist : first.Sublist second)
    (hchunks : imageChunks files second ≤ imageChunks files first) : first = second := by
  have hsum : ∑ inode ∈ first.toFinset, dataChunks (files inode) ≤
      ∑ inode ∈ second.toFinset, dataChunks (files inode) := by
    refine Finset.sum_le_sum_of_subset fun inode hinode => ?_
    rw [List.mem_toFinset] at hinode ⊢
    exact hsublist.subset hinode
  have hlength := hsublist.length_le
  rw [imageChunks, imageChunks] at hchunks
  exact hsublist.eq_of_length (by omega)

theorem imageChunks_again {seen : List Inode} {inode : Inode} (hinode : inode ∈ seen) :
    imageChunks files (seen ++ [inode]) = imageChunks files seen + 1 := by
  have hset : (seen ++ [inode]).toFinset = seen.toFinset := by
    ext other
    simp only [List.mem_toFinset, List.mem_append, List.mem_singleton]
    exact ⟨fun h => h.elim id fun hsame => hsame ▸ hinode, Or.inl⟩
  rw [imageChunks, imageChunks, hset, List.length_append, List.length_singleton]
  omega

theorem toFinset_new (seen : List Inode) (inode : Inode) :
    (seen ++ [inode]).toFinset = insert inode seen.toFinset := by
  ext other
  simp only [List.mem_toFinset, List.mem_append, List.mem_singleton, Finset.mem_insert]
  exact or_comm

theorem imageChunks_new {seen : List Inode} {inode : Inode} (hinode : inode ∉ seen) :
    imageChunks files (seen ++ [inode]) =
      imageChunks files seen + (1 + dataChunks (files inode)) := by
  rw [imageChunks, imageChunks, toFinset_new,
    Finset.sum_insert fun h => hinode (List.mem_toFinset.mp h), List.length_append,
    List.length_singleton]
  omega

end Lists

/-! ## The table of inodes -/

/-- The table has one item for each inode. -/
structure TableOf (seen : List Inode) (objList : List ObjItem) : Prop where
  sorted : Sorted objCompare objList
  positive : ∀ item ∈ objList, 0 < item.obj
  covers : ∀ inode, inode ∈ seen ↔ ∃ item ∈ objList, item.inode = inode
  count : objList.length = seen.toFinset.card

section Table

variable {seen : List Inode} {objList : List ObjItem} {inode : Inode}

theorem tableOf_nil : TableOf [] [] where
  sorted := List.Pairwise.nil
  positive := List.forall_mem_nil _
  covers := fun _ => ⟨fun h => absurd h List.not_mem_nil, fun ⟨_, h, _⟩ =>
    absurd h List.not_mem_nil⟩
  count := rfl

theorem TableOf.find_iff (htable : TableOf seen objList) :
    findObjInList objList inode > 0 ↔ inode ∈ seen := by
  rw [findObjInList, htable.covers]
  constructor
  · intro hfound
    cases hsearch : bsearch objCompare ⟨inode, 0⟩ objList with
    | none =>
        rw [hsearch] at hfound
        exact absurd hfound (by decide)
    | some item =>
        obtain ⟨hmem, hzero⟩ := bsearch_sound hsearch
        have hsame : inode = item.inode := objCompare_eq_zero.1 hzero
        exact ⟨item, hmem, hsame.symm⟩
  · rintro ⟨item, hmem, hitem⟩
    have hsearch : bsearch objCompare ⟨inode, 0⟩ objList = some item :=
      bsearch_complete objCompare_orders htable.sorted hmem (objCompare_eq_zero.2 hitem.symm)
    rw [hsearch]
    exact Int.natCast_pos.mpr (htable.positive item hmem)

/-- A hard link leaves the table as it is. -/
theorem TableOf.again (htable : TableOf seen objList) (hinode : inode ∈ seen) :
    TableOf (seen ++ [inode]) objList where
  sorted := htable.sorted
  positive := htable.positive
  covers := by
    intro other
    rw [← htable.covers, List.mem_append, List.mem_singleton]
    exact ⟨fun h => h.elim id fun hsame => hsame ▸ hinode, Or.inl⟩
  count := by
    rw [htable.count, toFinset_new, Finset.insert_eq_of_mem (List.mem_toFinset.mpr hinode)]

theorem TableOf.add (htable : TableOf seen objList) (hinode : inode ∉ seen) {obj : Nat}
    (hobj : 0 < obj) (hroom : seen.toFinset.card < maxObjects) :
    ∃ added, addObjToList objList inode obj = .ok added ∧ TableOf (seen ++ [inode]) added := by
  refine ⟨_, if_pos (htable.count ▸ hroom), ⟨?_, ?_, ?_, ?_⟩⟩
  · apply sorted_qsort objCompare_orders
    rw [List.pairwise_append]
    refine ⟨htable.sorted.imp fun hlt => hlt.ne, List.pairwise_singleton _ _, ?_⟩
    intro item hitem last hlast hzero
    obtain rfl := List.mem_singleton.1 hlast
    exact hinode ((htable.covers inode).mpr ⟨item, hitem, objCompare_eq_zero.1 hzero⟩)
  · intro item hitem
    rw [mem_qsort] at hitem
    rcases List.mem_append.1 hitem with hold | hlast
    · exact htable.positive item hold
    · obtain rfl := List.mem_singleton.1 hlast
      exact hobj
  · intro other
    rw [List.mem_append, List.mem_singleton, htable.covers]
    constructor
    · rintro (⟨item, hmem, hitem⟩ | rfl)
      · exact ⟨item, mem_qsort.2 (List.mem_append_left _ hmem), hitem⟩
      · exact ⟨_, mem_qsort.2 (List.mem_append_right _ (List.mem_singleton_self _)), rfl⟩
    · rintro ⟨item, hmem, hitem⟩
      rw [mem_qsort] at hmem
      rcases List.mem_append.1 hmem with hold | hlast
      · exact Or.inl ⟨item, hold, hitem⟩
      · obtain rfl := List.mem_singleton.1 hlast
        exact Or.inr hitem.symm
  · rw [length_qsort, List.length_append, htable.count, toFinset_new,
      Finset.card_insert_of_notMem fun h => hinode (List.mem_toFinset.mp h)]
    rfl

end Table

/-! ## What has been written -/

/-- The objects made so far are in the table, and the image has what it is owed at most. -/
structure Written (faults : Faults) (files : Inode → SourceFile) (seen : List Inode)
    (run : Run) : Prop where
  table : TableOf seen run.objList
  objId : 0 < run.objId
  grown : ∃ start, start.image = [] ∧ start.writes = 0 ∧
    Grows faults (imageChunks files seen) (∀ inode ∈ seen, ReadWhole faults files inode) start run

section Steps

variable {leftover : UInt32 → UInt32 → Nat → UInt8} {faults : Faults}
  {files : Inode → SourceFile} {exclList : Exceptions} {seen : List Inode} {run : Run}

theorem Written.size (hwritten : Written faults files seen run) :
    run.image.length ≤ recordSize * imageChunks files seen := by
  obtain ⟨start, himage, -, hgrown⟩ := hwritten.grown
  have hsize := hgrown.size
  rw [himage, List.length_nil, Nat.zero_add] at hsize
  exact hsize

theorem Written.writes (hwritten : Written faults files seen run) :
    run.writes ≤ 2 * imageChunks files seen := by
  obtain ⟨start, -, hstart, hgrown⟩ := hwritten.grown
  have hwrites := hgrown.writes
  rw [hstart, Nat.zero_add] at hwrites
  exact hwrites

/-- An image that has what it is owed has been written without faults. -/
theorem Written.whole (hwritten : Written faults files seen run)
    (hlength : run.image.length = recordSize * imageChunks files seen) :
    (∀ n < 2 * imageChunks files seen, Full faults n) ∧
      ∀ inode ∈ seen, ReadWhole faults files inode := by
  obtain ⟨start, himage, hstart, hgrown⟩ := hwritten.grown
  have hwhole := hgrown.whole
  rw [himage, List.length_nil, Nat.zero_add, hstart, Nat.zero_add] at hwhole
  obtain ⟨hread, hwrites, hfull⟩ := hwhole hlength
  exact ⟨fun n hn => hfull rfl n (Nat.zero_le n) (hwrites ▸ hn), hread⟩

/-- An operation goes on from the same image with another table. -/
theorem Written.step {objList : List ObjItem} {objId owed : Nat} {readable : Prop}
    {inode : Inode} {next : Run} (hwritten : Written faults files seen run)
    (htable : TableOf (seen ++ [inode]) objList) (hobjId : 0 < objId)
    (hgrows : Grows faults owed readable { run with objList := objList, objId := objId } next)
    (hchunks : imageChunks files (seen ++ [inode]) = imageChunks files seen + owed)
    (hread : (∀ other ∈ seen, ReadWhole faults files other) →
      (readable ↔ ReadWhole faults files inode)) :
    Written faults files (seen ++ [inode]) next := by
  obtain ⟨start, himage, hstart, hgrown⟩ := hwritten.grown
  refine ⟨hgrows.objList ▸ htable, hgrows.objId ▸ hobjId,
    { start with objList := objList, objId := objId }, himage, hstart, ?_⟩
  have hsame : Grows faults (imageChunks files seen)
      (∀ other ∈ seen, ReadWhole faults files other)
      { start with objList := objList, objId := objId }
      { run with objList := objList, objId := objId } :=
    ⟨rfl, rfl, hgrown.forward, hgrown.writes, hgrown.size, hgrown.whole, hgrown.exact⟩
  rw [hchunks]
  refine (hsame.trans hgrows).congr ?_
  rw [List.forall_mem_append, List.forall_mem_singleton]
  exact and_congr_right hread

/-- What is written without faults is all that is owed. -/
theorem Written.exact (hwritten : Written noFaults files seen run) :
    run.image.length = recordSize * imageChunks files seen := by
  obtain ⟨start, himage, hstart, hgrown⟩ := hwritten.grown
  have hlength := hgrown.exact (fun inode _ => noFaults_readWhole files inode)
    (by rw [hstart]) fun n _ _ => noFaults_full n
  rw [himage, List.length_nil, Nat.zero_add] at hlength
  exact hlength

theorem processEntry_skipped {parent : Nat} {name fullName : Bytes} {inode : Inode}
    (hskipped : ¬IsObject files (isEntryException exclList) ⟨fullName, inode⟩) :
    processEntry leftover faults files exclList parent name fullName inode run =
      .ok (run, false) := by
  rw [processEntry]
  dsimp only
  by_cases hkind : (files inode).kind = .other
  · rw [if_pos hkind]
  · rw [if_neg hkind]
    refine if_pos ?_
    by_contra hnot
    exact hskipped ⟨hkind, eq_false_of_ne_true hnot⟩

theorem processEntry_object {parent : Nat} {name fullName : Bytes} {inode : Inode}
    (hobject : IsObject files (isEntryException exclList) ⟨fullName, inode⟩) :
    processEntry leftover faults files exclList parent name fullName inode run =
      if findObjInList run.objList inode > 0 then
        .ok (makeHeader leftover faults run.objId .hardlink (files inode) parent name
          (findObjInList run.objList inode) [] { run with objId := run.objId + 1 }, false)
      else
        addObjToList run.objList inode run.objId >>= fun objList =>
          pure (writeObject leftover faults files run.objId parent name inode
            { run with objList := objList, objId := run.objId + 1 },
            decide ((files inode).kind = .directory)) := by
  rw [processEntry]
  dsimp only
  rw [if_neg hobject.1, if_neg (ne_true_of_eq_false hobject.2)]

/-- An object is written, or there is no room for another inode. -/
theorem processEntry_written {parent : Nat} {name fullName : Bytes} {inode : Inode}
    (hwritten : Written faults files seen run) (hroom : seen.toFinset.card ≤ maxObjects)
    (hobject : IsObject files (isEntryException exclList) ⟨fullName, inode⟩)
    (hdirectory : (files inode).kind = .directory → inode ∉ seen) :
    (∃ next, processEntry leftover faults files exclList parent name fullName inode run =
        .ok (next, decide ((files inode).kind = .directory)) ∧
      Written faults files (seen ++ [inode]) next ∧
      (seen ++ [inode]).toFinset.card ≤ maxObjects) ∨
    processEntry leftover faults files exclList parent name fullName inode run =
        .error .objectArray ∧
      maxObjects < (seen ++ [inode]).toFinset.card := by
  rw [processEntry_object hobject]
  by_cases hfound : findObjInList run.objList inode > 0
  · have hinode := hwritten.table.find_iff.mp hfound
    have hplain : (files inode).kind ≠ .directory := fun h => hdirectory h hinode
    left
    rw [if_pos hfound, decide_eq_false hplain]
    refine ⟨_, rfl, ?_, ?_⟩
    · exact hwritten.step (hwritten.table.again hinode) (Nat.succ_pos run.objId)
        (makeHeader_grows leftover faults _ _ _ _ _ _ _ _).1 (imageChunks_again hinode)
        fun hothers => ⟨fun _ => hothers inode hinode, fun _ => trivial⟩
    · rw [toFinset_new, Finset.insert_eq_of_mem (List.mem_toFinset.mpr hinode)]
      exact hroom
  · have hinode : inode ∉ seen := fun h => hfound (hwritten.table.find_iff.mpr h)
    have hcard : (seen ++ [inode]).toFinset.card = seen.toFinset.card + 1 := by
      rw [toFinset_new, Finset.card_insert_of_notMem fun h => hinode (List.mem_toFinset.mp h)]
    rw [if_neg hfound]
    by_cases hfree : seen.toFinset.card < maxObjects
    · obtain ⟨added, hadded, htable⟩ := hwritten.table.add hinode hwritten.objId hfree
      left
      rw [hadded]
      exact ⟨_, rfl, hwritten.step htable (Nat.succ_pos run.objId)
        (writeObject_grows leftover inode files faults _ _ _ _) (imageChunks_new hinode)
        fun _ => Iff.rfl, by omega⟩
    · right
      rw [addObjToList, if_neg (hwritten.table.count ▸ hfree)]
      exact ⟨rfl, by omega⟩

end Steps

/-! ## How the walk ends -/

/-- What may become of a walk that comes to some visits. -/
inductive Outcome (faults : Faults) (files : Inode → SourceFile) (excluded : Bytes → Bool)
    (seen : List Inode) (visits : List Visit) : Except Fault Run → Prop where
  | done {run : Run} (hnames : ∀ visit ∈ visits, visit.fullName.length < sizeofFullName)
      (hroom : (seen ++ objectInodes files excluded visits).toFinset.card ≤ maxObjects)
      (hwritten : Written faults files (seen ++ objectInodes files excluded visits) run) :
      Outcome faults files excluded seen visits (.ok run)
  | overflow {earlier later : List Visit} {visit : Visit}
      (hvisits : visits = earlier ++ visit :: later)
      (hlong : ¬visit.fullName.length < sizeofFullName)
      (hroom : (seen ++ objectInodes files excluded earlier).toFinset.card ≤ maxObjects) :
      Outcome faults files excluded seen visits (.error .fullName)
  | full {earlier later : List Visit} (hvisits : visits = earlier ++ later)
      (hnames : ∀ visit ∈ earlier, visit.fullName.length < sizeofFullName)
      (hmany : maxObjects < (seen ++ objectInodes files excluded earlier).toFinset.card) :
      Outcome faults files excluded seen visits (.error .objectArray)

section Walk

variable {leftover : UInt32 → UInt32 → Nat → UInt8} {faults : Faults}
  {files : Inode → SourceFile} {excluded : Bytes → Bool} {seen : List Inode}
  {first second : List Visit}

/-- What is visited later does not matter to a walk that has stopped. -/
theorem Outcome.stopped {fault : Fault}
    (houtcome : Outcome faults files excluded seen first (.error fault)) (second : List Visit) :
    Outcome faults files excluded seen (first ++ second) (.error fault) := by
  cases houtcome with
  | overflow hvisits hlong hroom =>
      rw [hvisits, List.append_assoc, List.cons_append]
      exact .overflow rfl hlong hroom
  | full hvisits hnames hmany =>
      rw [hvisits, List.append_assoc]
      exact .full rfl hnames hmany

theorem Outcome.later {result : Except Fault Run}
    (hnames : ∀ visit ∈ first, visit.fullName.length < sizeofFullName)
    (houtcome : Outcome faults files excluded (seen ++ objectInodes files excluded first) second
      result) :
    Outcome faults files excluded seen (first ++ second) result := by
  have hall : ∀ {visits : List Visit},
      (∀ visit ∈ visits, visit.fullName.length < sizeofFullName) →
        ∀ visit ∈ first ++ visits, visit.fullName.length < sizeofFullName := by
    intro visits hvisits visit hvisit
    exact (List.mem_append.mp hvisit).elim (hnames visit) (hvisits visit)
  cases houtcome with
  | done hnamesSecond hroom hwritten =>
      rw [List.append_assoc, ← objectInodes_append] at hroom hwritten
      exact .done (hall hnamesSecond) hroom hwritten
  | overflow hvisits hlong hroom =>
      rw [List.append_assoc, ← objectInodes_append] at hroom
      rw [hvisits, ← List.append_assoc]
      exact .overflow rfl hlong hroom
  | full hvisits hnamesSecond hmany =>
      rw [List.append_assoc, ← objectInodes_append] at hmany
      rw [hvisits, ← List.append_assoc]
      exact .full rfl (hall hnamesSecond) hmany

variable {exclList : Exceptions} {parent : Nat} {path name : Bytes} {left : Option Nat}
  {inode : Inode} {inside rest : Listing} {run : Run}

theorem processEntries_zero (listing : Listing) :
    processEntries leftover faults files exclList parent path (some 0) listing run = .ok run := by
  cases listing with
  | done => rfl
  | entry name inode inside rest => rfl

theorem processEntries_dot (hleft : left ≠ some 0) (hdot : IsDot name) :
    processEntries leftover faults files exclList parent path left
        (.entry name inode inside rest) run =
      processEntries leftover faults files exclList parent path (left.map (· - 1)) rest run := by
  rw [processEntries]
  · exact if_pos hdot
  · exact hleft

theorem processEntries_entry (hleft : left ≠ some 0) (hdot : ¬IsDot name)
    (hname : (path ++ [slash] ++ name).length < sizeofFullName) :
    processEntries leftover faults files exclList parent path left
        (.entry name inode inside rest) run =
      (processEntry leftover faults files exclList parent name (path ++ [slash] ++ name) inode
          run >>= fun result =>
        (if result.2 then
          processEntries leftover faults files exclList run.objId (path ++ [slash] ++ name)
            (faults.cut (path ++ [slash] ++ name)) inside result.1
        else pure result.1) >>= fun next =>
          processEntries leftover faults files exclList parent path (left.map (· - 1)) rest
            next) := by
  rw [processEntries]
  · rw [if_neg hdot]
    refine (if_pos hname).trans ?_
    cases processEntry leftover faults files exclList parent name (path ++ [slash] ++ name) inode
      run with
    | error fault => rfl
    | ok result =>
        obtain ⟨next, descend⟩ := result
        cases descend with
        | true => rfl
        | false => rfl
  · exact hleft

theorem processEntries_long (hleft : left ≠ some 0) (hdot : ¬IsDot name)
    (hname : ¬(path ++ [slash] ++ name).length < sizeofFullName) :
    processEntries leftover faults files exclList parent path left
        (.entry name inode inside rest) run = .error .fullName := by
  rw [processEntries]
  · rw [if_neg hdot]
    exact if_neg hname
  · exact hleft

/-- One walk after the other. -/
theorem Outcome.bind {result : Except Fault Run} {go : Run → Except Fault Run}
    (houtcome : Outcome faults files excluded seen first result)
    (hgo : ∀ run, (seen ++ objectInodes files excluded first).toFinset.card ≤ maxObjects →
      Written faults files (seen ++ objectInodes files excluded first) run →
      Outcome faults files excluded (seen ++ objectInodes files excluded first) second (go run)) :
    Outcome faults files excluded seen (first ++ second) (result >>= go) := by
  cases result with
  | error fault => exact houtcome.stopped second
  | ok run =>
      cases houtcome with
      | done hnames hroom hwritten => exact (hgo run hroom hwritten).later hnames

theorem outcome_nil (hwritten : Written faults files seen run)
    (hroom : seen.toFinset.card ≤ maxObjects) :
    Outcome faults files excluded seen [] (.ok run) := by
  have hsame : seen ++ objectInodes files excluded [] = seen := List.append_nil seen
  rw [← hsame] at hroom hwritten
  exact .done (List.forall_mem_nil _) hroom hwritten

/-- The directories of a tree are those of its parts. -/
theorem nodup_directories {before part whole : List Inode}
    (hwhole : ((before ++ whole).filter fun inode => (files inode).kind = .directory).Nodup)
    (hpart : part.Sublist whole) :
    ((before ++ part).filter fun inode => (files inode).kind = .directory).Nodup :=
  hwhole.sublist (((List.Sublist.refl before).append hpart).filter _)

/-- The walk through a directory. -/
theorem processEntries_outcome (listing : Listing) {seen : List Inode} {run : Run}
    (parent : Nat) (path : Bytes) (left : Option Nat)
    (hwritten : Written faults files seen run) (hroom : seen.toFinset.card ≤ maxObjects)
    (hdirectories : ((seen ++ listing.inodes files).filter fun inode =>
      (files inode).kind = .directory).Nodup) :
    Outcome faults files (isEntryException exclList) seen
      (visitsOf files (isEntryException exclList) faults.cut path left listing)
      (processEntries leftover faults files exclList parent path left listing run) := by
  induction listing generalizing seen run parent path left with
  | done => exact outcome_nil hwritten hroom
  | entry name inode inside rest ihInside ihRest =>
      by_cases hleft : left = some 0
      · rw [hleft, visitsOf_zero, processEntries_zero]
        exact outcome_nil hwritten hroom
      by_cases hdot : IsDot name
      · rw [visitsOf_dot hleft hdot, processEntries_dot hleft hdot]
        rw [Listing.inodes, if_pos hdot] at hdirectories
        exact ihRest parent path _ hwritten hroom hdirectories
      rw [Listing.inodes, if_neg hdot] at hdirectories
      rw [visitsOf_entry hleft hdot, ← List.singleton_append]
      by_cases hname : (path ++ [slash] ++ name).length < sizeofFullName
      case neg =>
        rw [processEntries_long hleft hdot hname]
        have hsame : seen ++ objectInodes files (isEntryException exclList) [] = seen :=
          List.append_nil seen
        rw [← hsame] at hroom
        exact .overflow (List.nil_append _).symm hname hroom
      rw [processEntries_entry hleft hdot hname]
      have hone : ∀ visit ∈ [Visit.mk (path ++ [slash] ++ name) inode],
          visit.fullName.length < sizeofFullName := by
        intro visit hvisit
        rw [List.mem_singleton.mp hvisit]
        exact hname
      -- what is inside, and then the rest, after the entry itself
      have hafter : ∀ {seen' : List Inode} {visits : List Visit}
          {result : Except Fault Run},
          Outcome faults files (isEntryException exclList) seen' visits result →
          ((seen' ++ objectInodes files (isEntryException exclList) visits ++
            rest.inodes files).filter fun inode => (files inode).kind = .directory).Nodup →
          Outcome faults files (isEntryException exclList) seen' (visits ++
            visitsOf files (isEntryException exclList) faults.cut path (left.map (· - 1)) rest)
            (result >>= fun next => processEntries leftover faults files exclList parent path
              (left.map (· - 1)) rest next) := by
        intro seen' visits result houtcome hnodup
        exact houtcome.bind fun last hcard hlast => ihRest parent path _ hlast hcard hnodup
      by_cases hobject : IsObject files (isEntryException exclList)
          ⟨path ++ [slash] ++ name, inode⟩
      · have hnew : (files inode).kind = .directory → inode ∉ seen := by
          intro hkind hinode
          rw [List.filter_append, List.filter_cons, if_pos (decide_eq_true hkind),
            List.nodup_append] at hdirectories
          exact hdirectories.2.2 inode
            (List.mem_filter.mpr ⟨hinode, decide_eq_true hkind⟩) inode
            (List.mem_cons_self ..) rfl
        rcases processEntry_written hwritten hroom hobject hnew with
          ⟨next, hentry, hnext, hroomNext⟩ | ⟨hentry, hmany⟩
        · rw [hentry]
          refine Outcome.later hone ?_
          rw [objectInodes_object hobject]
          change Outcome _ _ _ _ _ ((if decide ((files inode).kind = .directory) then _ else _) >>=
            _)
          rw [← List.singleton_append, ← List.append_assoc] at hdirectories
          by_cases hkind : (files inode).kind = .directory
          · rw [if_pos hkind] at hdirectories
            rw [if_pos ⟨hkind, hobject.2⟩, if_pos (decide_eq_true hkind)]
            refine hafter (ihInside _ _ _ hnext hroomNext ?_) ?_
            · exact nodup_directories hdirectories (List.sublist_append_left _ _)
            · rw [List.append_assoc]
              exact nodup_directories hdirectories
                ((objectInodes_sublist _ _ _).append (List.Sublist.refl _))
          · rw [if_neg hkind] at hdirectories
            rw [if_neg fun h => hkind h.1, if_neg (ne_true_of_eq_false (decide_eq_false hkind))]
            rw [List.nil_append] at hdirectories
            refine hafter (outcome_nil hnext hroomNext) ?_
            rw [show objectInodes files (isEntryException exclList) [] = [] from rfl,
              List.append_nil]
            exact hdirectories
        · rw [hentry]
          refine .full rfl hone ?_
          rw [objectInodes_object hobject]
          exact hmany
      · rw [processEntry_skipped hobject]
        refine Outcome.later hone ?_
        rw [objectInodes_skipped hobject, List.append_nil, if_neg]
        · refine hafter (outcome_nil hwritten hroom) ?_
          rw [show objectInodes files (isEntryException exclList) [] = [] from rfl,
            List.append_nil]
          exact nodup_directories hdirectories ((List.sublist_append_right _ _).cons _)
        · rintro ⟨hkind, hfalse⟩
          exact hobject ⟨by rw [hkind]; nofun, hfalse⟩

end Walk

end OpenRecovery.Yaffs.Backup
