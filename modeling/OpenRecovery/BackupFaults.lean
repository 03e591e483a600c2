import OpenRecovery.BackupImages
import Mathlib

/-!
# Backups that fail

The exit status says nothing about the writes and reads of the walk.  What it does say is that
the table of inodes has been large enough.
-/

namespace OpenRecovery.Yaffs.Backup

/-! ## What a tree asks for -/

/-- The tree without the entries for which no object is made. -/
def keptTree (tree : SourceTree) (excluded : Bytes → Bool) : SourceTree where
  files := tree.files
  path := tree.path
  directory := tree.directory
  listing := keptListing tree.files excluded tree.path tree.listing
  directories := tree.directories.sublist ((keptListing_inodes _ _).filter _)

/-- The entries of the tree that are no further away than the excluded ones. -/
def allVisits (tree : SourceTree) (excluded : Bytes → Bool) : List Visit :=
  visitsOf tree.files excluded noCut tree.path none tree.listing

/-- Those of them to which the walk comes in spite of the faults. -/
def reachedVisits (faults : Faults) (tree : SourceTree) (excluded : Bytes → Bool) : List Visit :=
  visitsOf tree.files excluded faults.cut tree.path (faults.cut tree.path) tree.listing

/-- The walk comes to a name that does not fit into its buffer. -/
def Overruns (files : Inode → SourceFile) (excluded : Bytes → Bool) (visits : List Visit) : Prop :=
  ∃ earlier visit later, visits = earlier ++ visit :: later ∧
    ¬visit.fullName.length < sizeofFullName ∧
    (objectInodes files excluded earlier).toFinset.card ≤ maxObjects

/-- The walk comes to more inodes than the table has room for. -/
def TooMany (files : Inode → SourceFile) (excluded : Bytes → Bool) (visits : List Visit) : Prop :=
  ∃ earlier later, visits = earlier ++ later ∧
    (∀ visit ∈ earlier, visit.fullName.length < sizeofFullName) ∧
    maxObjects < (objectInodes files excluded earlier).toFinset.card

section Ends

variable {files : Inode → SourceFile} {excluded : Bytes → Bool} {visits : List Visit}

theorem card_objectInodes_le (files : Inode → SourceFile) (excluded : Bytes → Bool)
    (first second : List Visit) :
    (objectInodes files excluded first).toFinset.card ≤
      (objectInodes files excluded (first ++ second)).toFinset.card := by
  refine Finset.card_le_card fun inode hinode => ?_
  rw [objectInodes_append, List.toFinset_append]
  exact Finset.mem_union_left _ hinode

/-- Only one of the two comes first. -/
theorem TooMany.not_overruns (hmany : TooMany files excluded visits) :
    ¬Overruns files excluded visits := by
  obtain ⟨before, after, hsplit, hnames, hcard⟩ := hmany
  rintro ⟨earlier, visit, later, hvisits, hlong, hroom⟩
  rw [hvisits] at hsplit
  rcases List.append_eq_append_iff.mp hsplit with ⟨middle, hbefore, hrest⟩ | ⟨middle, hearlier, -⟩
  · cases middle with
    | nil =>
        rw [hbefore, List.append_nil] at hcard
        omega
    | cons first middle =>
        rw [List.cons_append, List.cons.injEq] at hrest
        obtain ⟨rfl, -⟩ := hrest
        refine hlong (hnames visit ?_)
        rw [hbefore]
        exact List.mem_append_right _ (List.mem_cons_self ..)
  · have hle := card_objectInodes_le files excluded before middle
    rw [← hearlier] at hle
    omega

/-- A walk that comes to its end meets neither. -/
theorem not_overruns (hnames : ∀ visit ∈ visits, visit.fullName.length < sizeofFullName) :
    ¬Overruns files excluded visits := by
  rintro ⟨earlier, visit, later, rfl, hlong, -⟩
  exact hlong (hnames visit (List.mem_append_right _ (List.mem_cons_self ..)))

theorem not_tooMany (hroom : (objectInodes files excluded visits).toFinset.card ≤ maxObjects) :
    ¬TooMany files excluded visits := by
  rintro ⟨earlier, later, rfl, -, hmany⟩
  have hle := card_objectInodes_le files excluded earlier later
  omega

theorem objectsOf_objectsOf (visits : List Visit) :
    objectsOf files (fun _ => false) (objectsOf files excluded visits) =
      objectsOf files excluded visits := by
  refine List.filter_eq_self.mpr fun visit hvisit => ?_
  have hobject := of_decide_eq_true (List.mem_filter.mp hvisit).2
  exact decide_eq_true ⟨hobject.1, rfl⟩

end Ends

/-! ## The root directory -/

/-- The write of the first spare area returns zero, which is taken for a result that needs no
walk. -/
def SkipsWalk (faults : Faults) : Prop :=
  faults.write 0 ≠ none ∧ faults.write 1 = some 0

section Root

variable (leftover : UInt32 → UInt32 → Nat → UInt8) {faults : Faults} {exclList : Exceptions}

/-- The state behind the header of the root directory. -/
def rootRun (faults : Faults) (directory : SourceFile) : Run :=
  makeHeader leftover faults objectIdRoot .directory directory objectIdRoot [] (-1) []
    ⟨[], nobjectBuckets + 1, 0, [], 0⟩

theorem rootRun_written (files : Inode → SourceFile) (directory : SourceFile) :
    Written faults files [] (rootRun leftover faults directory) := by
  obtain ⟨hgrows, -⟩ := makeHeader_grows leftover faults ⟨[], nobjectBuckets + 1, 0, [], 0⟩
    objectIdRoot .directory directory objectIdRoot [] (-1) []
  refine ⟨?_, ?_, ⟨[], nobjectBuckets + 1, 0, [], 0⟩, rfl, rfl, ?_⟩
  · exact hgrows.objList ▸ tableOf_nil
  · exact hgrows.objId ▸ Nat.succ_pos _
  · exact hgrows.congr ⟨fun _ => List.forall_mem_nil _, fun _ => trivial⟩

theorem rootRun_error (directory : SourceFile) :
    (rootRun leftover faults directory).error = 0 ↔ SkipsWalk faults := by
  have hspare := spareArea_length leftover (UInt32.ofNat objectIdRoot) 0 0xffff
  have hpos : 0 < spareSize := by decide
  rw [rootRun, makeHeader, writeObjectHeader, SkipsWalk]
  cases hfirst : faults.write 0 with
  | none =>
      rw [writeChunk_failed leftover _ _ _ _ hfirst]
      exact iff_of_false (show ¬(-1 : Int) = 0 by decide) fun h => h.1 rfl
  | some count =>
      rw [writeChunk_taken leftover _ _ _ _ hfirst]
      cases hsecond : faults.write 1 with
      | none =>
          rw [write_none hsecond]
          exact iff_of_false (show ¬(-1 : Int) = 0 by decide) fun h => by cases h.2
      | some rest =>
          rw [write_some hsecond]
          dsimp only
          rw [List.length_take, hspare, Option.some.injEq]
          constructor
          · intro hzero
            exact ⟨(by simp), by omega⟩
          · rintro ⟨-, rfl⟩
            rfl

theorem rootRun_skips (directory : SourceFile) (hskips : SkipsWalk faults) :
    (rootRun leftover faults directory).image.length < recordSize := by
  have hsize := (@rootRun_written leftover faults (fun _ => directory) directory).size
  by_contra hnot
  have hwhole := (@rootRun_written leftover faults (fun _ => directory)
    directory).whole (by
      change _ = recordSize * 1
      change _ ≤ recordSize * 1 at hsize
      omega)
  obtain ⟨count, hwrite, hcount⟩ := hwhole.1 1 (show 1 < 2 * 1 by decide)
  rw [hskips.2] at hwrite
  cases hwrite
  exact absurd hcount (by decide)

/-- How the tool ends if it walks. -/
theorem makeImage_outcome {tree : SourceTree} (hopen : faults.openImage = false)
    (hwalk : ¬SkipsWalk faults) :
    ∃ result, Outcome faults tree.files (isEntryException exclList) []
        (reachedVisits faults tree (isEntryException exclList)) result ∧
      result = processEntries leftover faults tree.files exclList objectIdRoot tree.path
        (faults.cut tree.path) tree.listing (rootRun leftover faults tree.directory) ∧
      makeImage leftover faults exclList tree = result.map fun run => (0, run.image) := by
  refine ⟨_, @processEntries_outcome leftover _ _ _ tree.listing _ _ objectIdRoot tree.path
    (faults.cut tree.path) (rootRun_written leftover tree.files tree.directory) (Nat.zero_le _)
    tree.directories, rfl, ?_⟩
  rw [makeImage, if_neg (ne_true_of_eq_false hopen)]
  refine (if_pos fun h => hwalk ((rootRun_error leftover tree.directory).mp h)).trans ?_
  change (processEntries leftover faults tree.files exclList objectIdRoot tree.path
    (faults.cut tree.path) tree.listing (rootRun leftover faults tree.directory) >>= _) = _
  cases processEntries leftover faults tree.files exclList objectIdRoot tree.path
      (faults.cut tree.path) tree.listing (rootRun leftover faults tree.directory) with
  | error fault => rfl
  | ok last => rfl

end Root

/-! ## Complete images -/

/-- Nothing of what the tree asks for is lost: the walk comes to all objects, all writes are full
and all files are read to their end. -/
structure NothingLost (faults : Faults) (exclList : Exceptions) (tree : SourceTree) : Prop where
  reached : objectsOf tree.files (isEntryException exclList)
      (reachedVisits faults tree (isEntryException exclList)) =
    objectsOf tree.files (isEntryException exclList) (allVisits tree (isEntryException exclList))
  written : ∀ n < 2 * imageChunks tree.files (objectInodes tree.files (isEntryException exclList)
      (allVisits tree (isEntryException exclList))), Full faults n
  read : ∀ visit ∈ objectsOf tree.files (isEntryException exclList)
      (allVisits tree (isEntryException exclList)), ReadWhole faults tree.files visit.inode

/-- The tool exits with status 2, or its exit status is zero only if the image is the one of the
tree without what is excluded. -/
def ReportsFailures (faults : Faults) (exclList : Exceptions) (tree : SourceTree) : Prop :=
  ∀ leftover, makeImage leftover faults exclList tree = .error .objectArray ∨
    ∃ status image, makeImage leftover faults exclList tree = .ok (status, image) ∧
      (status = 0 → Yaffs.mkyaffs2image leftover tree.files tree.path tree.directory
        (keptListing tree.files (isEntryException exclList) tree.path tree.listing) = .ok image)

section Complete

variable {leftover : UInt32 → UInt32 → Nat → UInt8} {faults : Faults} {exclList : Exceptions}
  {tree : SourceTree} {excluded : Bytes → Bool}

theorem noFaults_walks : ¬SkipsWalk noFaults := fun h => nomatch h.2

/-- The size of the image that is asked for. -/
theorem image_length {image : Bytes}
    (himage : Yaffs.mkyaffs2image leftover tree.files tree.path tree.directory
      (keptListing tree.files excluded tree.path tree.listing) = .ok image) :
    image.length = recordSize *
      imageChunks tree.files (objectInodes tree.files excluded (allVisits tree excluded)) := by
  have hmake := makeImage_noFaults leftover (keptTree tree excluded)
  obtain ⟨result, houtcome, -, hresult⟩ := @makeImage_outcome leftover noFaults noExceptions
    (keptTree tree excluded) rfl noFaults_walks
  rw [hresult] at hmake
  change _ = Except.map _ (Yaffs.mkyaffs2image leftover tree.files tree.path tree.directory
    (keptListing tree.files excluded tree.path tree.listing)) at hmake
  rw [himage] at hmake
  cases houtcome with
  | done hnames hroom hwritten =>
      cases hmake
      have hinodes : objectInodes tree.files (fun _ => false)
          (reachedVisits noFaults (keptTree tree excluded) (fun _ => false)) =
          objectInodes tree.files excluded (allVisits tree excluded) := by
        have hvisits : reachedVisits noFaults (keptTree tree excluded) (fun _ => false) =
            objectsOf tree.files excluded (allVisits tree excluded) :=
          visitsOf_kept tree.path tree.listing
        rw [hvisits, objectInodes, objectsOf_objectsOf]
        rfl
      rw [List.nil_append] at hwritten
      rw [← hinodes]
      exact hwritten.exact
  | overflow hvisits hlong hroom => cases hmake
  | full hvisits hnames hmany => cases hmake

theorem reached_sublist (faults : Faults) (tree : SourceTree) (excluded : Bytes → Bool) :
    (objectsOf tree.files excluded (reachedVisits faults tree excluded)).Sublist
      (objectsOf tree.files excluded (allVisits tree excluded)) :=
  (visitsOf_sublist _ _ _).filter _

/-- An image as large as the one that is asked for has lost nothing. -/
theorem nothingLost {run : Run}
    (hwritten : Written faults tree.files (objectInodes tree.files (isEntryException exclList)
      (reachedVisits faults tree (isEntryException exclList))) run)
    (hlength : run.image.length = recordSize * imageChunks tree.files (objectInodes tree.files
      (isEntryException exclList) (allVisits tree (isEntryException exclList)))) :
    NothingLost faults exclList tree := by
  have hsublist := reached_sublist faults tree (isEntryException exclList)
  have hsize := hwritten.size
  rw [hlength] at hsize
  have hinodes := @eq_of_imageChunks tree.files _ _ (hsublist.map Visit.inode)
    (Nat.le_of_mul_le_mul_left hsize (by decide))
  have hcount := congrArg List.length hinodes
  rw [List.length_map, List.length_map] at hcount
  have hreached := hsublist.eq_of_length hcount
  have hsame : objectInodes tree.files (isEntryException exclList)
      (reachedVisits faults tree (isEntryException exclList)) =
      objectInodes tree.files (isEntryException exclList)
        (allVisits tree (isEntryException exclList)) := hinodes
  rw [hsame] at hwritten
  obtain ⟨hfull, hread⟩ := hwritten.whole hlength
  exact ⟨hreached, hfull, fun visit hvisit => hread _ (List.mem_map_of_mem hvisit)⟩

/-- A walk that is written in full writes the image of the tree without what is excluded. -/
theorem image_kept {last : Run}
    (hexcluded : ∀ visit ∈ allVisits tree excluded, (tree.files visit.inode).kind ≠ .other →
      isEntryException exclList visit.fullName = excluded visit.fullName)
    (hreach : objectsOf tree.files excluded (reachedVisits faults tree excluded) =
      objectsOf tree.files excluded (allVisits tree excluded))
    (hread : ∀ visit ∈ objectsOf tree.files excluded (allVisits tree excluded),
      ReadWhole faults tree.files visit.inode)
    (hrun : processEntries leftover faults tree.files exclList objectIdRoot tree.path
      (faults.cut tree.path) tree.listing (rootRun leftover faults tree.directory) = .ok last)
    (hfull : ∀ n < last.writes, Full faults n) :
    Yaffs.mkyaffs2image leftover tree.files tree.path tree.directory
      (keptListing tree.files excluded tree.path tree.listing) = .ok last.image := by
  obtain ⟨hroot, heven⟩ := makeHeader_whole leftover objectIdRoot .directory tree.directory
    objectIdRoot [] (-1) []
    (show (⟨[], nobjectBuckets + 1, 0, [], 0⟩ : Run).writes % 2 = 0 from rfl)
    fun n hn => hfull n (hn.trans_le (processEntries_forward tree.listing hrun))
  obtain ⟨last', hlast', hsame, -⟩ := processEntries_kept tree.listing hexcluded hreach hread
    (Same.refl _) (by rw [rootRun, heven]; rfl) hrun hfull
  have hmake := makeImage_noFaults leftover (keptTree tree excluded)
  obtain ⟨result, -, hresult, hmake'⟩ := @makeImage_outcome leftover noFaults noExceptions
    (keptTree tree excluded) rfl noFaults_walks
  have hstart : rootRun leftover noFaults tree.directory =
      rootRun leftover faults tree.directory := hroot.symm
  change _ = processEntries leftover noFaults tree.files noExceptions objectIdRoot tree.path none
    (keptListing tree.files excluded tree.path tree.listing)
    (rootRun leftover noFaults tree.directory) at hresult
  rw [hstart, hlast'] at hresult
  rw [hmake', hresult] at hmake
  have himage : last.image = last'.image := by rw [hsame]
  change Except.ok (0, last'.image) = Except.map _ (Yaffs.mkyaffs2image leftover tree.files
    tree.path tree.directory (keptListing tree.files excluded tree.path tree.listing)) at hmake
  obtain ⟨image, hkept, hpair⟩ := map_eq_ok.mp hmake.symm
  cases hpair
  rw [hkept, himage]

/-- When the exit status can be relied on. -/
theorem reportsFailures_iff :
    ReportsFailures faults exclList tree ↔
      faults.openImage = true ∨
        ¬SkipsWalk faults ∧
        ¬Overruns tree.files (isEntryException exclList)
          (reachedVisits faults tree (isEntryException exclList)) ∧
        (TooMany tree.files (isEntryException exclList)
            (reachedVisits faults tree (isEntryException exclList)) ∨
          NothingLost faults exclList tree) := by
  constructor
  · intro hreports
    cases hopen : faults.openImage with
    | true => exact Or.inl rfl
    | false =>
        right
        have hreport := hreports fun _ _ _ => 0
        by_cases hskips : SkipsWalk faults
        · have hmake : makeImage (fun _ _ _ => 0) faults exclList tree =
              .ok (0, (rootRun (fun _ _ _ => 0) faults tree.directory).image) := by
            have hzero := (rootRun_error (fun _ _ _ => 0) tree.directory).mpr hskips
            rw [makeImage, if_neg (ne_true_of_eq_false hopen)]
            refine (if_neg (not_not.mpr hzero)).trans ?_
            change Except.ok (if (rootRun _ faults tree.directory).error < 0 then 1 else 0, _) = _
            rw [hzero]
            rfl
          rw [hmake] at hreport
          rcases hreport with hfull | ⟨status, image, hresult, hcomplete⟩
          · cases hfull
          · cases hresult
            have hlength := image_length (hcomplete rfl)
            have hshort := rootRun_skips (fun _ _ _ => 0) tree.directory hskips
            have hone : recordSize * 1 ≤ recordSize * imageChunks tree.files (objectInodes
                tree.files (isEntryException exclList)
                (allVisits tree (isEntryException exclList))) := by
              refine Nat.mul_le_mul_left _ ?_
              rw [imageChunks, Nat.add_assoc]
              exact Nat.le_add_right 1 _
            omega
        · refine ⟨hskips, ?_⟩
          obtain ⟨result, houtcome, -, hmake⟩ := @makeImage_outcome (fun _ _ _ => 0)
            faults exclList tree hopen hskips
          rw [hmake] at hreport
          cases houtcome with
          | done hnames hroom hwritten =>
              rcases hreport with hfull | ⟨status, image, hresult, hcomplete⟩
              · cases hfull
              · cases hresult
                rw [List.nil_append] at hwritten
                exact ⟨not_overruns hnames, Or.inr (nothingLost hwritten
                  (image_length (hcomplete rfl)))⟩
          | overflow hvisits hlong hroom =>
              rcases hreport with hfull | ⟨status, image, hresult, hcomplete⟩
              · cases hfull
              · cases hresult
          | full hvisits hnames hmany =>
              rw [List.nil_append] at hmany
              exact ⟨TooMany.not_overruns ⟨_, _, hvisits, hnames, hmany⟩,
                Or.inl ⟨_, _, hvisits, hnames, hmany⟩⟩
  · intro hcondition leftover
    cases hopen : faults.openImage with
    | true =>
        refine Or.inr ⟨1, [], ?_, (by simp)⟩
        rw [makeImage, if_pos hopen]
    | false =>
        rcases hcondition with hfails | ⟨hwalks, hfits, hends⟩
        · rw [hopen] at hfails
          cases hfails
        · obtain ⟨result, houtcome, hresult, hmake⟩ := @makeImage_outcome leftover
            faults exclList tree hopen hwalks
          rw [hmake]
          cases houtcome with
          | @done last hnames hroom hwritten =>
              rw [List.nil_append] at hroom hwritten
              rcases hends with hmany | hlost
              · exact absurd hmany (not_tooMany hroom)
              · have hwrites := hwritten.writes
                rw [objectInodes, hlost.reached] at hwrites
                exact Or.inr ⟨0, last.image, rfl, fun _ => image_kept (fun _ _ _ => rfl)
                  hlost.reached hlost.read hresult.symm fun n hn =>
                    hlost.written n (hn.trans_le hwrites)⟩
          | overflow hvisits hlong hroom =>
              rw [List.nil_append] at hroom
              exact absurd ⟨_, _, _, hvisits, hlong, hroom⟩ hfits
          | full hvisits hnames hmany => exact Or.inl rfl

/-- A directory with a file of three bytes. -/
def oneFile : SourceTree where
  files := fun _ => ⟨0o100644, 0, 0, 0, 0, 0, 0, [1, 2, 3]⟩
  path := [47, 100]
  directory := ⟨0o040755, 0, 0, 0, 0, 0, 0, []⟩
  listing := .entry [97] ⟨1, 5⟩ .done .done
  directories := by decide

/-- A card that is full after the header of the root directory. -/
def fullCard : Faults :=
  { noFaults with write := fun number => if number < 2 then some chunkSize else none }

/-- The tool says that it is complete though the file is missing from the image. -/
theorem fullCard_unreported : ¬ReportsFailures fullCard noExceptions oneFile := by
  intro hreports
  have hwalks : ¬SkipsWalk fullCard := fun h => nomatch h.2
  obtain ⟨result, houtcome, -, hmake⟩ := @makeImage_outcome (fun _ _ _ => 0)
    fullCard noExceptions oneFile rfl hwalks
  have hreport := hreports fun _ _ _ => 0
  rw [hmake] at hreport
  cases houtcome with
  | done hnames hroom hwritten =>
      rcases hreport with hfull | ⟨status, image, hresult, hcomplete⟩
      · cases hfull
      · cases hresult
        have hlost := nothingLost hwritten (image_length (hcomplete rfl))
        obtain ⟨count, hwrite, -⟩ := hlost.written 2 (by decide)
        cases hwrite
  | overflow hvisits hlong hroom =>
      rcases hreport with hfull | ⟨status, image, hresult, hcomplete⟩
      · cases hfull
      · cases hresult
  | full hvisits hnames hmany =>
      have hroom : (objectInodes oneFile.files (isEntryException noExceptions)
          (reachedVisits fullCard oneFile (isEntryException noExceptions))).toFinset.card ≤
          maxObjects := by
        decide
      exact not_tooMany hroom ⟨_, _, hvisits, hnames, hmany⟩

end Complete

end OpenRecovery.Yaffs.Backup
