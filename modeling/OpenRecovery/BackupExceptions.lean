import OpenRecovery.BackupFaults
import Mathlib

/-!
# What the exceptions file excludes

A listed path excludes every entry whose full name it is the beginning of.  This is right for a
path that ends in a slash; without the slash it also takes the entries whose names only begin
with the last name of the path.
-/

namespace OpenRecovery.Yaffs.Backup

/-! ## The lines of the file -/

/-- The lines that are not empty. -/
def listedLines (text : Bytes) : List Bytes :=
  (text.splitOn newline).filter (· ≠ [])

/-- The paths that a file lists, which end at a zero byte. -/
def listedPaths (text : Bytes) : List Bytes :=
  (listedLines text).map cString

section Lines

variable {text : Bytes} {exclList : Exceptions} {rounds : Nat}

theorem fgets_line {body rest : Bytes} (hbody : newline ∉ body) (hshort : body.length < 254) :
    fgets 255 (body ++ newline :: rest) = body ++ [newline] := by
  have hall : ∀ byte ∈ body, decide (byte ≠ newline) = true := by
    intro byte hbyte
    refine decide_eq_true ?_
    rintro rfl
    exact hbody hbyte
  unfold fgets
  dsimp only
  have hwindow : (body ++ newline :: rest).take (255 - 1) =
      body ++ newline :: rest.take (254 - body.length - 1) := by
    obtain ⟨left, hleft⟩ : ∃ left, 255 - 1 - body.length = left + 1 := ⟨253 - body.length, by omega⟩
    rw [List.take_append, List.take_of_length_le (by omega), hleft, List.take_succ_cons]
    congr 3
  rw [hwindow, List.takeWhile_append_of_pos hall,
    List.takeWhile_cons_of_neg (by exact fun h => of_decide_eq_true h rfl), List.append_nil,
    List.take_append, List.take_of_length_le (Nat.le_succ _), Nat.add_sub_cancel_left]
  rfl

theorem fgets_last {body : Bytes} (hbody : newline ∉ body) (hshort : body.length < 254) :
    fgets 255 body = body := by
  have hall : ∀ byte ∈ body, decide (byte ≠ newline) = true := by
    intro byte hbyte
    refine decide_eq_true ?_
    rintro rfl
    exact hbody hbyte
  unfold fgets
  dsimp only
  have hwindow : body.take (255 - 1) = body := List.take_of_length_le (by omega)
  rw [hwindow, List.takeWhile_eq_self_iff.mpr hall, List.take_of_length_le (Nat.le_succ _)]

theorem cString_ne_nil {line : Bytes} (hne : line ≠ []) (hzero : line.head? ≠ some 0) :
    cString line ≠ [] := by
  obtain ⟨byte, tail, rfl⟩ := List.exists_cons_of_ne_nil hne
  rw [cString, List.takeWhile_cons_of_pos]
  · exact List.cons_ne_nil _ _
  · exact decide_eq_true fun h => hzero (congrArg some h)

theorem cString_head_zero {line : Bytes} (hzero : line.head? = some 0) : cString line = [] := by
  obtain ⟨tail, rfl⟩ := List.head?_eq_some_iff.mp hzero
  rfl

/-- The newline at the end of a line is taken away, and what follows a zero byte. -/
theorem chomp_line {body ending : Bytes} (hbody : newline ∉ body) (hzero : body.head? ≠ some 0)
    (hending : ending = [newline] ∨ ending = [] ∧ body ≠ []) :
    chomp (body ++ ending) = .ok (cString body) := by
  have hfront : cString body <+: body := List.takeWhile_prefix _
  have hclean : newline ∉ cString body := fun hmem => hbody (hfront.subset hmem)
  have hlast : (cString body).getLast? ≠ some newline := fun h => hclean (List.mem_of_getLast? h)
  have hcut : cString (body ++ ending) = cString body ∧ body ≠ [] ∨
      cString (body ++ ending) = cString body ++ [newline] := by
    rcases hending with rfl | ⟨rfl, hne⟩
    · rw [cString, List.takeWhile_append]
      split
      · rename_i hall
        right
        have hwhole : cString body = body := hfront.eq_of_length hall
        rw [hwhole]
        rfl
      · rename_i hcut
        left
        refine ⟨rfl, ?_⟩
        rintro rfl
        exact hcut rfl
    · rw [List.append_nil]
      exact Or.inl ⟨rfl, hne⟩
  unfold chomp
  rcases hcut with ⟨hcut, hne⟩ | hcut
  · rw [hcut, if_neg (cString_ne_nil hne hzero), if_neg hlast]
  · rw [hcut, if_neg (List.append_ne_nil_of_right_ne_nil _ (List.cons_ne_nil _ _)),
      List.getLast?_concat, if_pos rfl, List.dropLast_concat]

theorem chomp_zero {line : Bytes} (hzero : line.head? = some 0) : chomp line = .error .buffer := by
  rw [chomp]
  exact if_pos (cString_head_zero hzero)

/-- One line and what comes behind it. -/
structure FirstLine (text body ending rest : Bytes) : Prop where
  split : text = body ++ ending ++ rest
  clean : newline ∉ body
  last : ending = [newline] ∨ ending = [] ∧ body ≠ []
  lines : listedLines text = (if body = [] then [] else [body]) ++ listedLines rest
  taken : body.length < 254 → fgets 255 text = body ++ ending

theorem exists_firstLine (hnonempty : text ≠ []) :
    ∃ body ending rest, FirstLine text body ending rest := by
  have hfilter : ∀ body : Bytes, [body].filter (· ≠ []) = if body = [] then [] else [body] := by
    intro body
    by_cases hbody : body = []
    · rw [hbody]
      rfl
    · rw [if_neg hbody, List.filter_singleton, decide_eq_true hbody]
      rfl
  by_cases hmem : newline ∈ text
  · obtain ⟨body, rest, rfl, hbody⟩ := List.eq_append_cons_of_mem hmem
    refine ⟨body, [newline], rest, ?_, hbody, Or.inl rfl, ?_, fgets_line hbody⟩
    · rw [List.append_assoc]
      rfl
    · rw [listedLines, List.splitOn_append_cons_self, List.splitOn_eq_singleton hbody,
        List.filter_append, hfilter]
      rfl
  · refine ⟨text, [], [], ?_, hmem, Or.inr ⟨rfl, hnonempty⟩, ?_, fun hshort => ?_⟩
    · rw [List.append_nil, List.append_nil]
    · rw [listedLines, List.splitOn_eq_singleton hmem, hfilter]
      exact (List.append_nil _).symm
    · rw [fgets_last hmem hshort, List.append_nil]

/-- What becomes of the first line. -/
theorem readExceptions_line {body ending rest : Bytes} (hline : FirstLine text body ending rest)
    (hshort : ∀ line ∈ listedLines text, line.length < 254) :
    readExceptions (rounds + 1) text exclList = chomp (body ++ ending) >>= fun line =>
      if line = [] then readExceptions rounds rest exclList
      else if hroom : (exclList.paths ++ [line]).length < sizeofExclList then
        readExceptions rounds rest ⟨exclList.paths ++ [line], hroom⟩
      else .error .buffer := by
  have hbody : body.length < 254 := by
    by_cases hempty : body = []
    · rw [hempty]
      decide
    · refine hshort body ?_
      rw [hline.lines, if_neg hempty]
      exact List.mem_cons_self ..
  have hsome : body ++ ending ≠ [] := by
    rcases hline.last with hnewline | ⟨-, hne⟩
    · rw [hnewline]
      exact List.append_ne_nil_of_right_ne_nil _ (List.cons_ne_nil _ _)
    · exact List.append_ne_nil_of_left_ne_nil hne _
  have hrest : text.drop (body ++ ending).length = rest := by
    rw [hline.split, List.drop_left]
  rw [readExceptions]
  dsimp only
  rw [hline.taken hbody, if_neg hsome, hrest]

theorem FirstLine.rest_length {body ending rest : Bytes} (hline : FirstLine text body ending rest) :
    rest.length < text.length := by
  rw [hline.split, List.length_append, List.length_append]
  rcases hline.last with rfl | ⟨-, hne⟩
  · rw [List.length_singleton]
    omega
  · have hpos := List.length_pos_of_ne_nil hne
    omega

/-- The table holds the listed paths. -/
theorem readExceptions_eq (hshort : ∀ line ∈ listedLines text, line.length < 254)
    (hzero : ∀ line ∈ listedLines text, line.head? ≠ some 0)
    (hroom : exclList.paths.length + (listedLines text).length < sizeofExclList)
    (hrounds : text.length < rounds) :
    ∃ table, readExceptions rounds text exclList = .ok table ∧
      table.paths = exclList.paths ++ listedPaths text := by
  induction rounds generalizing text exclList with
  | zero => exact absurd hrounds (Nat.not_lt_zero _)
  | succ rounds ih =>
      by_cases hempty : text = []
      · subst hempty
        exact ⟨exclList, rfl, (List.append_nil _).symm⟩
      · obtain ⟨body, ending, rest, hline⟩ := exists_firstLine hempty
        have hrest := hline.rest_length
        rw [readExceptions_line hline hshort]
        rw [hline.lines] at hshort hzero hroom
        rw [List.forall_mem_append] at hshort hzero
        rw [List.length_append] at hroom
        rw [listedPaths, hline.lines, List.map_append]
        by_cases hbody : body = []
        · rw [if_pos hbody] at hroom ⊢
          rw [List.length_nil] at hroom
          rw [chomp_line hline.clean (by rw [hbody]; nofun) hline.last, hbody]
          exact ih hshort.2 hzero.2 (by omega) (by omega)
        · rw [if_neg hbody, List.length_singleton] at hroom
          rw [if_neg hbody] at hzero ⊢
          have hhead := hzero.1 body (List.mem_singleton_self body)
          rw [chomp_line hline.clean hhead hline.last]
          have hstore : (exclList.paths ++ [cString body]).length < sizeofExclList := by
            rw [List.length_append, List.length_singleton]
            omega
          obtain ⟨table, hread, hpaths⟩ := @ih rest ⟨exclList.paths ++ [cString body], hstore⟩
            hshort.2 hzero.2 (by
              rw [List.length_append, List.length_singleton]
              omega) (by omega)
          refine ⟨table, ?_, ?_⟩
          · refine (if_neg (cString_ne_nil hbody hhead)).trans ?_
            rw [dif_pos hstore, hread]
          · rw [hpaths, List.append_assoc]
            rfl

/-- A line that starts with a zero byte makes the tool read in front of its buffer. -/
theorem readExceptions_zero (hshort : ∀ line ∈ listedLines text, line.length < 254)
    (hzero : ∃ line ∈ listedLines text, line.head? = some 0) (hrounds : text.length < rounds) :
    readExceptions rounds text exclList = .error .buffer := by
  induction rounds generalizing text exclList with
  | zero => exact absurd hrounds (Nat.not_lt_zero _)
  | succ rounds ih =>
      have hempty : text ≠ [] := by
        rintro rfl
        obtain ⟨line, hmem, -⟩ := hzero
        exact absurd hmem List.not_mem_nil
      obtain ⟨body, ending, rest, hline⟩ := exists_firstLine hempty
      have hrest := hline.rest_length
      rw [readExceptions_line hline hshort]
      rw [hline.lines] at hshort hzero
      rw [List.forall_mem_append] at hshort
      obtain ⟨line, hmem, hhead⟩ := hzero
      by_cases hfirst : body.head? = some 0
      · have hhead : (body ++ ending).head? = some 0 := by
          rw [List.head?_append, hfirst]
          rfl
        rw [chomp_zero hhead]
        rfl
      · have hlater : line ∈ listedLines rest := by
          rcases List.mem_append.mp hmem with hbody | hlater
          · split at hbody
            · exact absurd hbody List.not_mem_nil
            · rw [List.mem_singleton.mp hbody] at hhead
              exact absurd hhead hfirst
          · exact hlater
        have hnext : ∀ table, readExceptions rounds rest table = .error .buffer := fun table =>
          ih hshort.2 ⟨line, hlater, hhead⟩ (by omega)
        rw [chomp_line hline.clean hfirst hline.last]
        change (if cString body = [] then _ else _) = _
        split
        · exact hnext exclList
        · split
          · exact hnext _
          · rfl

end Lines

/-! ## Comparisons -/

/-- The path of a directory that an entry is in, at any depth. -/
def ProperAncestor (ancestor entry : Bytes) : Prop :=
  ancestor ++ [slash] <+: entry

/-- What a listed path is said to exclude: with a slash at its end the entries inside of a
directory, else also the entry itself. -/
def Excludes (listed entry : Bytes) : Prop :=
  if listed.getLast? = some slash then ProperAncestor listed.dropLast entry
  else listed = entry ∨ ProperAncestor listed entry

instance (listed entry : Bytes) : Decidable (Excludes listed entry) :=
  inferInstanceAs (Decidable (if listed.getLast? = some slash then
    listed.dropLast ++ [slash] <+: entry else listed = entry ∨ listed ++ [slash] <+: entry))

/-- Whether an entry is one that the paths are said to exclude. -/
def isExcluded (paths : List Bytes) (entry : Bytes) : Bool :=
  paths.any fun listed => Excludes listed entry

/-- Whether an entry starts with one of the paths. -/
def startsListed (paths : List Bytes) (entry : Bytes) : Bool :=
  paths.any fun listed => listed.isPrefixOf entry

/-- An entry goes on behind a path that does not end in a slash, and not with a slash. -/
def Overmatched (paths : List Bytes) (entry : Bytes) : Prop :=
  ∃ listed ∈ paths, ∃ byte rest, listed.getLast? ≠ some slash ∧ byte ≠ slash ∧
    entry = listed ++ byte :: rest

section Comparisons

variable {paths : List Bytes} {entry : Bytes}

theorem isExcluded_iff :
    isExcluded paths entry = true ↔ ∃ listed ∈ paths, Excludes listed entry := by
  rw [isExcluded, List.any_eq_true]
  exact exists_congr fun listed => and_congr_right fun _ => decide_eq_true_iff

theorem startsListed_iff :
    startsListed paths entry = true ↔ ∃ listed ∈ paths, listed <+: entry := by
  rw [startsListed, List.any_eq_true]
  exact exists_congr fun listed => and_congr_right fun _ => List.isPrefixOf_iff_prefix

/-- Without zero bytes in the paths, `strncmp` looks for a beginning. -/
theorem isEntryException_eq {exclList : Exceptions}
    (hzero : ∀ path ∈ exclList.paths, (0 : UInt8) ∉ path) :
    isEntryException exclList = startsListed exclList.paths := by
  funext entry
  rw [Bool.eq_iff_iff, startsListed_iff, isEntryException, List.any_eq_true]
  refine exists_congr fun path => and_congr_right fun hmem => ?_
  rw [strncmpZero, decide_eq_true_iff, List.take_left]
  constructor
  · intro htake
    have hfront : path <+: entry ++ [0] := by
      rw [← htake]
      exact List.take_prefix _ _
    rcases List.prefix_concat_iff.mp hfront with hwhole | hstarts
    · refine absurd ?_ (hzero path hmem)
      rw [hwhole]
      exact List.mem_append_right _ (List.mem_singleton_self _)
    · exact hstarts
  · rintro ⟨rest, rfl⟩
    rw [List.append_assoc, List.take_left]

theorem Excludes.startsWith {listed : Bytes} (hexcludes : Excludes listed entry) :
    listed <+: entry := by
  rw [Excludes] at hexcludes
  split at hexcludes
  · rename_i hlast
    rw [ProperAncestor] at hexcludes
    obtain ⟨front, rfl⟩ := List.getLast?_eq_some_iff.mp hlast
    rw [List.dropLast_concat] at hexcludes
    exact hexcludes
  · rcases hexcludes with rfl | hancestor
    · exact List.prefix_refl _
    · exact (List.prefix_append _ _).trans hancestor

/-- A path takes too much only as the beginning of a longer name. -/
theorem excludes_or_overmatched {listed : Bytes} (hmem : listed ∈ paths)
    (hstarts : listed <+: entry) : Excludes listed entry ∨ Overmatched paths entry := by
  obtain ⟨rest, rfl⟩ := hstarts
  by_cases hlast : listed.getLast? = some slash
  · left
    rw [Excludes, if_pos hlast, ProperAncestor]
    obtain ⟨front, rfl⟩ := List.getLast?_eq_some_iff.mp hlast
    rw [List.dropLast_concat]
    exact List.prefix_append _ _
  · cases rest with
    | nil =>
        left
        rw [Excludes, if_neg hlast, List.append_nil]
        exact Or.inl rfl
    | cons byte rest =>
        by_cases hbyte : byte = slash
        · left
          rw [Excludes, if_neg hlast]
          refine Or.inr ⟨rest, ?_⟩
          rw [hbyte, List.append_assoc]
          rfl
        · exact Or.inr ⟨listed, hmem, byte, rest, hlast, hbyte, rfl⟩

/-- What is inside of something excluded is excluded. -/
theorem isExcluded_inside {inside : Bytes} (hexcluded : isExcluded paths entry = true)
    (hinside : entry ++ [slash] <+: inside) : isExcluded paths inside = true := by
  rw [isExcluded_iff] at hexcluded ⊢
  obtain ⟨listed, hmem, hexcludes⟩ := hexcluded
  refine ⟨listed, hmem, ?_⟩
  have hfront : entry <+: inside := (List.prefix_append _ _).trans hinside
  rw [Excludes] at hexcludes ⊢
  split
  · rename_i hlast
    rw [if_pos hlast] at hexcludes
    exact hexcludes.trans hfront
  · rename_i hlast
    rw [if_neg hlast] at hexcludes
    rcases hexcludes with rfl | hancestor
    · exact Or.inr hinside
    · exact Or.inr (hancestor.trans hfront)

end Comparisons

/-! ## Entries that are left out -/

section LeftOut

variable {files : Inode → SourceFile} {excluded weaker : Bytes → Bool} {visit : Visit}

/-- The full names of what is inside of a directory. -/
theorem visitsOf_inside {cut : Bytes → Option Nat} {path : Bytes} {left : Option Nat}
    {listing : Listing} (hvisit : visit ∈ visitsOf files excluded cut path left listing) :
    path ++ [slash] <+: visit.fullName := by
  induction listing generalizing path left with
  | done => exact absurd hvisit List.not_mem_nil
  | entry name inode inside rest ihInside ihRest =>
      by_cases hleft : left = some 0
      · rw [hleft, visitsOf_zero] at hvisit
        exact absurd hvisit List.not_mem_nil
      by_cases hdot : IsDot name
      · rw [visitsOf_dot hleft hdot] at hvisit
        exact ihRest hvisit
      · rw [visitsOf_entry hleft hdot] at hvisit
        rcases List.mem_cons.mp hvisit with rfl | hlater
        · exact List.prefix_append _ _
        · rcases List.mem_append.mp hlater with hinside | hrest
          · split at hinside
            · have hbelow := ihInside hinside
              rw [List.append_assoc] at hbelow
              exact (List.prefix_append _ _).trans hbelow
            · exact absurd hinside List.not_mem_nil
          · exact ihRest hrest

theorem visitsOf_every (path : Bytes) (listing : Listing) :
    (visitsOf files excluded noCut path none listing).Sublist
      (visitsOf files (fun _ => false) noCut path none listing) := by
  have hnone : (none : Option Nat) ≠ some 0 := nofun
  induction listing generalizing path with
  | done => exact List.Sublist.refl _
  | entry name inode inside rest ihInside ihRest =>
      by_cases hdot : IsDot name
      · rw [visitsOf_dot hnone hdot, visitsOf_dot hnone hdot]
        exact ihRest path
      · rw [visitsOf_entry hnone hdot, visitsOf_entry hnone hdot]
        refine (List.Sublist.append ?_ (ihRest path)).cons_cons _
        split
        · rename_i hinside
          rw [if_pos ⟨hinside.1, rfl⟩]
          exact ihInside _
        · exact List.nil_sublist _

/-- The walk comes to everything that is not excluded, if what is inside of something excluded is
excluded too. -/
theorem mem_visitsOf {path : Bytes} {listing : Listing}
    (hinherits : ∀ entry inside, entry ++ [slash] <+: inside → excluded entry = true →
      excluded inside = true)
    (hkept : excluded visit.fullName = false)
    (hvisit : visit ∈ visitsOf files (fun _ => false) noCut path none listing) :
    visit ∈ visitsOf files excluded noCut path none listing := by
  have hnone : (none : Option Nat) ≠ some 0 := nofun
  induction listing generalizing path with
  | done => exact hvisit
  | entry name inode inside rest ihInside ihRest =>
      by_cases hdot : IsDot name
      · rw [visitsOf_dot hnone hdot] at hvisit ⊢
        exact ihRest hvisit
      · rw [visitsOf_entry hnone hdot] at hvisit ⊢
        rcases List.mem_cons.mp hvisit with rfl | hlater
        · exact List.mem_cons_self ..
        · refine List.mem_cons_of_mem _ (List.mem_append.mpr ?_)
          rcases List.mem_append.mp hlater with hinside | hrest
          · split at hinside
            · rename_i hkind
              have hbelow := visitsOf_inside hinside
              have hopen : excluded (path ++ [slash] ++ name) = false := by
                by_contra hnot
                have hthere := hinherits _ _ hbelow (eq_true_of_ne_false hnot)
                rw [hkept] at hthere
                cases hthere
              rw [if_pos ⟨hkind.1, hopen⟩]
              exact Or.inl (ihInside hinside)
            · exact absurd hinside List.not_mem_nil
          · exact Or.inr (ihRest hrest)

/-- The more is excluded the fewer objects are made. -/
theorem objectsOf_weaker (hweaker : ∀ entry, weaker entry = true → excluded entry = true)
    (path : Bytes) (listing : Listing) :
    (objectsOf files excluded (visitsOf files excluded noCut path none listing)).Sublist
      (objectsOf files weaker (visitsOf files weaker noCut path none listing)) := by
  have hnone : (none : Option Nat) ≠ some 0 := nofun
  induction listing generalizing path with
  | done => exact List.Sublist.refl _
  | entry name inode inside rest ihInside ihRest =>
      by_cases hdot : IsDot name
      · rw [visitsOf_dot hnone hdot, visitsOf_dot hnone hdot]
        exact ihRest path
      · by_cases hobject : IsObject files excluded ⟨path ++ [slash] ++ name, inode⟩
        · have hobjectWeaker : IsObject files weaker ⟨path ++ [slash] ++ name, inode⟩ := by
            refine ⟨hobject.1, ?_⟩
            by_contra hnot
            have hthere := hweaker _ (eq_true_of_ne_false hnot)
            rw [hobject.2] at hthere
            cases hthere
          rw [objectsOf_entry hnone hdot hobject, objectsOf_entry hnone hdot hobjectWeaker]
          refine (List.Sublist.append ?_ (ihRest path)).cons_cons _
          split
          · exact ihInside _
          · exact List.Sublist.refl _
        · rw [objectsOf_rest hnone hdot hobject]
          by_cases hobjectWeaker : IsObject files weaker ⟨path ++ [slash] ++ name, inode⟩
          · rw [objectsOf_entry hnone hdot hobjectWeaker]
            exact ((ihRest path).trans (List.sublist_append_right _ _)).cons _
          · rw [objectsOf_rest hnone hdot hobjectWeaker]
            exact ihRest path

end LeftOut

/-! ## Exact exclusion -/

/-- No entry is taken for an excluded one whose name only begins like it. -/
def NoOvermatch (paths : List Bytes) (tree : SourceTree) : Prop :=
  ∀ visit ∈ allVisits tree (fun _ => false), (tree.files visit.inode).kind ≠ .other →
    Overmatched paths visit.fullName → isExcluded paths visit.fullName = true

/-- The tool exits with status 2, or writes the image of the tree without the entries that the
file is said to exclude. -/
def ExcludesExactly (text : Bytes) (tree : SourceTree) : Prop :=
  ∀ leftover, mkyaffs2image leftover noFaults (some text) tree = .error .objectArray ∨
    ∃ image, mkyaffs2image leftover noFaults (some text) tree = .ok (0, image) ∧
      Yaffs.mkyaffs2image leftover tree.files tree.path tree.directory
        (keptListing tree.files (isExcluded (listedPaths text)) tree.path tree.listing) = .ok image

section Exact

variable {text : Bytes} {tree : SourceTree}

/-- What the tool makes of the file. -/
theorem mkyaffs2image_text (tree : SourceTree) (leftover : UInt32 → UInt32 → Nat → UInt8)
    (hlines : (listedLines text).length ≤ 49)
    (hshort : ∀ line ∈ listedLines text, line.length < 254)
    (hzero : ∀ line ∈ listedLines text, line.head? ≠ some 0) :
    ∃ exclList, mkyaffs2image leftover noFaults (some text) tree =
        makeImage leftover noFaults exclList tree ∧
      isEntryException exclList = startsListed (listedPaths text) := by
  obtain ⟨exclList, hread, hpaths⟩ := @readExceptions_eq text ⟨[], Nat.zero_lt_succ _⟩
    (text.length + 1) hshort hzero (by
      rw [List.length_nil, Nat.zero_add]
      exact Nat.lt_succ_of_le hlines) (Nat.lt_succ_self _)
  refine ⟨exclList, ?_, ?_⟩
  · rw [mkyaffs2image]
    rw [hread]
    rfl
  · rw [← show exclList.paths = listedPaths text from hpaths]
    refine isEntryException_eq fun path hpath => ?_
    rw [hpaths, List.nil_append, listedPaths] at hpath
    obtain ⟨line, -, rfl⟩ := List.mem_map.mp hpath
    intro hmem
    have hne := List.mem_takeWhile_imp hmem
    exact of_decide_eq_true hne rfl

theorem isExcluded_startsListed {paths : List Bytes} {entry : Bytes}
    (hexcluded : isExcluded paths entry = true) : startsListed paths entry = true := by
  obtain ⟨listed, hmem, hexcludes⟩ := isExcluded_iff.mp hexcluded
  exact (startsListed_iff).mpr ⟨listed, hmem, hexcludes.startsWith⟩

/-- Where nothing is overmatched, the paths exclude what they are said to exclude. -/
theorem NoOvermatch.startsListed_eq {paths : List Bytes} (hexact : NoOvermatch paths tree)
    {visit : Visit} (hvisit : visit ∈ allVisits tree (fun _ => false))
    (hkind : (tree.files visit.inode).kind ≠ .other) :
    startsListed paths visit.fullName = isExcluded paths visit.fullName := by
  rw [Bool.eq_iff_iff]
  refine ⟨fun hstarts => ?_, isExcluded_startsListed⟩
  obtain ⟨listed, hmem, hfront⟩ := startsListed_iff.mp hstarts
  rcases excludes_or_overmatched hmem hfront with hexcludes | hover
  · exact isExcluded_iff.mpr ⟨listed, hmem, hexcludes⟩
  · exact hexact visit hvisit hkind hover

/-- Images of one size leave out the same entries. -/
theorem noOvermatch {paths : List Bytes}
    (hchunks : imageChunks tree.files (objectInodes tree.files (isExcluded paths)
        (allVisits tree (isExcluded paths))) ≤
      imageChunks tree.files (objectInodes tree.files (startsListed paths)
        (allVisits tree (startsListed paths)))) :
    NoOvermatch paths tree := by
  intro visit hvisit hkind hover
  by_contra hnot
  have hkept : isExcluded paths visit.fullName = false := eq_false_of_ne_true hnot
  have hsublist := @objectsOf_weaker tree.files _ _
    (fun entry => @isExcluded_startsListed paths entry) tree.path tree.listing
  have hinodes := eq_of_imageChunks (hsublist.map Visit.inode) hchunks
  have hcount := congrArg List.length hinodes
  rw [List.length_map, List.length_map] at hcount
  have hsame := hsublist.eq_of_length hcount
  have hmem : visit ∈ objectsOf tree.files (isExcluded paths)
      (visitsOf tree.files (isExcluded paths) noCut tree.path none tree.listing) := by
    refine List.mem_filter.mpr ⟨?_, decide_eq_true ⟨hkind, hkept⟩⟩
    exact mem_visitsOf (fun _ _ hinside hexcluded => isExcluded_inside hexcluded hinside) hkept
      hvisit
  rw [← hsame] at hmem
  have hobject := of_decide_eq_true (List.mem_filter.mp hmem).2
  obtain ⟨listed, hlisted, byte, rest, -, -, hentry⟩ := hover
  have hstarts : startsListed paths visit.fullName = true :=
    startsListed_iff.mpr ⟨listed, hlisted, hentry ▸ List.prefix_append _ _⟩
  rw [hobject.2] at hstarts
  cases hstarts

/-- A file with a zero byte at the start of a line is no list of paths. -/
theorem ExcludesExactly.head_ne_zero (hexact : ExcludesExactly text tree)
    (hshort : ∀ line ∈ listedLines text, line.length < 254) :
    ∀ line ∈ listedLines text, line.head? ≠ some 0 := by
  intro line hmem hhead
  have hread := @readExceptions_zero text ⟨[], Nat.zero_lt_succ _⟩ (text.length + 1) hshort
    ⟨line, hmem, hhead⟩ (Nat.lt_succ_self _)
  have hstop : mkyaffs2image (fun _ _ _ => 0) noFaults (some text) tree = .error .buffer := by
    rw [mkyaffs2image]
    rw [hread]
    rfl
  rcases hexact fun _ _ _ => 0 with hfull | ⟨image, hmake, -⟩
  · rw [hstop] at hfull
    cases hfull
  · rw [hstop] at hmake
    cases hmake

/-- How the walk of an exact exclusion ends. -/
theorem ExcludesExactly.ends (hexact : ExcludesExactly text tree)
    (hlines : (listedLines text).length ≤ 49)
    (hshort : ∀ line ∈ listedLines text, line.length < 254) :
    ¬Overruns tree.files (startsListed (listedPaths text))
        (allVisits tree (startsListed (listedPaths text))) ∧
      (TooMany tree.files (startsListed (listedPaths text))
          (allVisits tree (startsListed (listedPaths text))) ∨
        NoOvermatch (listedPaths text) tree) := by
  obtain ⟨exclList, htool, hpredicate⟩ := mkyaffs2image_text tree (fun _ _ _ => 0) hlines hshort
    (hexact.head_ne_zero hshort)
  obtain ⟨result, houtcome, -, hmake⟩ := @makeImage_outcome (fun _ _ _ => 0) noFaults exclList
    tree rfl noFaults_walks
  have hreport := hexact fun _ _ _ => 0
  rw [htool, hmake] at hreport
  rw [hpredicate] at houtcome
  cases houtcome with
  | done hnames hroom hwritten =>
      rcases hreport with hfull | ⟨image, hresult, hkept⟩
      · cases hfull
      · cases hresult
        rw [List.nil_append] at hwritten
        have hlength := hwritten.exact.symm.trans (image_length hkept)
        exact ⟨not_overruns hnames, Or.inr (noOvermatch
          (Nat.le_of_mul_le_mul_left hlength.ge (by decide)))⟩
  | overflow hvisits hlong hroom =>
      rcases hreport with hfull | ⟨image, hresult, hkept⟩
      · cases hfull
      · cases hresult
  | full hvisits hnames hmany =>
      rw [List.nil_append] at hmany
      exact ⟨TooMany.not_overruns ⟨_, _, hvisits, hnames, hmany⟩,
        Or.inl ⟨_, _, hvisits, hnames, hmany⟩⟩

/-- When the tool excludes exactly what the file lists. -/
theorem excludesExactly_iff (hlines : (listedLines text).length ≤ 49)
    (hshort : ∀ line ∈ listedLines text, line.length < 254) :
    ExcludesExactly text tree ↔
      (∀ line ∈ listedLines text, line.head? ≠ some 0) ∧
      ¬Overruns tree.files (startsListed (listedPaths text))
        (allVisits tree (startsListed (listedPaths text))) ∧
      (TooMany tree.files (startsListed (listedPaths text))
          (allVisits tree (startsListed (listedPaths text))) ∨
        NoOvermatch (listedPaths text) tree) := by
  constructor
  · intro hexact
    exact ⟨hexact.head_ne_zero hshort, hexact.ends hlines hshort⟩
  · rintro ⟨hzero, hfits, hends⟩ leftover
    obtain ⟨exclList, htool, hpredicate⟩ := mkyaffs2image_text tree leftover hlines hshort hzero
    obtain ⟨result, houtcome, hresult, hmake⟩ := @makeImage_outcome leftover noFaults exclList
      tree rfl noFaults_walks
    rw [htool, hmake]
    rw [hpredicate] at houtcome
    cases houtcome with
    | @done last hnames hroom hwritten =>
        rw [List.nil_append] at hroom
        rcases hends with hmany | hexact
        · exact absurd hmany (not_tooMany hroom)
        · refine Or.inr ⟨last.image, rfl, image_kept ?_ rfl
            (fun visit _ => noFaults_readWhole tree.files visit.inode) hresult.symm
            fun n _ => noFaults_full n⟩
          intro visit hvisit hkind
          rw [hpredicate]
          exact hexact.startsListed_eq ((visitsOf_every _ _).subset hvisit) hkind
    | overflow hvisits hlong hroom =>
        rw [List.nil_append] at hroom
        exact absurd ⟨_, _, _, hvisits, hlong, hroom⟩ hfits
    | full hvisits hnames hmany => exact Or.inl rfl

/-- A directory with the files `a` and `ab`. -/
def twoFiles : SourceTree where
  files := fun _ => ⟨0o100644, 0, 0, 0, 0, 0, 0, []⟩
  path := [47, 100]
  directory := ⟨0o040755, 0, 0, 0, 0, 0, 0, []⟩
  listing := .entry [97] ⟨1, 5⟩ .done (.entry [97, 98] ⟨1, 6⟩ .done .done)
  directories := by decide

theorem excludesExactly_small :
    ExcludesExactly [47, 100, 47, 97, 47, 10] twoFiles ↔
      (∀ line ∈ listedLines [47, 100, 47, 97, 47, 10], line.head? ≠ some 0) ∧
      ¬Overruns twoFiles.files (startsListed (listedPaths [47, 100, 47, 97, 47, 10]))
        (allVisits twoFiles (startsListed (listedPaths [47, 100, 47, 97, 47, 10]))) ∧
      (TooMany twoFiles.files (startsListed (listedPaths [47, 100, 47, 97, 47, 10]))
          (allVisits twoFiles (startsListed (listedPaths [47, 100, 47, 97, 47, 10]))) ∨
        NoOvermatch (listedPaths [47, 100, 47, 97, 47, 10]) twoFiles) :=
  excludesExactly_iff (by decide) (by decide)

/-- With the line `/d/a` the file `/d/ab` is lost. -/
theorem sibling_lost : ¬ExcludesExactly [47, 100, 47, 97, 10] twoFiles := by
  intro hexact
  have hpaths : listedPaths [47, 100, 47, 97, 10] = [[47, 100, 47, 97]] := by decide
  obtain ⟨-, hends⟩ := hexact.ends (by decide) (by decide)
  rw [hpaths] at hends
  rcases hends with hmany | hover
  · exact not_tooMany (by decide) hmany
  · have hvisit : ⟨[47, 100, 47, 97, 98], ⟨1, 6⟩⟩ ∈ allVisits twoFiles fun _ => false :=
      List.mem_cons_of_mem _ (List.mem_cons_self ..)
    have hlost := hover _ hvisit (by decide) ⟨[47, 100, 47, 97], List.mem_singleton_self _, 98, [],
      by decide, by decide, rfl⟩
    exact absurd hlost (by decide)

end Exact

end OpenRecovery.Yaffs.Backup
