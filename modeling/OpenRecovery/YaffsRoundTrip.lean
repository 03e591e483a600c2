import OpenRecovery.YaffsAttributes
import OpenRecovery.YaffsChunks
import Mathlib

/-!
# Extraction rebuilds the tree

An object is written for every entry of the tree, in the order of the traversal, and read in
the same order.  What is kept is that the entries written so far are on the disk, each under
its path, and that both tables of objects know them.
-/

namespace OpenRecovery.Yaffs

open SortedTable

/-! ## Paths -/

/-- A name of a directory entry. -/
structure ProperName (name : Bytes) : Prop where
  ne_nil : name ≠ []
  not_dot : ¬IsDot name
  no_zero : ∀ byte ∈ name, byte ≠ 0
  no_slash : ∀ byte ∈ name, byte ≠ slash
  length : name.length < maxNameLength

section Paths

theorem splitPath_ne_nil (path : Bytes) : splitPath path ≠ [] := by
  cases path with
  | nil => exact List.cons_ne_nil _ _
  | cons byte path =>
      rw [splitPath]
      split
      · exact List.cons_ne_nil _ _
      · split
        · exact List.cons_ne_nil _ _
        · exact List.cons_ne_nil _ _

theorem splitPath_append (path rest : Bytes) :
    splitPath (path ++ slash :: rest) = splitPath path ++ splitPath rest := by
  induction path with
  | nil =>
      change splitPath (slash :: rest) = [] :: splitPath rest
      rw [splitPath, if_pos rfl]
  | cons byte path ih =>
      rw [List.cons_append, splitPath, splitPath, ih]
      by_cases hslash : byte = slash
      · rw [if_pos hslash, if_pos hslash, List.cons_append]
      · rw [if_neg hslash, if_neg hslash]
        cases hsplit : splitPath path with
        | nil => exact absurd hsplit (splitPath_ne_nil path)
        | cons first others => rfl

theorem splitPath_name {name : Bytes} (hname : ∀ byte ∈ name, byte ≠ slash) :
    splitPath name = [name] := by
  induction name with
  | nil => rfl
  | cons byte name ih =>
      rw [List.forall_mem_cons] at hname
      rw [splitPath, if_neg hname.1, ih hname.2]

theorem components_append (path rest : Bytes) :
    components (path ++ slash :: rest) = components path ++ components rest := by
  rw [components, splitPath_append, List.filter_append]
  rfl

theorem ProperName.components_eq {name : Bytes} (hname : ProperName name) :
    components name = [name] := by
  have hdot : name ≠ [46] := fun hdot => hname.not_dot (.inl hdot)
  rw [components, splitPath_name hname.no_slash]
  simp [hname.ne_nil, hdot]

variable (cwd : List Bytes)

theorem resolve_append {path : Bytes} (hpath : path ≠ []) (rest : Bytes) :
    resolve cwd (path ++ slash :: rest) = resolve cwd path ++ components rest := by
  have hhead : (path ++ slash :: rest).head? = path.head? := by
    cases path with
    | nil => exact absurd rfl hpath
    | cons byte path => rfl
  rw [resolve, hhead, components_append, resolve]
  split
  · rfl
  · rw [List.append_assoc]

/-- The directory the objects are made in is the one that was named. -/
theorem resolve_rootPath {argument : Bytes} :
    resolve cwd (rootPath argument) = resolve cwd (dirName argument) := by
  rw [rootPath]
  split
  case isTrue => rfl
  case isFalse hrelative =>
      have hargument : components argument = components (dirName argument) := by
        rw [dirName]
        split
        case isTrue hdot =>
            have hsplit := List.take_append_drop 2 argument
            rw [hdot] at hsplit
            have hstart : components ([46] ++ slash :: argument.drop 2) =
                components [46] ++ components (argument.drop 2) := components_append _ _
            rw [← hsplit]
            exact hstart
        case isFalse => rfl
      have hstart : components ([46] ++ slash :: argument) =
          components [46] ++ components argument := components_append _ _
      have hleft : resolve cwd ([46, slash] ++ argument) = cwd ++ components argument := by
        rw [resolve, if_neg (by exact fun h => nomatch h)]
        exact congrArg (cwd ++ ·) hstart
      rw [hleft, resolve, if_neg hrelative, hargument]

end Paths

/-! ## Trees -/

/-- An entry of a directory tree, with the names that lead to it. -/
structure Entry where
  path : List Bytes
  inode : Inode

/-- The entries of the tree below a directory, in the order of the traversal. -/
def Listing.entries (files : Inode → SourceFile) (path : List Bytes) : Listing → List Entry
  | .done => []
  | .entry name inode inside rest =>
      if IsDot name then rest.entries files path
      else
        ⟨path ++ [name], inode⟩ ::
          (if (files inode).kind = .directory then inside.entries files (path ++ [name]) else []) ++
            rest.entries files path

/-- A regular file, a directory or a symbolic link whose contents fit. -/
def ProperFile (file : SourceFile) : Prop :=
  match file.kind with
  | .regular => file.data.length < 2 ^ 31
  | .directory => True
  | .link =>
      file.data ≠ [] ∧ file.data.length < maxAliasLength ∧ ∀ byte ∈ file.data, byte ≠ 0
  | _ => False

def pathString (source : Bytes) (path : List Bytes) : Bytes :=
  source ++ path.flatMap (slash :: ·)

/-- The entries belong to a directory tree that the tools have room for. -/
structure IsTree (files : Inode → SourceFile) (source : Bytes) (entries : List Entry) : Prop where
  distinct : (entries.map Entry.path).Nodup
  directories : (entries.filter fun entry => (files entry.inode).kind = .directory).Pairwise
    fun left right => left.inode ≠ right.inode
  names : ∀ entry ∈ entries, ∀ name ∈ entry.path, ProperName name
  files : ∀ entry ∈ entries, ProperFile (files entry.inode)
  fullNames : ∀ entry ∈ entries, (pathString source entry.path).length < sizeofFullName
  room : nobjectBuckets + 1 + entries.length ≤ maxObjects

def fileObject (file : SourceFile) : FileObject :=
  match file.kind with
  | .directory => .directory
  | .link => .link file.data
  | _ => .file file.data

/-- Below a directory the disk holds the tree: the same names and no others, the same files and
links, and the same hard links. -/
structure SameTree (files : Inode → SourceFile) (entries : List Entry) (base : List Bytes)
    (disk : Disk) : Prop where
  same : ∀ entry ∈ entries, ∃ number, disk.names (base ++ entry.path) = some number ∧
    disk.files number = fileObject (files entry.inode)
  links : ∀ left ∈ entries, ∀ right ∈ entries,
    (disk.names (base ++ left.path) = disk.names (base ++ right.path) ↔ left.inode = right.inode)
  only : ∀ path, path ≠ [] → disk.names (base ++ path) ≠ none →
    ∃ entry ∈ entries, entry.path = path

/-- What the header of an object asks for, which says nothing about the permissions of a link. -/
def SourceFile.changes (file : SourceFile) : List Change :=
  .owner file.uid file.gid :: if file.kind = .link then [] else [.permissions file.mode]

/-- What the header of a hard link asks for. -/
def hardlinkChanges : List Change :=
  [.owner 0xffffffff 0xffffffff, .permissions 0xffffffff]

section Entries

variable (files : Inode → SourceFile) (base : List Bytes)

/-- One more entry on the disk, which is a hard link if its inode has been seen. -/
def placeEntry (seen : List Entry) (disk : Disk) (entry : Entry) : Disk :=
  match seen.find? fun other => other.inode = entry.inode with
  | some first => disk.link (base ++ first.path) (base ++ entry.path)
  | none => disk.add (base ++ entry.path) (fileObject (files entry.inode))

/-- The changes of owner and permissions asked for with an entry. -/
def entryChanges (seen : List Entry) (entry : Entry) : List Change :=
  match seen.find? fun other => other.inode = entry.inode with
  | some _ => hardlinkChanges
  | none => (files entry.inode).changes

variable {files} {base} {seen : List Entry} {entry : Entry}

theorem find_new (hinode : ∀ other ∈ seen, other.inode ≠ entry.inode) :
    (seen.find? fun other => other.inode = entry.inode) = none := by
  rw [List.find?_eq_none]
  intro other hother
  simpa using hinode other hother

theorem find_again {other : Entry} (hother : other ∈ seen) (hinode : other.inode = entry.inode) :
    ∃ first ∈ seen, first.inode = entry.inode ∧
      (seen.find? fun other => other.inode = entry.inode) = some first := by
  cases hfind : seen.find? fun other => other.inode = entry.inode with
  | none =>
      rw [List.find?_eq_none] at hfind
      exact absurd (decide_eq_true hinode) (hfind other hother)
  | some first =>
      exact ⟨first, List.mem_of_find?_eq_some hfind, by simpa using List.find?_some hfind, rfl⟩

theorem placeEntry_new (hinode : ∀ other ∈ seen, other.inode ≠ entry.inode) (disk : Disk) :
    placeEntry files base seen disk entry =
      disk.add (base ++ entry.path) (fileObject (files entry.inode)) := by
  rw [placeEntry, find_new hinode]

theorem entryChanges_new (hinode : ∀ other ∈ seen, other.inode ≠ entry.inode) :
    entryChanges files seen entry = (files entry.inode).changes := by
  rw [entryChanges, find_new hinode]

theorem entryChanges_again {other : Entry} (hother : other ∈ seen)
    (hinode : other.inode = entry.inode) : entryChanges files seen entry = hardlinkChanges := by
  obtain ⟨first, _, _, hfind⟩ := find_again hother hinode
  rw [entryChanges, hfind]

end Entries

/-! ## What has been rebuilt -/

section Rebuilding

variable (files : Inode → SourceFile) (cwd base : List Bytes)

/-- The entries seen so far are on the disk, and their paths are known by their numbers. -/
structure Rebuilt (seen : List Entry) (state : Extraction) : Prop where
  tree : SameTree files seen base state.disk
  root : ∃ path, state.objList objectIdRoot = some path ∧ path ≠ [] ∧ resolve cwd path = base
  rootDirectory : state.disk.isDirectory base = true
  paths : ∀ place entry, seen[place]? = some entry →
    ∃ path, state.objList (nobjectBuckets + 1 + place) = some path ∧ path ≠ [] ∧
      resolve cwd path = base ++ entry.path

/-- The number stands for the directory with this path. -/
def IsParent (seen : List Entry) (parent : Nat) (path : List Bytes) : Prop :=
  parent = objectIdRoot ∧ path = [] ∨
    ∃ place entry, seen[place]? = some entry ∧ parent = nobjectBuckets + 1 + place ∧
      entry.path = path ∧ (files entry.inode).kind = .directory

variable {files} {cwd base} {seen : List Entry} {state : Extraction}

theorem Rebuilt.parent (hrebuilt : Rebuilt files cwd base seen state) {parent : Nat}
    {path : List Bytes} (hparent : IsParent files seen parent path) :
    ∃ parentPath, state.objList parent = some parentPath ∧ parentPath ≠ [] ∧
      resolve cwd parentPath = base ++ path ∧ state.disk.isDirectory (base ++ path) = true := by
  rcases hparent with ⟨rfl, rfl⟩ | ⟨place, entry, hplace, rfl, rfl, hkind⟩
  · obtain ⟨rootPath, hroot, hne, hresolve⟩ := hrebuilt.root
    rw [List.append_nil]
    exact ⟨rootPath, hroot, hne, hresolve, hrebuilt.rootDirectory⟩
  · obtain ⟨entryPath, hentry, hne, hresolve⟩ := hrebuilt.paths place entry hplace
    obtain ⟨number, hnumber, hobject⟩ :=
      hrebuilt.tree.same entry (List.mem_of_getElem? hplace)
    refine ⟨entryPath, hentry, hne, hresolve, ?_⟩
    rw [Disk.isDirectory, hnumber]
    dsimp only
    rw [hobject, fileObject, hkind]
    rfl

theorem IsParent.append {parent : Nat} {path : List Bytes}
    (hparent : IsParent files seen parent path) (later : List Entry) :
    IsParent files (seen ++ later) parent path := by
  rcases hparent with hroot | ⟨place, entry, hplace, hrest⟩
  · exact .inl hroot
  · refine .inr ⟨place, entry, ?_, hrest⟩
    rw [List.getElem?_append_left (List.getElem?_eq_some_iff.1 hplace).1, hplace]

/-- A name for a file that is new or already there. -/
theorem Rebuilt.extend (hrebuilt : Rebuilt files cwd base seen state) {entry : Entry}
    {next : Extraction} {number : Nat} {path : Bytes}
    (hnew : entry.path ∉ seen.map Entry.path) (hentry : entry.path ≠ [])
    (hnames : next.disk.names =
      Function.update state.disk.names (base ++ entry.path) (some number))
    (hfiles : ∀ other < state.disk.next, next.disk.files other = state.disk.files other)
    (hobject : next.disk.files number = fileObject (files entry.inode))
    (hlinks : ∀ other ∈ seen,
      (state.disk.names (base ++ other.path) = some number ↔ other.inode = entry.inode))
    (hobjList : next.objList =
      Function.update state.objList (nobjectBuckets + 1 + seen.length) (some path))
    (hpath : path ≠ []) (hresolve : resolve cwd path = base ++ entry.path) :
    Rebuilt files cwd base (seen ++ [entry]) next := by
  have hself : next.disk.names (base ++ entry.path) = some number := by
    rw [hnames, Function.update_self]
  have hother : ∀ names, names ≠ entry.path →
      next.disk.names (base ++ names) = state.disk.names (base ++ names) := by
    intro names hne
    rw [hnames, Function.update_of_ne]
    exact fun hsame => hne (List.append_cancel_left hsame)
  have hseen : ∀ other ∈ seen,
      next.disk.names (base ++ other.path) = state.disk.names (base ++ other.path) := by
    intro other hmem
    apply hother
    intro hsame
    exact hnew (hsame ▸ List.mem_map_of_mem hmem)
  have hroot : nobjectBuckets + 1 + seen.length ≠ objectIdRoot := by
    rw [nobjectBuckets, objectIdRoot]
    omega
  refine ⟨⟨?_, ?_, ?_⟩, ?_, ?_, ?_⟩
  · intro other hmem
    rcases List.mem_append.1 hmem with hold | hlast
    · obtain ⟨old, hnumberOld, hcontents⟩ := hrebuilt.tree.same other hold
      exact ⟨old, by rw [hseen other hold, hnumberOld],
        by rw [hfiles old (state.disk.used _ _ hnumberOld), hcontents]⟩
    · obtain rfl := List.mem_singleton.1 hlast
      exact ⟨number, hself, hobject⟩
  · intro left hleft right hright
    rcases List.mem_append.1 hleft with holdLeft | hlastLeft
    · rcases List.mem_append.1 hright with holdRight | hlastRight
      · rw [hseen left holdLeft, hseen right holdRight]
        exact hrebuilt.tree.links left holdLeft right holdRight
      · obtain rfl := List.mem_singleton.1 hlastRight
        rw [hseen left holdLeft, hself]
        exact hlinks left holdLeft
    · obtain rfl := List.mem_singleton.1 hlastLeft
      rcases List.mem_append.1 hright with holdRight | hlastRight
      · rw [hseen right holdRight, hself, eq_comm, hlinks right holdRight, eq_comm]
      · obtain rfl := List.mem_singleton.1 hlastRight
        exact ⟨fun _ => rfl, fun _ => rfl⟩
  · intro names hne hsome
    by_cases hsame : names = entry.path
    · exact ⟨entry, by simp, hsame.symm⟩
    · rw [hother names hsame] at hsome
      obtain ⟨other, hmem, hpathEq⟩ := hrebuilt.tree.only names hne hsome
      exact ⟨other, List.mem_append_left _ hmem, hpathEq⟩
  · obtain ⟨rootPath, hrootPath, hrest⟩ := hrebuilt.root
    refine ⟨rootPath, ?_, hrest⟩
    rw [hobjList, Function.update_of_ne hroot.symm, hrootPath]
  · have hdirectory := hrebuilt.rootDirectory
    have hbase := hother [] (Ne.symm hentry)
    rw [List.append_nil] at hbase
    rw [Disk.isDirectory, hbase]
    rw [Disk.isDirectory] at hdirectory
    cases hold : state.disk.names base with
    | none =>
        rw [hold] at hdirectory
        cases hdirectory
    | some old =>
        rw [hold] at hdirectory
        dsimp only at hdirectory ⊢
        rw [hfiles old (state.disk.used _ _ hold), hdirectory]
  · intro place other hplace
    by_cases hlast : place = seen.length
    · rw [hlast, List.getElem?_concat_length] at hplace
      cases hplace
      exact ⟨path, by rw [hlast, hobjList, Function.update_self], hpath, hresolve⟩
    · have hlength := (List.getElem?_eq_some_iff.1 hplace).1
      rw [List.length_append, List.length_singleton] at hlength
      rw [List.getElem?_append_left (by omega)] at hplace
      obtain ⟨otherPath, hotherPath, hrest⟩ := hrebuilt.paths place other hplace
      refine ⟨otherPath, ?_, hrest⟩
      rw [hobjList, Function.update_of_ne (by omega), hotherPath]

theorem Rebuilt.isFree (hrebuilt : Rebuilt files cwd base seen state) {path : List Bytes}
    {name : Bytes} (hnew : path ++ [name] ∉ seen.map Entry.path)
    (hdirectory : state.disk.isDirectory (base ++ path) = true) :
    state.disk.IsFree (base ++ (path ++ [name])) := by
  refine ⟨?_, by simp, ?_⟩
  · by_contra hsome
    obtain ⟨entry, hmem, hpath⟩ := hrebuilt.tree.only (path ++ [name]) (by simp) hsome
    exact hnew (hpath ▸ List.mem_map_of_mem hmem)
  · rw [← List.append_assoc, List.dropLast_concat]
    exact hdirectory

/-- A file that is new. -/
theorem Rebuilt.add (hrebuilt : Rebuilt files cwd base seen state) {entry : Entry}
    {path : Bytes} (requests : List AttributeRequest)
    (hnew : entry.path ∉ seen.map Entry.path) (hentry : entry.path ≠ [])
    (hinode : ∀ other ∈ seen, other.inode ≠ entry.inode) (hpath : path ≠ [])
    (hresolve : resolve cwd path = base ++ entry.path) :
    Rebuilt files cwd base (seen ++ [entry])
      ⟨Function.update state.objList (nobjectBuckets + 1 + seen.length) (some path),
        state.disk.add (base ++ entry.path) (fileObject (files entry.inode)), requests⟩ := by
  apply hrebuilt.extend hnew hentry rfl ?_ (Function.update_self ..) ?_ rfl hpath hresolve
  · intro other hother
    exact Function.update_of_ne hother.ne _ _
  · intro other hmem
    refine ⟨fun hsome => absurd (state.disk.used _ _ hsome) (Nat.lt_irrefl _), fun hsame => ?_⟩
    exact absurd hsame (hinode other hmem)

theorem Rebuilt.link_eq (hrebuilt : Rebuilt files cwd base seen state) {entry other : Entry}
    (hother : other ∈ seen) (hinode : other.inode = entry.inode)
    (hkind : (files entry.inode).kind ≠ .directory)
    (hfree : state.disk.IsFree (base ++ entry.path)) :
    ∃ number, ∃ hnumber : state.disk.names (base ++ other.path) = some number,
      state.disk.files number = fileObject (files entry.inode) ∧
      state.disk.link (base ++ other.path) (base ++ entry.path) =
        state.disk.name (base ++ entry.path) number (state.disk.used _ number hnumber) := by
  obtain ⟨number, hnumber, hobject⟩ := hrebuilt.tree.same other hother
  rw [hinode] at hobject
  have hplain : state.disk.files number ≠ .directory := by
    rw [hobject, fileObject]
    cases hfile : (files entry.inode).kind with
    | directory => exact absurd hfile hkind
    | _ => exact nofun
  exact ⟨number, hnumber, hobject, Disk.link_free hnumber hplain hfree⟩

/-- One more name for a file. -/
theorem Rebuilt.link (hrebuilt : Rebuilt files cwd base seen state) {entry other : Entry}
    {path : Bytes} (requests : List AttributeRequest)
    (hnew : entry.path ∉ seen.map Entry.path) (hentry : entry.path ≠ [])
    (hother : other ∈ seen) (hinode : other.inode = entry.inode)
    (hkind : (files entry.inode).kind ≠ .directory)
    (hfree : state.disk.IsFree (base ++ entry.path)) (hpath : path ≠ [])
    (hresolve : resolve cwd path = base ++ entry.path) :
    Rebuilt files cwd base (seen ++ [entry])
      ⟨Function.update state.objList (nobjectBuckets + 1 + seen.length) (some path),
        state.disk.link (base ++ other.path) (base ++ entry.path), requests⟩ := by
  obtain ⟨number, hnumber, hobject, hlinked⟩ := hrebuilt.link_eq hother hinode hkind hfree
  rw [hlinked]
  refine hrebuilt.extend hnew hentry rfl (fun _ _ => rfl) hobject (fun third hthird => ?_)
    rfl hpath hresolve
  rw [← hinode, ← hrebuilt.tree.links third hthird other hother, hnumber]

/-- It is the same name whichever of the entries it is linked to. -/
theorem Rebuilt.link_place (hrebuilt : Rebuilt files cwd base seen state) {entry other : Entry}
    (hother : other ∈ seen) (hinode : other.inode = entry.inode)
    (hkind : (files entry.inode).kind ≠ .directory)
    (hfree : state.disk.IsFree (base ++ entry.path)) :
    state.disk.link (base ++ other.path) (base ++ entry.path) =
      placeEntry files base seen state.disk entry := by
  obtain ⟨first, hfirst, hsame, hfind⟩ := find_again hother hinode
  obtain ⟨number, hnumber, _, hlinked⟩ := hrebuilt.link_eq hother hinode hkind hfree
  obtain ⟨firstNumber, hfirstNumber, _, hfirstLinked⟩ :=
    hrebuilt.link_eq hfirst hsame hkind hfree
  have hnumbers : firstNumber = number := by
    rw [(hrebuilt.tree.links first hfirst other hother).2 (hsame.trans hinode.symm),
      hnumber] at hfirstNumber
    exact (Option.some.inj hfirstNumber).symm
  subst hnumbers
  rw [placeEntry, hfind]
  dsimp only
  rw [hlinked, hfirstLinked]

variable (leftover : UInt32 → UInt32 → Nat → UInt8)

theorem ofInt_objId {objId : Nat} (hobj : objId < maxObjects) :
    UInt32.ofInt (objId : Int) = UInt32.ofNat objId := by
  rw [maxObjects] at hobj
  have hsmall : ((objId : Int) % 2 ^ 32).toNat = objId := by omega
  rw [UInt32.ofInt, hsmall]

variable (files cwd base) in
/-- An entry is read in one turn of the loop, which asks for its changes of owner and
permissions by its path. -/
structure EntryTurn (seen : List Entry) (state : Extraction) (path : List Bytes) (name : Bytes)
    (inode : Inode) (record : Bytes) (next : Extraction) : Prop where
  turn : Turn cwd state record next
  rebuilt : Rebuilt files cwd base (seen ++ [⟨path ++ [name], inode⟩]) next
  disk : next.disk = placeEntry files base seen state.disk ⟨path ++ [name], inode⟩
  requests : ∃ parentPath : Bytes, parentPath ≠ [] ∧ resolve cwd parentPath = base ++ path ∧
    next.requests = state.requests ++
      (entryChanges files seen ⟨path ++ [name], inode⟩).map
        (Change.request (parentPath ++ [slash] ++ name))

section Objects

variable {parent : Nat} {path : List Bytes} {name : Bytes} {inode : Inode}
  (hrebuilt : Rebuilt files cwd base seen state) (hparent : IsParent files seen parent path)
  (hname : ProperName name) (hnew : path ++ [name] ∉ seen.map Entry.path)
  (hroom : nobjectBuckets + 1 + seen.length < maxObjects)

include hrebuilt hparent hname hnew hroom

/-- The header of an object makes it under its path. -/
theorem processChunk_entry :
    ∃ parentPath : Bytes,
      parentPath ≠ [] ∧ resolve cwd parentPath = base ++ path ∧
      resolve cwd (parentPath ++ [slash] ++ name) = base ++ (path ++ [name]) ∧
      state.disk.IsFree (base ++ (path ++ [name])) ∧
      ∀ (t : ObjectType) (s : SourceFile) (equivalentObj : Int) (aliasName input : Bytes),
        processChunk cwd (writeObjectHeader leftover (nobjectBuckets + 1 + seen.length) t s parent
            name equivalentObj aliasName) input state =
          processObject cwd (objectHeader t s parent name equivalentObj aliasName)
            (parentPath ++ [slash] ++ name) input
            { state with
              objList := Function.update state.objList (nobjectBuckets + 1 + seen.length)
                (some (parentPath ++ [slash] ++ name)) } := by
  obtain ⟨parentPath, hpath, hne, hresolve, hdirectory⟩ := hrebuilt.parent hparent
  have hsmall : parent < maxObjects := by
    rcases hparent with ⟨rfl, -⟩ | ⟨place, entry, hplace, rfl, -⟩
    · decide
    · have hlength := (List.getElem?_eq_some_iff.1 hplace).1
      omega
  refine ⟨parentPath, hne, hresolve, ?_, hrebuilt.isFree hnew hdirectory, ?_⟩
  · rw [List.append_assoc, List.singleton_append, resolve_append cwd hne, hresolve,
      hname.components_eq, List.append_assoc]
  · intro t s equivalentObj aliasName input
    exact processChunk_header leftover cwd hroom hsmall hpath hname.no_zero hname.length input

/-- What is written for a new inode makes it on the disk. -/
theorem writeObject_turn (hfile : ProperFile (files inode))
    (hinode : ∀ other ∈ seen, other.inode ≠ inode) :
    ∃ next, EntryTurn files cwd base seen state path name inode
      (writeObject leftover (nobjectBuckets + 1 + seen.length) parent name (files inode)) next := by
  obtain ⟨parentPath, hparentPath, hresolveParent, hresolve, hfree, hprocess⟩ :=
    processChunk_entry leftover hrebuilt hparent hname hnew hroom
  have hne : path ++ [name] ≠ [] := List.append_ne_nil_of_right_ne_nil _ (List.cons_ne_nil _ _)
  have hpath : parentPath ++ [slash] ++ name ≠ [] :=
    List.append_ne_nil_of_right_ne_nil _ hname.ne_nil
  have hadded : ∀ record, Turn cwd state record
      ⟨Function.update state.objList (nobjectBuckets + 1 + seen.length)
          (some (parentPath ++ [slash] ++ name)),
        state.disk.add (resolve cwd (parentPath ++ [slash] ++ name)) (fileObject (files inode)),
        state.requests ++
          (files inode).changes.map (Change.request (parentPath ++ [slash] ++ name))⟩ →
      ∃ next, EntryTurn files cwd base seen state path name inode record next := by
    rw [hresolve]
    refine fun record hturn => ⟨_, hturn, hrebuilt.add _ hnew hne hinode hpath hresolve, ?_, ?_⟩
    · exact (@placeEntry_new files base seen ⟨path ++ [name], inode⟩ hinode state.disk).symm
    · rw [@entryChanges_new files seen ⟨path ++ [name], inode⟩ hinode]
      exact ⟨parentPath, hparentPath, hresolveParent, rfl⟩
  rw [← hresolve] at hfree
  rw [ProperFile] at hfile
  rw [fileObject, SourceFile.changes] at hadded
  rw [writeObject]
  cases hkind : (files inode).kind with
  | directory =>
      rw [hkind] at hadded
      have hstep := fun rest => (hprocess .directory (files inode) (-1) [] rest).trans
        (processObject_directory hfree)
      exact hadded _ (turn_header leftover hstep)
  | link =>
      rw [hkind] at hfile hadded
      obtain ⟨htarget, hlength, hzero⟩ := hfile
      have hshort : (files inode).data.length ≤ sizeofSymname - 1 := by
        rw [maxAliasLength] at hlength
        rw [sizeofSymname]
        omega
      have hstep := fun rest => (hprocess .symlink (files inode) (-1) (files inode).data rest).trans
        (processObject_symlink hfree htarget hlength hzero)
      rw [List.take_of_length_le hshort]
      exact hadded _ (turn_header leftover hstep)
  | regular =>
      rw [hkind] at hfile hadded
      have hstep := fun rest => (hprocess .file (files inode) (-1) [] (writeData leftover
        (nobjectBuckets + 1 + seen.length) ((files inode).data.length + 1) 0 (files inode).data ++
          rest)).trans (processObject_file leftover hfree hfile)
      exact hadded _ (turn_object leftover hstep)
  | _ =>
      rw [hkind] at hfile
      exact absurd hfile id

/-- What is written for a known inode makes a hard link. -/
theorem writeHardlink_turn {place : Nat} {other : Entry} (hother : seen[place]? = some other)
    (hinode : other.inode = inode) (hkind : (files inode).kind ≠ .directory) :
    ∃ next, EntryTurn files cwd base seen state path name inode
      (writeObjectHeader leftover (nobjectBuckets + 1 + seen.length) .hardlink
        (files inode) parent name ((nobjectBuckets + 1 + place : Nat) : Int) []) next := by
  obtain ⟨parentPath, hparentPath, hresolveParent, hresolve, hfree, hprocess⟩ :=
    processChunk_entry leftover hrebuilt hparent hname hnew hroom
  have hne : path ++ [name] ≠ [] := List.append_ne_nil_of_right_ne_nil _ (List.cons_ne_nil _ _)
  have hpath : parentPath ++ [slash] ++ name ≠ [] :=
    List.append_ne_nil_of_right_ne_nil _ hname.ne_nil
  have hplace : place < seen.length := (List.getElem?_eq_some_iff.1 hother).1
  have hmem : other ∈ seen := List.mem_of_getElem? hother
  obtain ⟨oldPath, hold, _, hresolveOld⟩ := hrebuilt.paths place other hother
  have hequivalent : pathOf (Function.update state.objList (nobjectBuckets + 1 + seen.length)
      (some (parentPath ++ [slash] ++ name))) (UInt32.ofNat (nobjectBuckets + 1 + place)) =
        .ok oldPath := by
    apply pathOf_ofNat (by omega)
    rw [Function.update_of_ne (by omega), hold]
  have hstep : ∀ rest, processChunk cwd (writeObjectHeader leftover
      (nobjectBuckets + 1 + seen.length) .hardlink (files inode) parent name
      ((nobjectBuckets + 1 + place : Nat) : Int) []) rest state = .ok (rest,
        ⟨Function.update state.objList (nobjectBuckets + 1 + seen.length)
            (some (parentPath ++ [slash] ++ name)),
          state.disk.link (base ++ other.path) (base ++ (path ++ [name])),
          state.requests ++
            hardlinkChanges.map (Change.request (parentPath ++ [slash] ++ name))⟩) := by
    intro rest
    rw [hprocess, processObject, ofCode_objectHeader]
    dsimp only
    rw [objectHeader_equivalent, ofInt_objId (by omega), hequivalent, ← hresolveOld, ← hresolve]
    rfl
  refine ⟨_, turn_header leftover hstep,
    hrebuilt.link _ hnew hne hmem hinode hkind hfree hpath hresolve, ?_, ?_⟩
  · exact @Rebuilt.link_place files cwd base seen state hrebuilt ⟨path ++ [name], inode⟩ other
      hmem hinode hkind hfree
  · rw [@entryChanges_again files seen ⟨path ++ [name], inode⟩ other hmem hinode]
    exact ⟨parentPath, hparentPath, hresolveParent, rfl⟩

end Objects

/-! ## The table of inodes -/

theorem objCompare_neg {left right : ObjItem} :
    objCompare left right < 0 ↔ left.inode.dev < right.inode.dev ∨
      left.inode.dev = right.inode.dev ∧ left.inode.ino < right.inode.ino := by
  unfold objCompare
  split_ifs <;> omega

theorem objCompare_pos {left right : ObjItem} :
    0 < objCompare left right ↔ right.inode.dev < left.inode.dev ∨
      left.inode.dev = right.inode.dev ∧ right.inode.ino < left.inode.ino := by
  unfold objCompare
  split_ifs <;> omega

theorem objCompare_orders : Orders objCompare where
  sign := by
    intro left right
    rw [objCompare_neg, objCompare_pos, eq_comm]
  trans := by
    intro left middle right
    rw [← not_lt, ← not_lt, ← not_lt, objCompare_pos, objCompare_pos, objCompare_pos]
    omega

theorem objCompare_eq_zero {left right : ObjItem} :
    objCompare left right = 0 ↔ left.inode = right.inode := by
  rw [Inode.ext_iff]
  unfold objCompare
  split_ifs
  all_goals
    constructor
    · intro hzero
      first | exact absurd hzero (by decide) | omega
    · intro hsame
      omega

/-- The table is sorted and holds the first object of every inode seen so far. -/
structure TableKnows (seen : List Entry) (objList : List ObjItem) : Prop where
  sorted : Sorted objCompare objList
  items : ∀ item ∈ objList, ∃ place entry, seen[place]? = some entry ∧
    entry.inode = item.inode ∧ item.obj = nobjectBuckets + 1 + place
  covers : ∀ entry ∈ seen, ∃ item ∈ objList, item.inode = entry.inode
  count : objList.length ≤ seen.length

theorem tableKnows_nil : TableKnows [] [] :=
  ⟨List.Pairwise.nil, List.forall_mem_nil _, List.forall_mem_nil _, le_rfl⟩

theorem TableKnows.find_known {objList : List ObjItem} (htable : TableKnows seen objList)
    {inode : Inode} (hfound : findObjInList objList inode > 0) :
    ∃ place entry, seen[place]? = some entry ∧ entry.inode = inode ∧
      findObjInList objList inode = ((nobjectBuckets + 1 + place : Nat) : Int) := by
  rw [findObjInList] at hfound ⊢
  cases hsearch : bsearch objCompare ⟨inode, 0⟩ objList with
  | none =>
      rw [hsearch] at hfound
      dsimp only at hfound
      omega
  | some item =>
      obtain ⟨hmem, hzero⟩ := bsearch_sound hsearch
      obtain ⟨place, entry, hplace, hinode, hobj⟩ := htable.items item hmem
      have hsame : inode = item.inode := (objCompare_eq_zero).1 hzero
      exact ⟨place, entry, hplace, hinode.trans hsame.symm, congrArg Nat.cast hobj⟩

theorem TableKnows.find_new {objList : List ObjItem} (htable : TableKnows seen objList)
    {inode : Inode} (hfound : ¬findObjInList objList inode > 0) :
    ∀ other ∈ seen, other.inode ≠ inode := by
  intro other hother hinode
  obtain ⟨item, hmem, hitem⟩ := htable.covers other hother
  have hsearch : bsearch objCompare ⟨inode, 0⟩ objList = some item :=
    bsearch_complete objCompare_orders htable.sorted hmem
      ((objCompare_eq_zero).2 (hinode.symm.trans hitem.symm))
  obtain ⟨place, _, _, _, hobj⟩ := htable.items item hmem
  rw [findObjInList, hsearch] at hfound
  dsimp only at hfound
  omega

theorem TableKnows.items_append {objList : List ObjItem} (htable : TableKnows seen objList)
    (last : Entry) {item : ObjItem} (hmem : item ∈ objList) :
    ∃ place entry, (seen ++ [last])[place]? = some entry ∧
      entry.inode = item.inode ∧ item.obj = nobjectBuckets + 1 + place := by
  obtain ⟨place, entry, hplace, hrest⟩ := htable.items item hmem
  refine ⟨place, entry, ?_, hrest⟩
  rw [List.getElem?_append_left (List.getElem?_eq_some_iff.1 hplace).1, hplace]

/-- A hard link leaves the table as it is. -/
theorem TableKnows.again {objList : List ObjItem} (htable : TableKnows seen objList)
    {entry other : Entry} (hother : other ∈ seen) (hinode : other.inode = entry.inode) :
    TableKnows (seen ++ [entry]) objList where
  sorted := htable.sorted
  items := fun _ hmem => htable.items_append entry hmem
  covers := by
    intro third hthird
    rcases List.mem_append.1 hthird with hold | hlast
    · exact htable.covers third hold
    · obtain rfl := List.mem_singleton.1 hlast
      rw [← hinode]
      exact htable.covers other hother
  count := by
    rw [List.length_append]
    exact htable.count.trans (Nat.le_add_right _ _)

theorem TableKnows.add {objList : List ObjItem} (htable : TableKnows seen objList)
    {entry : Entry} (hinode : ∀ other ∈ seen, other.inode ≠ entry.inode)
    (hroom : nobjectBuckets + 1 + seen.length < maxObjects) :
    ∃ added, addObjToList objList entry.inode (nobjectBuckets + 1 + seen.length) = .ok added ∧
      TableKnows (seen ++ [entry]) added := by
  have hcount := htable.count
  refine ⟨_, if_pos (by omega), ⟨?_, ?_, ?_, ?_⟩⟩
  · apply sorted_qsort objCompare_orders
    rw [List.pairwise_append]
    refine ⟨htable.sorted.imp fun hlt => hlt.ne, List.pairwise_singleton _ _, ?_⟩
    intro item hitem last hlast hzero
    obtain rfl := List.mem_singleton.1 hlast
    obtain ⟨place, other, hplace, hother, _⟩ := htable.items item hitem
    exact hinode other (List.mem_of_getElem? hplace)
      (hother.trans ((objCompare_eq_zero).1 hzero))
  · intro item hitem
    rw [mem_qsort] at hitem
    rcases List.mem_append.1 hitem with hold | hlast
    · exact htable.items_append entry hold
    · obtain rfl := List.mem_singleton.1 hlast
      exact ⟨seen.length, entry, List.getElem?_concat_length, rfl, rfl⟩
  · intro other hother
    rcases List.mem_append.1 hother with hold | hlast
    · obtain ⟨item, hmem, hitem⟩ := htable.covers other hold
      exact ⟨item, mem_qsort.2 (List.mem_append_left _ hmem), hitem⟩
    · obtain rfl := List.mem_singleton.1 hlast
      exact ⟨_, mem_qsort.2 (List.mem_append_right _ (List.mem_singleton_self _)), rfl⟩
  · rw [length_qsort, List.length_append, List.length_append]
    exact Nat.add_le_add_right hcount 1

/-! ## The traversal -/

variable (files cwd base) in
/-- The image holds the entries seen so far. -/
structure Kept (start : Extraction) (seen : List Entry) (writer : Writer) : Prop where
  objId : writer.objId = nobjectBuckets + 1 + seen.length
  table : TableKnows seen writer.objList
  rebuilt : ∃ state, Extracts cwd start writer.image state ∧ Rebuilt files cwd base seen state

/-- What a tree says about one of its entries and those before it. -/
theorem IsTree.entry_facts {source : Bytes} {later : List Entry} {entry : Entry}
    (htree : IsTree files source (seen ++ entry :: later)) :
    entry.path ∉ seen.map Entry.path ∧ ProperFile (files entry.inode) ∧
      nobjectBuckets + 1 + seen.length < maxObjects ∧
      ((files entry.inode).kind = .directory → ∀ other ∈ seen, other.inode ≠ entry.inode) := by
  have hmem : entry ∈ seen ++ entry :: later := by simp
  have hdistinct := htree.distinct
  rw [List.map_append, List.map_cons, List.nodup_append] at hdistinct
  have hroom := htree.room
  rw [List.length_append, List.length_cons] at hroom
  refine ⟨?_, htree.files entry hmem, by omega, ?_⟩
  · intro hseen
    exact hdistinct.2.2 _ hseen _ (List.mem_cons_self ..) rfl
  · intro hkind other hother hinode
    have hdirectories := htree.directories
    rw [List.filter_append, List.filter_cons_of_pos (by simpa using hkind),
      List.pairwise_append] at hdirectories
    apply hdirectories.2.2 other ?_ entry (List.mem_cons_self ..) hinode
    rw [List.mem_filter, hinode]
    exact ⟨hother, by simpa using hkind⟩

/-- One entry is written, and read in one turn. -/
theorem processEntry_turn {writer : Writer} {parent : Nat} {path : List Bytes} {name : Bytes}
    {inode : Inode} (hobjId : writer.objId = nobjectBuckets + 1 + seen.length)
    (htable : TableKnows seen writer.objList) (hrebuilt : Rebuilt files cwd base seen state)
    (hparent : IsParent files seen parent path)
    (hname : ProperName name) (hnew : path ++ [name] ∉ seen.map Entry.path)
    (hfile : ProperFile (files inode)) (hroom : nobjectBuckets + 1 + seen.length < maxObjects)
    (hdirectory : (files inode).kind = .directory → ∀ other ∈ seen, other.inode ≠ inode) :
    ∃ objList record next,
      processEntry leftover files parent name inode writer =
        .ok (⟨objList, writer.objId + 1, writer.image ++ record⟩,
          decide ((files inode).kind = .directory)) ∧
      TableKnows (seen ++ [⟨path ++ [name], inode⟩]) objList ∧
      EntryTurn files cwd base seen state path name inode record next := by
  have hkind : (files inode).kind ≠ .other := by
    intro hother
    rw [ProperFile, hother] at hfile
    exact hfile
  rw [processEntry, if_neg hkind, hobjId]
  by_cases hfound : findObjInList writer.objList inode > 0
  · obtain ⟨place, other, hplace, hinode, hobj⟩ := htable.find_known hfound
    have hplain : (files inode).kind ≠ .directory := fun hdir =>
      hdirectory hdir other (List.mem_of_getElem? hplace) hinode
    obtain ⟨next, hnext⟩ := writeHardlink_turn leftover hrebuilt hparent hname hnew hroom hplace
      hinode hplain
    rw [if_pos hfound, hobj, decide_eq_false hplain]
    exact ⟨_, _, next, rfl, htable.again (List.mem_of_getElem? hplace) hinode, hnext⟩
  · have hinode : ∀ other ∈ seen, other.inode ≠ (Entry.mk (path ++ [name]) inode).inode :=
      htable.find_new hfound
    obtain ⟨next, hnext⟩ := writeObject_turn leftover hrebuilt hparent hname hnew hroom hfile
      hinode
    obtain ⟨added, hadded, hknows⟩ := htable.add hinode hroom
    rw [if_neg hfound, hadded]
    exact ⟨_, _, next, rfl, hknows, hnext⟩

/-- One entry is written and extracted. -/
theorem processEntry_kept {start : Extraction} {writer : Writer} {parent : Nat}
    {path : List Bytes} {name : Bytes} {inode : Inode}
    (hkept : Kept files cwd base start seen writer) (hparent : IsParent files seen parent path)
    (hname : ProperName name) (hnew : path ++ [name] ∉ seen.map Entry.path)
    (hfile : ProperFile (files inode)) (hroom : nobjectBuckets + 1 + seen.length < maxObjects)
    (hdirectory : (files inode).kind = .directory → ∀ other ∈ seen, other.inode ≠ inode) :
    ∃ next, processEntry leftover files parent name inode writer =
        .ok (next, decide ((files inode).kind = .directory)) ∧
      Kept files cwd base start (seen ++ [⟨path ++ [name], inode⟩]) next := by
  obtain ⟨state, hextracts, hrebuilt⟩ := hkept.rebuilt
  obtain ⟨objList, record, next, hprocess, htable, hnext⟩ := processEntry_turn leftover
    hkept.objId hkept.table hrebuilt hparent hname hnew hfile hroom hdirectory
  refine ⟨_, hprocess, ⟨?_, htable, next, hextracts.trans hnext.turn.extracts, hnext.rebuilt⟩⟩
  rw [hkept.objId, List.length_append, List.length_singleton]
  rfl

theorem pathString_append (source : Bytes) (path : List Bytes) (name : Bytes) :
    pathString source path ++ [slash] ++ name = pathString source (path ++ [name]) := by
  rw [pathString, pathString, List.flatMap_append, List.flatMap_singleton, List.append_assoc,
    List.append_assoc]
  rfl

variable (files) in
/-- Every entry keeps what is said about the entries seen so far and the writer. -/
structure KeepsEntries (P : List Entry → Writer → Prop) : Prop where
  objId : ∀ {seen writer}, P seen writer → writer.objId = nobjectBuckets + 1 + seen.length
  entry : ∀ {seen writer parent path name inode}, P seen writer →
    IsParent files seen parent path → ProperName name → path ++ [name] ∉ seen.map Entry.path →
    ProperFile (files inode) → nobjectBuckets + 1 + seen.length < maxObjects →
    ((files inode).kind = .directory → ∀ other ∈ seen, other.inode ≠ inode) →
    ∃ next, processEntry leftover files parent name inode writer =
        .ok (next, decide ((files inode).kind = .directory)) ∧
      P (seen ++ [⟨path ++ [name], inode⟩]) next

/-- A directory is written. -/
theorem processDirectory_keeps {P : List Entry → Writer → Prop}
    (hkeeps : KeepsEntries files leftover P) {source : Bytes} (listing : Listing)
    {later : List Entry} {writer : Writer} {parent : Nat} {path : List Bytes}
    (htree : IsTree files source (seen ++ (listing.entries files path ++ later)))
    (hparent : IsParent files seen parent path) (hkept : P seen writer) :
    ∃ last, processDirectory leftover files parent (pathString source path) listing writer =
        .ok last ∧
      P (seen ++ listing.entries files path) last := by
  induction listing generalizing seen later writer parent path with
  | done =>
      refine ⟨writer, rfl, ?_⟩
      rw [Listing.entries, List.append_nil]
      exact hkept
  | entry name inode inside rest ihInside ihRest =>
      rw [processDirectory]
      rw [Listing.entries] at htree ⊢
      by_cases hdot : IsDot name
      · rw [if_pos hdot] at htree ⊢
        rw [if_pos hdot]
        exact ihRest htree hparent hkept
      · rw [if_neg hdot] at htree ⊢
        rw [if_neg hdot, pathString_append]
        rw [List.append_assoc, List.cons_append] at htree
        obtain ⟨hnew, hfile, hroom, hdirectory⟩ := htree.entry_facts
        have hmem : Entry.mk (path ++ [name]) inode ∈ seen ++ Entry.mk (path ++ [name]) inode ::
            ((if (files inode).kind = .directory then inside.entries files (path ++ [name])
              else []) ++ (rest.entries files path ++ later)) := by simp
        have hname : ProperName name := htree.names _ hmem name (by simp)
        obtain ⟨next, hprocess, hnext⟩ := hkeeps.entry hkept hparent hname hnew hfile
          hroom hdirectory
        rw [if_pos (htree.fullNames _ hmem), hprocess]
        rw [← List.singleton_append, ← List.append_assoc] at htree
        by_cases hkind : (files inode).kind = .directory
        · have hinside : IsParent files (seen ++ [⟨path ++ [name], inode⟩]) writer.objId
              (path ++ [name]) :=
            .inr ⟨seen.length, _, List.getElem?_concat_length, hkeeps.objId hkept, rfl, hkind⟩
          rw [if_pos hkind] at htree ⊢
          obtain ⟨inner, hinner, hkeptInner⟩ := ihInside htree hinside hnext
          rw [← List.append_assoc] at htree
          obtain ⟨last, hlast, hkeptLast⟩ :=
            ihRest htree ((hparent.append _).append _) hkeptInner
          refine ⟨last, ?_, ?_⟩
          · rw [decide_eq_true hkind]
            change (processDirectory leftover files writer.objId
              (pathString source (path ++ [name])) inside next >>= _) = _
            rw [hinner]
            exact hlast
          · rw [List.cons_append, ← List.singleton_append, ← List.append_assoc,
              ← List.append_assoc]
            exact hkeptLast
        · rw [if_neg hkind] at htree ⊢
          rw [List.nil_append] at htree
          obtain ⟨last, hlast, hkeptLast⟩ := ihRest htree (hparent.append _) hnext
          refine ⟨last, ?_, ?_⟩
          · rw [decide_eq_false hkind]
            exact hlast
          · rw [List.append_assoc] at hkeptLast
            exact hkeptLast

theorem kept_entries (start : Extraction) :
    KeepsEntries files leftover (Kept files cwd base start) where
  objId := Kept.objId
  entry := processEntry_kept leftover

end Rebuilding

/-- A directory without entries. -/
structure EmptyDirectory (disk : Disk) (base : List Bytes) : Prop where
  directory : disk.isDirectory base = true
  empty : ∀ path, path ≠ [] → disk.names (base ++ path) = none

section RoundTrip

variable (leftover : UInt32 → UInt32 → Nat → UInt8) {files : Inode → SourceFile}
  {cwd : List Bytes} {disk : Disk}

theorem EmptyDirectory.tree {base : List Bytes} (hempty : EmptyDirectory disk base) :
    SameTree files [] base disk where
  same := List.forall_mem_nil _
  links := List.forall_mem_nil _
  only := fun path hpath hsome => absurd (hempty.empty path hpath) hsome

theorem EmptyDirectory.named {base : List Bytes} (hempty : EmptyDirectory disk base) :
    disk.names base ≠ none := by
  intro hnone
  have hdirectory := hempty.directory
  rw [Disk.isDirectory, hnone] at hdirectory
  cases hdirectory

theorem EmptyDirectory.not_free {base : List Bytes} (hempty : EmptyDirectory disk base) :
    ¬disk.IsFree base :=
  fun hfree => hempty.named hfree.1

/-- The header of the root directory names the directory that is already there. -/
theorem root_turn {argument : Bytes} {directory : SourceFile}
    (hempty : EmptyDirectory disk (resolve cwd (dirName argument)))
    (hpath : rootPath argument ≠ []) :
    ∃ next : Extraction,
      Turn cwd (beginExtraction (rootPath argument) disk) (writeObjectHeader leftover objectIdRoot
        .directory directory objectIdRoot [] (-1) []) next ∧
      next.disk = disk ∧
      next.requests = [Change.owner directory.uid directory.gid, .permissions directory.mode].map
        (Change.request (rootPath argument ++ [slash] ++ [])) ∧
      Rebuilt files cwd (resolve cwd (dirName argument)) [] next := by
  have hresolve : resolve cwd (rootPath argument ++ [slash] ++ []) =
      resolve cwd (dirName argument) := by
    rw [List.append_assoc, List.singleton_append, resolve_append cwd hpath, resolve_rootPath]
    exact List.append_nil _
  have hroot : (beginExtraction (rootPath argument) disk).objList objectIdRoot =
      some (rootPath argument) := by
    change Function.update (fun _ => none) objectIdRoot (some (rootPath argument)) objectIdRoot = _
    rw [Function.update_self]
  have hagain : Function.update (beginExtraction (rootPath argument) disk).objList objectIdRoot
      (some (rootPath argument ++ [slash] ++ [])) objectIdRoot =
        some (rootPath argument ++ [slash] ++ []) := by
    rw [Function.update_self]
  have hstep : ∀ rest, processChunk cwd (writeObjectHeader leftover objectIdRoot .directory
      directory objectIdRoot [] (-1) []) rest (beginExtraction (rootPath argument) disk) =
        .ok (rest, setAttributes (objectHeader .directory directory objectIdRoot [] (-1) [])
          (rootPath argument ++ [slash] ++ []) true
          { beginExtraction (rootPath argument) disk with
            objList := Function.update (beginExtraction (rootPath argument) disk).objList
              objectIdRoot (some (rootPath argument ++ [slash] ++ [])) }) := by
    intro rest
    rw [processChunk_header leftover cwd (by decide) (by decide) hroot (List.forall_mem_nil _)
      (by decide), processObject, ofCode_objectHeader]
    dsimp only
    rw [hresolve, Disk.mkdir, beginExtraction, if_neg hempty.not_free]
  refine ⟨_, turn_header leftover hstep, rfl, rfl, ⟨hempty.tree, ?_, hempty.directory, (by simp)⟩⟩
  exact ⟨rootPath argument ++ [slash] ++ [], hagain,
    List.append_ne_nil_of_left_ne_nil (List.append_ne_nil_of_left_ne_nil hpath _) _, hresolve⟩

theorem root_kept {argument : Bytes} {directory : SourceFile}
    (hempty : EmptyDirectory disk (resolve cwd (dirName argument)))
    (hpath : rootPath argument ≠ []) :
    Kept files cwd (resolve cwd (dirName argument)) (beginExtraction (rootPath argument) disk) []
      ⟨[], nobjectBuckets + 1, writeObjectHeader leftover objectIdRoot .directory directory
        objectIdRoot [] (-1) []⟩ := by
  obtain ⟨next, hturn, _, _, hrebuilt⟩ := root_turn leftover hempty hpath
  exact ⟨rfl, tableKnows_nil, next, hturn.extracts, hrebuilt⟩

theorem rootPath_ne_nil {argument : Bytes} (hargument : dirName argument ≠ []) :
    rootPath argument ≠ [] := by
  rw [rootPath]
  split
  case isTrue => exact hargument
  case isFalse => exact List.append_ne_nil_of_left_ne_nil (List.cons_ne_nil _ _) _

/-- An image that mkyaffs2image has written is extracted to the same tree. -/
theorem unyaffs_mkyaffs2image {source argument : Bytes} {directory : SourceFile}
    {listing : Listing} (htree : IsTree files source (listing.entries files []))
    (hargument : dirName argument ≠ []) (hroom : (rootPath argument).length < sizeofRootPath)
    (hempty : EmptyDirectory disk (resolve cwd (dirName argument))) :
    ∃ image extraction,
      mkyaffs2image leftover files source directory listing = .ok image ∧
      unyaffs cwd argument image disk = .ok extraction ∧
      SameTree files (listing.entries files []) (resolve cwd (dirName argument))
        extraction.disk := by
  have hpath : rootPath argument ≠ [] := rootPath_ne_nil hargument
  have hsource : pathString source [] = source := List.append_nil source
  rw [← List.append_nil (listing.entries files []), ← List.nil_append (_ ++ [])] at htree
  obtain ⟨last, hlast, hkept⟩ := processDirectory_keeps leftover (kept_entries leftover _) listing
    htree (.inl ⟨rfl, rfl⟩) (root_kept leftover hempty hpath)
  rw [hsource] at hlast
  obtain ⟨extraction, hextracts, hrebuilt⟩ := hkept.rebuilt
  obtain ⟨left, hleft, hloop⟩ := hextracts [] (last.image.length + 1)
    (by rw [List.append_nil]; exact Nat.lt_succ_self _)
  refine ⟨last.image, extraction, ?_, ?_, hrebuilt.tree⟩
  · rw [mkyaffs2image, hlast]
    rfl
  · cases left with
    | zero => exact absurd hleft (Nat.not_lt_zero _)
    | succ left =>
        rw [List.append_nil] at hloop
        rw [unyaffs, if_neg hargument, Disk.mkdir, if_neg hempty.not_free,
          if_neg (not_or_intro hargument hempty.named), if_pos hroom, hloop]
        rfl

end RoundTrip

def sampleFiles (inode : Inode) : SourceFile where
  mode := if inode.ino = 5 then 0o100644 else if inode.ino = 6 then 0o040755 else 0o120777
  uid := 0
  gid := 0
  atime := 0
  mtime := 0
  ctime := 0
  rdev := 0
  data := if inode.ino = 5 then [1, 2, 3] else if inode.ino = 6 then [] else [97]

/-- A file, and a directory with a symbolic link and a hard link to the file. -/
def sampleListing : Listing :=
  .entry [46] ⟨1, 2⟩ .done <| .entry [97] ⟨1, 5⟩ .done <|
    .entry [98] ⟨1, 6⟩ (.entry [99] ⟨1, 7⟩ .done (.entry [100] ⟨1, 5⟩ .done .done)) .done

/-- An empty directory in the root directory. -/
def sampleDisk : Disk where
  names := fun path => if path = [] then some 0 else if path = [[101]] then some 1 else none
  files := fun _ => .directory
  next := 2
  used := by
    intro path number hnumber
    split_ifs at hnumber
    · cases hnumber
      decide
    · cases hnumber
      decide

theorem sample_isTree :
    IsTree sampleFiles [47, 101] (sampleListing.entries sampleFiles []) := by
  have hentries : sampleListing.entries sampleFiles [] =
      [⟨[[97]], ⟨1, 5⟩⟩, ⟨[[98]], ⟨1, 6⟩⟩, ⟨[[98], [99]], ⟨1, 7⟩⟩, ⟨[[98], [100]], ⟨1, 5⟩⟩] := rfl
  rw [hentries]
  refine ⟨by decide, by decide, ?_, ?_, by simp [pathString, sizeofFullName],
    by simp [nobjectBuckets, maxObjects]⟩
  · have hletter : ∀ byte ∈ ([97, 98, 99, 100] : Bytes), ProperName [byte] := by
      intro byte hbyte
      have hplain : ∀ letter ∈ ([97, 98, 99, 100] : Bytes),
          letter ≠ 0 ∧ letter ≠ 46 ∧ letter ≠ slash := forall_mem_of_all (by decide)
      obtain ⟨hzero, hdot, hslash⟩ := hplain byte hbyte
      exact ⟨List.cons_ne_nil _ _, by simp [IsDot, hdot], by simp [hzero], by simp [hslash],
        by rw [List.length_singleton]; decide⟩
    rw [List.forall_mem_cons, List.forall_mem_cons, List.forall_mem_cons,
      List.forall_mem_cons] at hletter
    simp [hletter]
  · have hregular : (sampleFiles ⟨1, 5⟩).kind = .regular := rfl
    have hdirectory : (sampleFiles ⟨1, 6⟩).kind = .directory := rfl
    have hlink : (sampleFiles ⟨1, 7⟩).kind = .link := rfl
    simp [ProperFile, hregular, hdirectory, hlink]
    simp [sampleFiles, maxAliasLength]

theorem sample_empty : EmptyDirectory sampleDisk [[101]] := by
  refine ⟨rfl, fun path hpath => ?_⟩
  cases path with
  | nil => exact absurd rfl hpath
  | cons name path => simp [sampleDisk]

theorem unyaffs_mkyaffs2image_sample :
    ∃ image extraction,
      mkyaffs2image (fun _ _ _ => 0) sampleFiles [47, 101] (sampleFiles ⟨1, 6⟩) sampleListing =
        .ok image ∧
      unyaffs [] [47, 101] image sampleDisk = .ok extraction ∧
      SameTree sampleFiles (sampleListing.entries sampleFiles []) [[101]] extraction.disk :=
  unyaffs_mkyaffs2image _ sample_isTree (by decide) (by decide) sample_empty

end OpenRecovery.Yaffs
