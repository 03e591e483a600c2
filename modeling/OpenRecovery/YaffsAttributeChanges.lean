import OpenRecovery.YaffsAttributes
import OpenRecovery.YaffsRoundTrip
import Mathlib

/-!
# Where a change of owner or permissions goes

Changes that leave the attributes of a file as they are can be told by the last of them.  In a
directory tree the path of an object leads to its name; only there can a symbolic link lead
further.
-/

namespace OpenRecovery.Yaffs

/-! ## Changes that leave a file alone -/

def Change.uid? : Change → Option UInt32
  | .owner uid _ => if uid = 0xffffffff then none else some uid
  | .permissions _ => none

def Change.gid? : Change → Option UInt32
  | .owner _ gid => if gid = 0xffffffff then none else some gid
  | .permissions _ => none

def Change.IsOwner : Change → Prop
  | .owner _ _ => True
  | .permissions _ => False

/-- The last new owner is the old one.  A change of owner of a file finds no privileges to take
away, and permissions that are set are the old ones but for the privileges that a change of owner
takes away behind them. -/
structure Undisturbed (isDirectory : Bool) (attributes : Attributes) (changes : List Change) :
    Prop where
  uid : ∀ uid ∈ (changes.filterMap Change.uid?).getLast?, uid = attributes.uid
  gid : ∀ gid ∈ (changes.filterMap Change.gid?).getLast?, gid = attributes.gid
  privileges : (∀ change ∈ changes, change.IsOwner) → changes ≠ [] → isDirectory = false →
    dropPrivileges attributes.mode = attributes.mode
  permissions : ∀ before mode after, changes = before ++ .permissions mode :: after →
    (∀ change ∈ after, change.IsOwner) →
    (if isDirectory ∨ after = [] then permissionBits mode
      else dropPrivileges (permissionBits mode)) = attributes.mode

theorem dropPrivileges_dropPrivileges (mode : UInt32) :
    dropPrivileges (dropPrivileges mode) = dropPrivileges mode := by
  have hgroup : dropPrivileges mode &&& 0o010 = mode &&& 0o010 := by
    rw [dropPrivileges, UInt32.and_assoc]
    split_ifs <;> rfl
  rw [dropPrivileges, hgroup, dropPrivileges, UInt32.and_assoc, UInt32.and_self]

section Changes

variable (isDirectory : Bool) (attributes : Attributes)

theorem applyChanges_append (first second : List Change) :
    applyChanges isDirectory attributes (first ++ second) =
      applyChanges isDirectory (applyChanges isDirectory attributes first) second :=
  List.foldl_append

theorem applyChanges_uid (changes : List Change) :
    (applyChanges isDirectory attributes changes).uid =
      (changes.filterMap Change.uid?).getLast?.getD attributes.uid := by
  induction changes using List.reverseRecOn with
  | nil => rfl
  | append_singleton changes change ih =>
      rw [applyChanges_append, List.filterMap_append]
      cases change with
      | permissions mode =>
          rw [show [Change.permissions mode].filterMap Change.uid? = [] from rfl, List.append_nil,
            ← ih]
          rfl
      | owner uid gid =>
          change (if uid = 0xffffffff then _ else uid) = _
          by_cases hsame : uid = 0xffffffff
          · rw [if_pos hsame, List.filterMap_cons_none (by rw [Change.uid?, if_pos hsame]),
              List.filterMap_nil, List.append_nil, ih]
          · rw [if_neg hsame, List.filterMap_cons_some (by rw [Change.uid?, if_neg hsame]),
              List.filterMap_nil, List.getLast?_concat, Option.getD_some]

theorem applyChanges_gid (changes : List Change) :
    (applyChanges isDirectory attributes changes).gid =
      (changes.filterMap Change.gid?).getLast?.getD attributes.gid := by
  induction changes using List.reverseRecOn with
  | nil => rfl
  | append_singleton changes change ih =>
      rw [applyChanges_append, List.filterMap_append]
      cases change with
      | permissions mode =>
          rw [show [Change.permissions mode].filterMap Change.gid? = [] from rfl, List.append_nil,
            ← ih]
          rfl
      | owner uid gid =>
          change (if gid = 0xffffffff then _ else gid) = _
          by_cases hsame : gid = 0xffffffff
          · rw [if_pos hsame, List.filterMap_cons_none (by rw [Change.gid?, if_pos hsame]),
              List.filterMap_nil, List.append_nil, ih]
          · rw [if_neg hsame, List.filterMap_cons_some (by rw [Change.gid?, if_neg hsame]),
              List.filterMap_nil, List.getLast?_concat, Option.getD_some]

/-- Changes of owner take the privileges away at once. -/
theorem applyChanges_owners {changes : List Change} (howners : ∀ change ∈ changes, change.IsOwner) :
    (applyChanges isDirectory attributes changes).mode =
      if isDirectory ∨ changes = [] then attributes.mode else dropPrivileges attributes.mode := by
  induction changes generalizing attributes with
  | nil => rw [if_pos (.inr rfl)]; rfl
  | cons change changes ih =>
      rw [List.forall_mem_cons] at howners
      cases change with
      | permissions mode => exact absurd howners.1 id
      | owner uid gid =>
          have hrest := ih (Change.applyTo isDirectory attributes (.owner uid gid)) howners.2
          change (applyChanges isDirectory _ changes).mode = _
          rw [hrest]
          cases isDirectory with
          | true => rfl
          | false =>
              change (if false = true ∨ changes = [] then dropPrivileges attributes.mode
                else dropPrivileges (dropPrivileges attributes.mode)) = _
              rw [dropPrivileges_dropPrivileges, ite_self, if_neg (by simp)]

theorem applyChanges_permissions {before after : List Change} {mode : UInt32}
    (hafter : ∀ change ∈ after, change.IsOwner) :
    (applyChanges isDirectory attributes (before ++ .permissions mode :: after)).mode =
      if isDirectory ∨ after = [] then permissionBits mode
        else dropPrivileges (permissionBits mode) := by
  rw [applyChanges_append]
  exact applyChanges_owners isDirectory _ hafter

/-- The last change of the permissions, if there is one. -/
theorem exists_last_permissions (changes : List Change) :
    (∀ change ∈ changes, change.IsOwner) ∨
      ∃ before mode after, changes = before ++ .permissions mode :: after ∧
        ∀ change ∈ after, change.IsOwner := by
  induction changes with
  | nil => exact .inl (List.forall_mem_nil _)
  | cons change changes ih =>
      rcases ih with howners | ⟨before, mode, after, rfl, hafter⟩
      · cases change with
        | owner uid gid => exact .inl (List.forall_mem_cons.2 ⟨trivial, howners⟩)
        | permissions mode => exact .inr ⟨[], mode, changes, rfl, howners⟩
      · exact .inr ⟨change :: before, mode, after, rfl, hafter⟩

theorem getD_eq_iff {α : Type} (last : Option α) (value : α) :
    last.getD value = value ↔ ∀ other ∈ last, other = value := by
  cases last with
  | none => simp
  | some other => simp

theorem applyChanges_eq_iff (changes : List Change) :
    applyChanges isDirectory attributes changes = attributes ↔
      Undisturbed isDirectory attributes changes := by
  constructor
  · intro hsame
    have hmode := congrArg Attributes.mode hsame
    refine ⟨?_, ?_, ?_, ?_⟩
    · rw [← getD_eq_iff, ← applyChanges_uid isDirectory, hsame]
    · rw [← getD_eq_iff, ← applyChanges_gid isDirectory, hsame]
    · intro howners hne hfile
      rw [applyChanges_owners isDirectory attributes howners, if_neg (by simp [hne, hfile])] at hmode
      exact hmode
    · intro before mode after hchanges hafter
      rw [hchanges, applyChanges_permissions isDirectory attributes hafter] at hmode
      exact hmode
  · intro hundisturbed
    have hmode : (applyChanges isDirectory attributes changes).mode = attributes.mode := by
      rcases exists_last_permissions changes with howners | ⟨before, mode, after, rfl, hafter⟩
      · rw [applyChanges_owners isDirectory attributes howners]
        split
        case isTrue => rfl
        case isFalse hfile =>
            rw [not_or, Bool.not_eq_true] at hfile
            exact hundisturbed.privileges howners hfile.2 hfile.1
      · rw [applyChanges_permissions isDirectory attributes hafter]
        exact hundisturbed.permissions before mode after rfl hafter
    have huid := (getD_eq_iff _ _).2 hundisturbed.uid
    have hgid := (getD_eq_iff _ _).2 hundisturbed.gid
    rw [← applyChanges_uid isDirectory] at huid
    rw [← applyChanges_gid isDirectory] at hgid
    cases hresult : applyChanges isDirectory attributes changes with
    | mk mode uid gid =>
        rw [hresult] at hmode huid hgid
        cases attributes with
        | mk oldMode oldUid oldGid =>
            dsimp only at hmode huid hgid
            rw [hmode, huid, hgid]

end Changes

/-! ## Paths through directories -/

/-- Every name lies in a directory. -/
structure Disk.Rooted (disk : Disk) : Prop where
  root : disk.isDirectory [] = true
  parents : ∀ path name, disk.names (path ++ [name]) ≠ none →
    disk.isDirectory path = true ∧ ¬IsDot name

section Walk

variable {disk : Disk} {path : List Bytes} {name : Bytes}

theorem Disk.isDirectory_iff :
    disk.isDirectory path = true ↔
      ∃ number, disk.names path = some number ∧ disk.files number = .directory := by
  rw [Disk.isDirectory]
  cases disk.names path with
  | none => simp
  | some number => simp

theorem Disk.named_of_isDirectory (hdirectory : disk.isDirectory path = true) :
    disk.names path ≠ none := by
  obtain ⟨number, hnumber, _⟩ := (Disk.isDirectory_iff).1 hdirectory
  rw [hnumber]
  exact Option.some_ne_none number

theorem Disk.Rooted.ancestor (hrooted : disk.Rooted) {rest : List Bytes} (hrest : rest ≠ [])
    (hnamed : disk.names (path ++ rest) ≠ none) : disk.isDirectory path = true := by
  induction rest using List.reverseRecOn with
  | nil => exact absurd rfl hrest
  | append_singleton rest last ih =>
      rw [← List.append_assoc] at hnamed
      have hdirectory := (hrooted.parents _ _ hnamed).1
      by_cases hnil : rest = []
      · rw [hnil, List.append_nil] at hdirectory
        exact hdirectory
      · exact ih hnil (Disk.named_of_isDirectory hdirectory)

theorem Disk.Rooted.directory (hrooted : disk.Rooted) {rest : List Bytes}
    (hdirectory : disk.isDirectory (path ++ rest) = true) : disk.isDirectory path = true := by
  by_cases hrest : rest = []
  · rw [hrest, List.append_nil] at hdirectory
    exact hdirectory
  · exact hrooted.ancestor hrest (Disk.named_of_isDirectory hdirectory)

/-- One more name in a directory. -/
theorem Disk.Rooted.extend (hrooted : disk.Rooted) {next : Disk} {number : Nat}
    (hfree : disk.IsFree (path ++ [name])) (hname : ¬IsDot name)
    (hnames : next.names = Function.update disk.names (path ++ [name]) (some number))
    (hfiles : ∀ other < disk.next, next.files other = disk.files other) : next.Rooted := by
  have hkept : ∀ other, disk.isDirectory other = true → next.isDirectory other = true := by
    intro other hdirectory
    obtain ⟨old, hold, hobject⟩ := (Disk.isDirectory_iff).1 hdirectory
    refine (Disk.isDirectory_iff).2 ⟨old, ?_, ?_⟩
    · rw [hnames, Function.update_of_ne, hold]
      intro hsame
      rw [hsame, hfree.1] at hold
      cases hold
    · rw [hfiles old (disk.used _ _ hold), hobject]
  obtain ⟨_, _, hparent⟩ := hfree
  rw [List.dropLast_concat] at hparent
  refine ⟨hkept _ hrooted.root, fun other last hnamed => ?_⟩
  by_cases hsame : other ++ [last] = path ++ [name]
  · obtain ⟨rfl, hlast⟩ := List.append_inj' hsame rfl
    obtain rfl := List.head_eq_of_cons_eq hlast
    exact ⟨hkept _ hparent, hname⟩
  · rw [hnames, Function.update_of_ne hsame] at hnamed
    obtain ⟨hdirectory, hdot⟩ := hrooted.parents _ _ hnamed
    exact ⟨hkept _ hdirectory, hdot⟩

variable {onLink : List Bytes → List Bytes → Option (List Bytes)}

/-- The names of directories lead down. -/
theorem walkNames_components (hrooted : disk.Rooted) {directory : List Bytes} (names : List Bytes)
    (hdirectory : disk.isDirectory
      (directory ++ names.filter fun name => name ≠ [] ∧ name ≠ [46]) = true)
    (rest : List Bytes) :
    walkNames disk onLink directory (names ++ rest) =
      walkNames disk onLink (directory ++ names.filter fun name => name ≠ [] ∧ name ≠ [46])
        rest := by
  induction names generalizing directory with
  | nil =>
      rw [List.filter_nil, List.append_nil]
      rfl
  | cons name names ih =>
      have hhere : disk.isDirectory directory = true := hrooted.directory hdirectory
      rw [List.cons_append, walkNames, hhere, if_neg (by simp)]
      by_cases hplain : name ≠ [] ∧ name ≠ [46]
      · rw [List.filter_cons_of_pos (by simpa using hplain),
          List.append_cons directory name (names.filter _)] at hdirectory ⊢
        obtain ⟨number, hnumber, hobject⟩ :=
          (Disk.isDirectory_iff).1 (hrooted.directory hdirectory)
        have hdot : ¬IsDot name := by
          refine (hrooted.parents directory name ?_).2
          rw [hnumber]
          exact Option.some_ne_none number
        rw [if_neg (by tauto), if_neg fun hup => hdot (.inr hup), hnumber]
        dsimp only [Option.map_some]
        rw [hobject]
        exact ih hdirectory
      · rw [List.filter_cons_of_neg (by simpa using hplain)] at hdirectory ⊢
        rw [if_pos (by tauto)]
        exact ih hdirectory

/-- The number of the file the last name of a path leads to. -/
def lastNumber (links : Nat) (disk : Disk) (path : List Bytes) (name : Bytes) : Option Nat :=
  (walk disk links path [name]).bind disk.names

theorem walk_eq_walkNames (disk : Disk) (links : Nat) :
    ∃ onLink, walk disk links = walkNames disk onLink := by
  cases links with
  | zero => exact ⟨_, rfl⟩
  | succ links => exact ⟨_, rfl⟩

/-- Only its last name matters for the path of an object. -/
theorem follow_append (hrooted : disk.Rooted) (links : Nat) {cwd : List Bytes}
    {parentPath : Bytes} (hparentPath : parentPath ≠ [])
    (hresolve : resolve cwd parentPath = path) (hdirectory : disk.isDirectory path = true)
    (hname : ∀ byte ∈ name, byte ≠ slash) :
    follow links cwd disk (parentPath ++ [slash] ++ name) = lastNumber links disk path name := by
  obtain ⟨onLink, hwalk⟩ := walk_eq_walkNames disk links
  have hstart : startOf cwd (parentPath ++ [slash] ++ name) = startOf cwd parentPath := by
    cases parentPath with
    | nil => exact absurd rfl hparentPath
    | cons byte rest => rfl
  have hpath : startOf cwd parentPath ++ components parentPath = path := by
    rw [← hresolve, resolve, startOf]
    split
    case isTrue => rfl
    case isFalse => rfl
  rw [components] at hpath
  rw [← hpath] at hdirectory
  rw [follow, lastNumber, hstart, List.append_assoc, List.singleton_append, splitPath_append,
    splitPath_name hname, hwalk, walkNames_components hrooted _ hdirectory, hpath]

/-- The path of a directory with nothing behind it. -/
theorem lastNumber_nil (links : Nat) (hdirectory : disk.isDirectory path = true) :
    lastNumber links disk path [] = disk.names path := by
  obtain ⟨onLink, hwalk⟩ := walk_eq_walkNames disk links
  rw [lastNumber, hwalk, walkNames, hdirectory, if_neg (by simp), if_pos (.inl rfl)]
  rfl

/-- A name that is not a symbolic link leads to its own file. -/
theorem lastNumber_eq (links : Nat) (hdirectory : disk.isDirectory path = true)
    (hname : ProperName name) {number : Nat} (hnumber : disk.names (path ++ [name]) = some number)
    (hobject : ∀ target, disk.files number ≠ .link target) :
    lastNumber links disk path name = some number := by
  obtain ⟨onLink, hwalk⟩ := walk_eq_walkNames disk links
  have hplain : ¬(name = [] ∨ name = [46]) :=
    not_or_intro hname.ne_nil fun hdot => hname.not_dot (.inl hdot)
  have hstep : walkNames disk onLink path [name] = some (path ++ [name]) := by
    rw [walkNames, hdirectory, if_neg (by simp), if_neg hplain,
      if_neg fun hup => hname.not_dot (.inr hup), hnumber]
    dsimp only [Option.map_some]
    cases hkind : disk.files number with
    | link target => exact absurd hkind (hobject target)
    | directory => rfl
    | file data => rfl
  rw [lastNumber, hwalk, hstep]
  exact hnumber

theorem lastNumber_lt {links : Nat} {number : Nat}
    (hnumber : lastNumber links disk path name = some number) : number < disk.next := by
  obtain ⟨target, _, htarget⟩ := Option.bind_eq_some_iff.1 hnumber
  exact disk.used target number htarget

end Walk

/-- The requests for one object all go to the same file. -/
theorem performRequests (links : Nat) (cwd : List Bytes) (disk : Disk) (path : Bytes)
    (changes : List Change) (attributes : Nat → Attributes) :
    (changes.map (Change.request path)).foldl (performRequest links cwd disk) attributes =
      fun number =>
        if follow links cwd disk path = some number then
          applyChanges (disk.isFileDirectory number) (attributes number) changes
        else attributes number := by
  induction changes generalizing attributes with
  | nil =>
      funext number
      exact (ite_self _).symm
  | cons change changes ih =>
      rw [List.map_cons, List.foldl_cons, ih]
      funext number
      rw [performRequest, Change.request_path, Change.request_change]
      cases hfollow : follow links cwd disk path with
      | none => rfl
      | some other =>
          dsimp only
          by_cases hsame : other = number
          · subst hsame
            rw [if_pos rfl, if_pos rfl, Function.update_self]
            rfl
          · have hne : some other ≠ some number := fun heq => hsame (Option.some.inj heq)
            rw [if_neg hne, if_neg hne, Function.update_of_ne (Ne.symm hsame)]

end OpenRecovery.Yaffs
