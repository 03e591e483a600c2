import OpenRecovery.DirectoryPaths
import Mathlib

/-!
# Creating a hierarchy

The levels of a path are made one after the other, each in the tree that the levels before it
have left.  The path without a file name is wrong if its only slash is the first byte.
-/

namespace OpenRecovery.DirUtil

open FileTree

/-! ## Levels -/

/-- What the first steps of an absolute path lead to. -/
def statusOf (tree : Tree) (level : List (Step FileName)) : DirStatus :=
  match tree.resolve maxLinks [] level with
  | .ok (place, _) => if tree.isDirectory place then .directory else .illegal
  | .error errno => if errno = .noEntry then .missing else .illegal

/-- A directory is made, and nothing else is changed. -/
structure MadeIn (before : Tree) (place : Place) (name : FileName) (after : Tree) : Prop where
  parent : before.isDirectory place = true
  free : before.number (place ++ [name]) = none
  number : ∀ other, after.number other =
    if other = place ++ [name] then some before.next else before.number other
  directory : (after.inodes before.next).kind = .directory
  inodes : ∀ n, n ≠ before.next → after.inodes n = before.inodes n
  next : after.next = before.next + 1

/-- The tree with the levels up to a number, of which the missing ones have been made. -/
inductive Grown (before : Tree) (levels : List (Step FileName)) : Nat → Tree → Prop where
  | start : Grown before levels 0 before
  | present {k : Nat} {tree : Tree} (hgrown : Grown before levels k tree)
      (hlevel : k < levels.length)
      (hstatus : statusOf tree (levels.take (k + 1)) = .directory) :
      Grown before levels (k + 1) tree
  | made {k : Nat} {tree next : Tree} {place : Place} {name : FileName} {budget : Nat}
      (hgrown : Grown before levels k tree)
      (hstatus : statusOf tree (levels.take (k + 1)) = .missing)
      (hwalk : tree.resolve maxLinks [] (levels.take k) = .ok (place, budget))
      (hname : levels[k]? = some (.name name)) (hmade : MadeIn tree place name next) :
      Grown before levels (k + 1) next

/-- The part of a path that is to be a directory: without what follows the last slash if the
file name is stripped. -/
def directoryPart (path : Bytes) (stripFileName : Bool) : Bytes :=
  if stripFileName then path.rdropWhile (· ≠ slash) else path

def levelsOf (path : Bytes) (stripFileName : Bool) : List (Step FileName) :=
  steps (directoryPart path stripFileName)

/-- Calls of `mkdir` and `utime` that have succeeded. -/
def Succeed (calls : List (Call × Bool)) : Prop :=
  ∀ path, (.mkdir path, false) ∉ calls ∧ (.utime path, false) ∉ calls

/-- Nothing but missing levels has been added. -/
structure OnlyCreated (levels : List (Step FileName)) (before after : Tree) : Prop where
  number : ∀ place, after.number place = before.number place ∨
    before.number place = none ∧ ∃ k ≤ levels.length,
      statusOf before (levels.take k) = .missing ∧
        ∃ budget, after.resolve maxLinks [] (levels.take k) = .ok (place, budget)
  inodes : ∀ n < before.next, after.inodes n = before.inodes n

/-- What the function ought to do with a path in a tree. -/
def CreatesMissing (before : Tree) (path : Bytes) (stripFileName : Bool) : Prop :=
  ∀ (system : System) (mode : Int32) (timestamp : Option (Int × Int)) (errno : Int),
    (∀ number path, system.faults number (.stat path) = none) →
    ∃ result after,
      dirCreateHierarchy system path mode timestamp stripFileName ⟨before, errno, []⟩ =
        some (result, after) ∧
      ((∀ k ≤ (levelsOf path stripFileName).length,
          statusOf before ((levelsOf path stripFileName).take k) ≠ .illegal) →
        Succeed after.calls →
        result = 0 ∧
          (∀ k ≤ (levelsOf path stripFileName).length,
            statusOf after.tree ((levelsOf path stripFileName).take k) = .directory) ∧
          OnlyCreated (levelsOf path stripFileName) before after.tree) ∧
      ((∃ k ≤ (levelsOf path stripFileName).length,
          statusOf before ((levelsOf path stripFileName).take k) = .illegal) →
        result = -1 ∧ after.tree = before)

/-! ## Levels of a tree that grows -/

section Growth

variable {before tree next : Tree} {levels : List (Step FileName)} {k : Nat}

theorem statusOf_directory {level : List (Step FileName)} :
    statusOf tree level = .directory ↔
      ∃ place budget, tree.resolve maxLinks [] level = .ok (place, budget) ∧
        tree.isDirectory place = true := by
  rw [statusOf]
  cases hwalk : tree.resolve maxLinks [] level with
  | error errno =>
      refine iff_of_false ?_ ?_
      · dsimp only
        split <;> exact nofun
      · rintro ⟨place, budget, h, -⟩
        cases h
  | ok result =>
      dsimp only
      cases hplace : tree.isDirectory result.1 with
      | true => exact iff_of_true rfl ⟨result.1, result.2, rfl, hplace⟩
      | false =>
          refine iff_of_false (by decide) ?_
          rintro ⟨place, budget, h, hdirectory⟩
          cases h
          rw [hplace] at hdirectory
          cases hdirectory

theorem MadeIn.within {place : Place} {name : FileName} (hmade : MadeIn tree place name next) :
    Within tree next := by
  intro other n hn
  constructor
  · rw [hmade.number, if_neg]
    · exact hn
    · rintro rfl
      rw [hmade.free] at hn
      cases hn
  · rw [hmade.inodes n (tree.used other n hn).ne]

theorem MadeIn.isDirectory {place : Place} {name : FileName}
    (hmade : MadeIn tree place name next) : next.isDirectory (place ++ [name]) = true := by
  refine isDirectory_iff.mpr (kindAt_eq_some.mpr ⟨tree.next, ?_, hmade.directory⟩)
  rw [hmade.number, if_pos rfl]

theorem Grown.within (hgrown : Grown before levels k tree) : Within before tree := by
  induction hgrown with
  | start => exact Within.refl before
  | present hgrown hlevel hstatus ih => exact ih
  | made hgrown hstatus hwalk hname hmade ih => exact ih.trans hmade.within

theorem statusOf_within {level : List (Step FileName)} (hwithin : Within tree next)
    (hstatus : statusOf tree level = .directory) : statusOf next level = .directory := by
  obtain ⟨place, budget, hwalk, hplace⟩ := (statusOf_directory).mp hstatus
  exact (statusOf_directory).mpr ⟨place, budget, hwithin.resolve hwalk, hwithin.isDirectory hplace⟩

/-- The level that has been made is a directory. -/
theorem MadeIn.resolve {place : Place} {name : FileName} {budget : Nat}
    {level : List (Step FileName)} (hmade : MadeIn tree place name next)
    (hwalk : tree.resolve maxLinks [] level = .ok (place, budget)) :
    next.resolve maxLinks [] (level ++ [.name name]) = .ok (place ++ [name], budget) := by
  have hdirectory := isDirectory_iff.mp hmade.isDirectory
  rw [resolve_append, bind_eq_of_ok (hmade.within.resolve hwalk)]
  dsimp only
  rw [resolve_directory (hmade.within.isDirectory hmade.parent), stepFrom, hdirectory]
  exact resolve_nil next budget _

theorem take_level {step : Step FileName} (hstep : levels[k]? = some step) :
    levels.take (k + 1) = levels.take k ++ [step] := by
  rw [List.take_add_one, hstep, Option.toList_some]

theorem statusOf_nil (tree : Tree) : statusOf tree [] = .directory :=
  (statusOf_directory).mpr ⟨[], maxLinks, resolve_nil tree maxLinks [], isDirectory_root tree⟩

/-- All levels so far are directories. -/
theorem Grown.directories (hgrown : Grown before levels k tree) :
    ∀ j ≤ k, statusOf tree (levels.take j) = .directory := by
  induction hgrown with
  | start =>
      intro j hj
      rw [Nat.le_zero.mp hj, List.take_zero]
      exact statusOf_nil before
  | present hgrown hlevel hstatus ih =>
      intro j hj
      rcases Nat.le_succ_iff.mp hj with hj | rfl
      · exact ih j hj
      · exact hstatus
  | made hgrown hstatus hwalk hname hmade ih =>
      intro j hj
      rcases Nat.le_succ_iff.mp hj with hj | rfl
      · exact statusOf_within hmade.within (ih j hj)
      · rw [take_level hname]
        exact (statusOf_directory).mpr ⟨_, _, hmade.resolve hwalk, hmade.isDirectory⟩

/-- Only levels that were missing at first have been added. -/
theorem Grown.onlyCreated
    (hlegal : ∀ j ≤ levels.length, statusOf before (levels.take j) ≠ .illegal)
    (hgrown : Grown before levels k tree) :
    OnlyCreated levels before tree ∧ before.next ≤ tree.next := by
  induction hgrown with
  | start => exact ⟨⟨fun place => Or.inl rfl, fun n _ => rfl⟩, le_rfl⟩
  | present hgrown hlevel hstatus ih => exact ih
  | @made k tree next place name budget hgrown hstatus hwalk hname hmade ih =>
      obtain ⟨⟨hnumber, hinodes⟩, hnext⟩ := ih
      have hk := (List.getElem?_eq_some_iff.mp hname).1
      refine ⟨⟨?_, ?_⟩, ?_⟩
      · intro other
        rw [hmade.number]
        split
        · rename_i hother
          subst hother
          right
          refine ⟨?_, k + 1, hk, ?_, budget, by rw [take_level hname]; exact hmade.resolve hwalk⟩
          · by_contra hsome
            obtain ⟨n, hn⟩ := Option.ne_none_iff_exists'.mp hsome
            have hthere := (hgrown.within _ n hn).1
            rw [hmade.free] at hthere
            cases hthere
          · cases hfirst : statusOf before (levels.take (k + 1)) with
            | missing => rfl
            | illegal => exact absurd hfirst (hlegal (k + 1) hk)
            | directory =>
                rw [statusOf_within hgrown.within hfirst] at hstatus
                cases hstatus
        · rcases hnumber other with hsame | ⟨hnone, j, hj, hmissing, budget', hwalk'⟩
          · exact Or.inl hsame
          · exact Or.inr ⟨hnone, j, hj, hmissing, budget', hmade.within.resolve hwalk'⟩
      · intro n hn
        rw [hmade.inodes n (by omega)]
        exact hinodes n hn
      · rw [hmade.next]
        omega

/-- Trees with the same names for files of the same kinds. -/
structure Alike (first second : Tree) : Prop where
  number : first.number = second.number
  kind : ∀ n, (first.inodes n).kind = (second.inodes n).kind
  next : first.next = second.next

theorem Alike.kindAt {first second : Tree} (halike : Alike first second) (place : Place) :
    first.kindAt place = second.kindAt place := by
  rw [FileTree.kindAt, FileTree.kindAt, halike.number]
  exact Option.map_congr fun n _ => halike.kind n

theorem Alike.resolve {first second : Tree} (halike : Alike first second) (budget : Nat)
    (place : Place) (level : List (Step FileName)) :
    first.resolve budget place level = second.resolve budget place level :=
  resolve_congr halike.kindAt budget place level

theorem Alike.statusOf {first second : Tree} (halike : Alike first second)
    (level : List (Step FileName)) :
    DirUtil.statusOf first level = DirUtil.statusOf second level := by
  have hdirectory : ∀ place, first.isDirectory place = second.isDirectory place := by
    intro place
    rw [FileTree.isDirectory, FileTree.isDirectory, halike.kindAt]
  rw [DirUtil.statusOf, DirUtil.statusOf, halike.resolve]
  cases second.resolve maxLinks [] level with
  | error errno => rfl
  | ok result =>
      dsimp only
      rw [hdirectory]

/-- A tree can grow in one way only. -/
theorem Grown.alike {other : Tree} (hgrown : Grown before levels k tree)
    (hother : Grown before levels k other) : Alike tree other := by
  induction hgrown generalizing other with
  | start =>
      cases hother
      exact ⟨rfl, fun _ => rfl, rfl⟩
  | present hgrown hlevel hstatus ih =>
      cases hother with
      | present hother _ _ => exact ih hother
      | made hother hstatus' _ _ _ =>
          rw [(ih hother).statusOf, hstatus'] at hstatus
          cases hstatus
  | @made k tree next _ _ _ hgrown hstatus hwalk hname hmade ih =>
      cases hother with
      | present hother _ hstatus' =>
          rw [(ih hother).statusOf, hstatus'] at hstatus
          cases hstatus
      | @made _ tree' _ _ _ _ hother hstatus' hwalk' hname' hmade' =>
          have halike := ih hother
          rw [halike.resolve, hwalk'] at hwalk
          cases hwalk
          rw [hname] at hname'
          cases hname'
          refine ⟨?_, ?_, ?_⟩
          · funext place
            rw [hmade.number, hmade'.number, halike.number, halike.next]
          · intro n
            by_cases hn : n = tree'.next
            · rw [hn, hmade'.directory, ← halike.next, hmade.directory]
            · rw [hmade'.inodes n hn, hmade.inodes n (by rw [halike.next]; exact hn)]
              exact halike.kind n
          · rw [hmade.next, hmade'.next, halike.next]

/-- The levels in front of a level that has been reached are none that is illegal. -/
theorem Grown.reached {j : Nat} (hgrown : Grown before levels j tree) (hk : k < j) :
    ∃ earlier, Grown before levels k earlier ∧
      statusOf earlier (levels.take (k + 1)) ≠ .illegal := by
  induction hgrown with
  | start => exact absurd hk (Nat.not_lt_zero k)
  | @present j tree hgrown hlevel hstatus ih =>
      rcases Nat.lt_succ_iff_lt_or_eq.mp hk with hk | rfl
      · exact ih hk
      · exact ⟨tree, hgrown, by rw [hstatus]; nofun⟩
  | @made j tree next place name budget hgrown hstatus hwalk hname hmade ih =>
      rcases Nat.lt_succ_iff_lt_or_eq.mp hk with hk | rfl
      · exact ih hk
      · exact ⟨tree, hgrown, by rw [hstatus]; nofun⟩

end Growth

/-! ## One level -/

section Level

variable {system : System} {path : Bytes} {process : Process}

theorem succeed_append {calls : List (Call × Bool)} {call : Call} {result : Bool}
    (hcall : result = true ∨ ∃ path, call = .stat path) :
    Succeed (calls ++ [(call, result)]) ↔ Succeed calls := by
  unfold Succeed
  refine forall_congr' fun path => ?_
  simp only [List.mem_append, List.mem_singleton, Prod.mk.injEq]
  rcases hcall with rfl | ⟨other, rfl⟩
  · simp only [Bool.false_eq_true, and_false, or_false]
  · simp only [reduceCtorEq, false_and, or_false]

theorem not_succeed {calls : List (Call × Bool)} {call : Call}
    (hcall : ∃ path, call = .mkdir path ∨ call = .utime path) :
    ¬Succeed (calls ++ [(call, false)]) := by
  intro hsucceed
  obtain ⟨path, rfl | rfl⟩ := hcall
  · exact (hsucceed path).1 (List.mem_append_right _ (List.mem_singleton_self _))
  · exact (hsucceed path).2 (List.mem_append_right _ (List.mem_singleton_self _))

theorem perform_calls {Value : Type} {call : Call} {act : Tree → Except Errno (Value × Tree)}
    {value : Option Value} {after : Process}
    (hrun : perform system call act process = (value, after)) :
    after.calls = process.calls ++ [(call, value.isSome)] := by
  rw [perform] at hrun
  split at hrun
  · cases hrun
    rfl
  · split at hrun
    · cases hrun
      rfl
    · cases hrun
      rfl

theorem perform_ok {Value : Type} {call : Call} {act : Tree → Except Errno (Value × Tree)}
    {value : Value} {tree : Tree} (hfault : system.faults process.calls.length call = none)
    (hact : act process.tree = .ok (value, tree)) :
    perform system call act process =
      (some value, { process with tree := tree, calls := process.calls ++ [(call, true)] }) := by
  rw [perform, hfault]
  dsimp only
  rw [hact]

theorem perform_error {Value : Type} {call : Call} {act : Tree → Except Errno (Value × Tree)}
    {errno : Errno} (hfault : system.faults process.calls.length call = none)
    (hact : act process.tree = .error errno) :
    perform system call act process =
      (none, { process with errno := errno.code, calls := process.calls ++ [(call, false)] }) := by
  rw [perform, hfault]
  dsimp only
  rw [hact]

/-- The file system is asked about the steps of the path. -/
theorem getPathDirStatus_eq (process : Process)
    (hfaults : ∀ number path, system.faults number (.stat path) = none)
    (hpath : path.head? = some slash) :
    ∃ after, getPathDirStatus system path process = (statusOf process.tree (steps path), after) ∧
      after.tree = process.tree ∧ (Succeed after.calls ↔ Succeed process.calls) := by
  have hne : path ≠ [] := by
    rintro rfl
    cases hpath
  have hstart : startOf system.cwd path = [] := if_pos hpath
  have hcalls : ∀ result, Succeed (process.calls ++ [(.stat path, result)]) ↔
      Succeed process.calls := fun result => succeed_append (Or.inr ⟨path, rfl⟩)
  have hstat : statPlace system.cwd process.tree path =
      process.tree.resolve maxLinks [] (steps path) >>= fun result =>
        if endsInSlash path && !process.tree.isDirectory result.1 then .error .notDirectory
        else .ok result.1 := by
    rw [statPlace, if_neg hne, hstart]
  rw [getPathDirStatus, statusOf]
  cases hwalk : process.tree.resolve maxLinks [] (steps path) with
  | error errno =>
      rw [hwalk] at hstat
      have hact : statAct system.cwd path process.tree = .error errno := by
        rw [statAct, hstat]
        rfl
      rw [perform_error (hfaults _ path) hact]
      dsimp only
      by_cases hmissing : errno = .noEntry
      · rw [if_neg (by rw [hmissing]; exact not_not.mpr rfl), if_pos hmissing]
        exact ⟨_, rfl, rfl, hcalls false⟩
      · have hcode : errno.code ≠ Errno.noEntry.code := by
          intro hsame
          refine hmissing ?_
          cases errno
          cases hsame
          rfl
        rw [if_pos hcode, if_neg hmissing]
        exact ⟨_, rfl, rfl, hcalls false⟩
  | ok result =>
      obtain ⟨place, budget⟩ := result
      rw [hwalk, bind_eq_of_ok rfl] at hstat
      dsimp only at hstat ⊢
      cases hplace : process.tree.isDirectory place with
      | true =>
          rw [hplace, Bool.not_true, Bool.and_false, if_neg Bool.false_ne_true] at hstat
          have hact : statAct system.cwd path process.tree =
              .ok (statOf process.tree place, process.tree) := by
            rw [statAct, hstat]
            rfl
          rw [perform_ok (hfaults _ path) hact]
          dsimp only
          rw [if_pos (show (statOf process.tree place).directory = true from hplace), if_pos rfl]
          exact ⟨_, rfl, rfl, hcalls true⟩
      | false =>
          rw [if_neg Bool.false_ne_true]
          cases hslash : endsInSlash path with
          | true =>
              rw [hplace, hslash, Bool.not_false, Bool.and_true, if_pos rfl] at hstat
              have hact : statAct system.cwd path process.tree = .error .notDirectory := by
                rw [statAct, hstat]
                rfl
              rw [perform_error (hfaults _ path) hact]
              dsimp only
              rw [if_pos (by decide)]
              exact ⟨_, rfl, rfl, hcalls false⟩
          | false =>
              rw [hslash, Bool.false_and, if_neg Bool.false_ne_true] at hstat
              have hact : statAct system.cwd path process.tree =
                  .ok (statOf process.tree place, process.tree) := by
                rw [statAct, hstat]
                rfl
              rw [perform_ok (hfaults _ path) hact]
              dsimp only
              rw [if_neg (by
                rw [show (statOf process.tree place).directory = false from hplace]
                exact Bool.false_ne_true)]
              exact ⟨_, rfl, rfl, hcalls true⟩

/-- A missing level has a name, and the level before it is a directory. -/
theorem missing_level {tree : Tree} {level : List (Step FileName)} {step : Step FileName}
    {place : Place} {budget : Nat} (hwalk : tree.resolve maxLinks [] level = .ok (place, budget))
    (hplace : tree.isDirectory place = true)
    (hstatus : statusOf tree (level ++ [step]) = .missing) : ∃ name, step = .name name := by
  have hnot : ∀ other, tree.resolve maxLinks [] (level ++ [step]) = .ok (other, budget) →
      tree.isDirectory other = true → False := by
    intro other hother hdirectory
    rw [statusOf_directory.mpr ⟨other, budget, hother, hdirectory⟩] at hstatus
    cases hstatus
  have hstep : tree.resolve maxLinks [] (level ++ [step]) = stepFrom tree budget place [] step := by
    rw [resolve_append, bind_eq_of_ok hwalk]
    exact resolve_directory hplace budget step []
  cases step with
  | name name => exact ⟨name, rfl⟩
  | here =>
      rw [stepFrom, resolve_nil] at hstep
      exact (hnot place hstep hplace).elim
  | up =>
      rw [stepFrom, resolve_nil] at hstep
      refine (hnot place.dropLast hstep ?_).elim
      rcases List.eq_nil_or_concat' place with rfl | ⟨parent, name, rfl⟩
      · exact isDirectory_root tree
      · rw [List.dropLast_concat]
        exact isDirectory_parent (number_of_directory hplace)

theorem madeIn_add {tree : Tree} {place : Place} {name : FileName} {inode : Inode FileName}
    (hkind : inode.kind = .directory) (hplace : tree.isDirectory place = true)
    (hfree : tree.number (place ++ [name]) = none) :
    MadeIn tree place name (tree.add place name inode hplace hfree) where
  parent := hplace
  free := hfree
  number := fun _ => rfl
  directory := by
    change (Function.update tree.inodes tree.next inode tree.next).kind = .directory
    rw [Function.update_self, hkind]
  inodes := fun n hn => Function.update_of_ne hn _ _
  next := rfl

theorem MadeIn.change {tree made : Tree} {place : Place} {name : FileName}
    {change : Inode FileName → Inode FileName}
    {hkind : ∀ inode, (change inode).kind = inode.kind} (hmade : MadeIn tree place name made) :
    MadeIn tree place name (made.changeInode tree.next change hkind) where
  parent := hmade.parent
  free := hmade.free
  number := hmade.number
  directory := (kind_changeInode hkind tree.next).trans hmade.directory
  inodes := fun n hn => (Function.update_of_ne hn _ _).trans (hmade.inodes n hn)
  next := hmade.next

/-- Without faults a level cannot be made only if its name is taken. -/
def Blocked (system : System) (timestamp : Option (Int × Int)) (tree : Tree)
    (level : List (Step FileName)) (step : Step FileName) : Prop :=
  (∀ number call, system.faults number call = none) → timestamp = none →
    ∀ place name budget, tree.resolve maxLinks [] level = .ok (place, budget) →
      step = .name name → tree.number (place ++ [name]) ≠ none

/-- What becomes of a level. -/
inductive LevelOutcome (system : System) (timestamp : Option (Int × Int)) (process : Process)
    (level : List (Step FileName)) (step : Step FileName) : Bool → Process → Prop where
  | illegal {after : Process} (hstatus : statusOf process.tree (level ++ [step]) = .illegal)
      (htree : after.tree = process.tree)
      (hcalls : Succeed after.calls ↔ Succeed process.calls) :
      LevelOutcome system timestamp process level step false after
  | present {after : Process} (hstatus : statusOf process.tree (level ++ [step]) = .directory)
      (htree : after.tree = process.tree)
      (hcalls : Succeed after.calls ↔ Succeed process.calls) :
      LevelOutcome system timestamp process level step true after
  | made {after : Process} {place : Place} {name : FileName} {budget : Nat}
      (hstatus : statusOf process.tree (level ++ [step]) = .missing)
      (hwalk : process.tree.resolve maxLinks [] level = .ok (place, budget))
      (hname : step = .name name) (hmade : MadeIn process.tree place name after.tree)
      (hcalls : Succeed after.calls ↔ Succeed process.calls) :
      LevelOutcome system timestamp process level step true after
  | failed {after : Process}
      (hstatus : statusOf process.tree (level ++ [step]) = .missing)
      (hblocked : Blocked system timestamp process.tree level step)
      (hcalls : ¬Succeed after.calls) :
      LevelOutcome system timestamp process level step false after

theorem createLevel_outcome (mode : Int32) (timestamp : Option (Int × Int))
    {level : List (Step FileName)} {step : Step FileName}
    (hfaults : ∀ number path, system.faults number (.stat path) = none)
    (hpath : path.head? = some slash) (hsteps : steps path = level ++ [step])
    (hlevel : statusOf process.tree level = .directory) :
    ∃ goesOn after, createLevel system mode timestamp path process = (goesOn, after) ∧
      LevelOutcome system timestamp process level step goesOn after := by
  obtain ⟨next, hstatus, htree, hcalls⟩ := getPathDirStatus_eq process hfaults hpath
  have hstart : startOf system.cwd path = [] := if_pos hpath
  rw [hsteps] at hstatus
  rw [createLevel, hstatus]
  cases hlast : statusOf process.tree (level ++ [step]) with
  | illegal => exact ⟨false, next, rfl, .illegal hlast htree hcalls⟩
  | directory => exact ⟨true, next, rfl, .present hlast htree hcalls⟩
  | missing =>
      obtain ⟨place, budget, hwalk, hplace⟩ := statusOf_directory.mp hlevel
      obtain ⟨name, rfl⟩ := missing_level hwalk hplace hlast
      dsimp only
      cases hmkdir : perform system (.mkdir path) (mkdirAct system path mode) next with
      | mk value made =>
      cases value with
      | none =>
          refine ⟨false, made, rfl, .failed hlast ?_ ?_⟩
          · intro hnone htimestamp other last left hother hname hfree
            rw [hwalk] at hother
            cases hother
            cases hname
            have hentry : entryOf system.cwd next.tree path = .ok (place, name) := by
              rw [htree]
              refine entryOf_eq_ok.mpr ⟨?_, hplace, budget, ?_⟩
              · rw [hsteps, List.getLast?_concat]
              · rw [hstart, hsteps, List.dropLast_concat]
                exact hwalk
            rw [← htree] at hplace hfree
            have hact : mkdirAct system path mode next.tree =
                .ok ((), next.tree.add place name (newDirectory system mode) hplace hfree) := by
              rw [mkdirAct, bind_eq_of_ok hentry]
              dsimp only
              rw [dif_pos hplace, dif_pos hfree]
            rw [perform_ok (hnone _ _) hact] at hmkdir
            cases hmkdir
          · rw [perform_calls hmkdir]
            exact not_succeed ⟨path, Or.inl rfl⟩
      | some value =>
      have hmadeIn : MadeIn process.tree place name made.tree := by
        have hact := (perform_some hmkdir).1
        rw [htree] at hact
        obtain ⟨⟨parent, last⟩, hentry, hresult⟩ := bind_eq_ok.mp hact
        obtain ⟨hsame, -, left, hwalk'⟩ := entryOf_eq_ok.mp hentry
        rw [hsteps, List.getLast?_concat] at hsame
        rw [hstart, hsteps, List.dropLast_concat, hwalk] at hwalk'
        cases hsame
        cases hwalk'
        dsimp only at hresult
        rw [dif_pos hplace] at hresult
        by_cases hfree : process.tree.number (place ++ [name]) = none
        · rw [dif_pos hfree] at hresult
          rw [← (Prod.mk.inj (Except.ok.inj hresult)).2]
          exact madeIn_add rfl hplace hfree
        · rw [dif_neg hfree] at hresult
          cases hresult
      have hmade : Succeed made.calls ↔ Succeed process.calls := by
        rw [perform_calls hmkdir]
        exact (succeed_append (Or.inl rfl)).trans hcalls
      dsimp only
      cases timestamp with
      | none => exact ⟨true, made, rfl, .made hlast hwalk rfl hmadeIn hmade⟩
      | some times =>
          dsimp only
          cases hutime : perform system (.utime path)
              (changeAct system.cwd path (utimed times) fun _ => rfl) made with
          | mk value after =>
          cases value with
          | none =>
              refine ⟨false, after, rfl, .failed hlast (fun _ htimestamp => nomatch htimestamp) ?_⟩
              rw [perform_calls hutime]
              exact not_succeed ⟨path, Or.inr rfl⟩
          | some value =>
              refine ⟨true, after, rfl, .made hlast hwalk rfl ?_ ?_⟩
              · obtain ⟨other, n, hother, hn, hafter⟩ := changeAct_ok (perform_some hutime).1
                obtain ⟨-, -, left, hwalk'⟩ := statPlace_eq_ok.mp hother
                rw [hstart, hsteps, hmadeIn.resolve hwalk] at hwalk'
                cases hwalk'
                rw [hmadeIn.number, if_pos rfl] at hn
                cases hn
                rw [hafter]
                exact hmadeIn.change
              · rw [perform_calls hutime]
                exact (succeed_append (Or.inl rfl)).trans hmade

end Level

/-! ## The walk up the path -/

section Walk

variable {system : System}

theorem steps_slash (path : Bytes) : steps (slash :: path) = steps path := by
  have happend := steps_append_slash [] path
  rw [steps_nil] at happend
  exact happend

/-- A run of slashes is like one of them. -/
theorem steps_slashes {slashes : Bytes} (front rest : Bytes) (hne : slashes ≠ [])
    (hslashes : ∀ byte ∈ slashes, byte = slash) :
    steps (front ++ (slashes ++ rest)) = steps front ++ steps rest := by
  cases slashes with
  | nil => exact absurd rfl hne
  | cons first slashes =>
      rw [List.forall_mem_cons] at hslashes
      obtain ⟨rfl, hslashes⟩ := hslashes
      rw [List.cons_append, steps_append_slash]
      congr 1
      clear hne
      induction slashes with
      | nil => rfl
      | cons byte slashes ih =>
          rw [List.forall_mem_cons] at hslashes
          obtain ⟨rfl, hslashes⟩ := hslashes
          rw [List.cons_append, steps_slash, ih hslashes]

theorem steps_component {component : Bytes} (hne : component ≠ [])
    (hslash : slash ∉ component) : ∃ step, steps component = [step] := by
  have hstep : ∃ step, stepOf component = some step := by
    rw [stepOf]
    split
    · exact ⟨_, rfl⟩
    · split
      · exact ⟨_, rfl⟩
      · rename_i hdot hdotDot
        exact ⟨_, dif_pos ⟨hne, hslash, hdot, hdotDot⟩⟩
  obtain ⟨step, hstep⟩ := hstep
  refine ⟨step, ?_⟩
  rw [steps, List.splitOn_eq_singleton hslash, List.filterMap_cons, hstep, List.filterMap_nil]

/-- What the loop over the levels may come to. -/
inductive RunOutcome (system : System) (timestamp : Option (Int × Int)) (before : Tree)
    (levels : List (Step FileName)) (process : Process) : Int → Process → Prop where
  | created {after : Process} (hgrown : Grown before levels levels.length after.tree)
      (hcalls : Succeed after.calls ↔ Succeed process.calls) :
      RunOutcome system timestamp before levels process 0 after
  | illegal {after : Process} {k : Nat} (hgrown : Grown before levels k after.tree)
      (hk : k < levels.length)
      (hstatus : statusOf after.tree (levels.take (k + 1)) = .illegal)
      (hcalls : Succeed after.calls ↔ Succeed process.calls) :
      RunOutcome system timestamp before levels process (-1) after
  | failed {after : Process} {k : Nat} {tree : Tree} {step : Step FileName}
      (hgrown : Grown before levels k tree) (hstep : levels[k]? = some step)
      (hstatus : statusOf tree (levels.take (k + 1)) = .missing)
      (hblocked : Blocked system timestamp tree (levels.take k) step)
      (hcalls : ¬Succeed after.calls) :
      RunOutcome system timestamp before levels process (-1) after

theorem RunOutcome.trans {timestamp : Option (Int × Int)} {before : Tree}
    {levels : List (Step FileName)} {process next after : Process} {result : Int}
    (houtcome : RunOutcome system timestamp before levels next result after)
    (hnext : Succeed next.calls ↔ Succeed process.calls) :
    RunOutcome system timestamp before levels process result after := by
  cases houtcome with
  | created hgrown hcalls => exact .created hgrown (hcalls.trans hnext)
  | illegal hgrown hk hstatus hcalls => exact .illegal hgrown hk hstatus (hcalls.trans hnext)
  | failed hgrown hstep hstatus hblocked hcalls =>
      exact .failed hgrown hstep hstatus hblocked hcalls

theorem createLevels_outcome (mode : Int32) (timestamp : Option (Int × Int)) {before : Tree}
    {cpath front rest : Bytes} {rounds : Nat} {process : Process}
    (hfaults : ∀ number path, system.faults number (.stat path) = none)
    (hcpath : cpath = front ++ rest) (hhead : cpath.head? = some slash)
    (hrest : rest.head? = some slash) (hlast : rest.getLast? = some slash)
    (hrounds : rest.length < rounds)
    (hgrown : Grown before (steps cpath) (steps front).length process.tree) :
    ∃ result after, createLevels system mode timestamp cpath rounds front.length process =
        some (result, after) ∧
      RunOutcome system timestamp before (steps cpath) process result after := by
  induction rounds generalizing front rest process with
  | zero => exact absurd hrounds (Nat.not_lt_zero _)
  | succ rounds ih =>
      obtain ⟨slashes, others, hsplit, hslashes, hothers⟩ :
          ∃ slashes others, rest = slashes ++ others ∧ slashes = rest.takeWhile (· = slash) ∧
            others = rest.dropWhile (· = slash) :=
        ⟨_, _, List.takeWhile_append_dropWhile.symm, rfl, rfl⟩
      have hall : ∀ byte ∈ slashes, byte = slash := by
        intro byte hbyte
        rw [hslashes] at hbyte
        have hslash := List.mem_takeWhile_imp hbyte
        exact of_decide_eq_true hslash
      have hne : slashes ≠ [] := by
        rw [hslashes]
        obtain ⟨tail, htail⟩ := List.head?_eq_some_iff.mp hrest
        rw [htail, List.takeWhile_cons_of_pos (p := fun x => decide (x = slash))
          (decide_eq_true rfl)]
        exact List.cons_ne_nil _ _
      have hsteps : steps cpath = steps front ++ steps others := by
        rw [hcpath, hsplit, steps_slashes front others hne hall]
      rw [createLevels]
      have hdrop : cpath.drop front.length = rest := by
        rw [hcpath, List.drop_left]
      rw [hdrop, ← hslashes]
      have hlength : cpath.length = front.length + slashes.length + others.length := by
        rw [hcpath, hsplit, List.length_append, List.length_append, Nat.add_assoc]
      by_cases hend : others = []
      · rw [hend, steps_nil, List.append_nil] at hsteps
        rw [hend, List.length_nil, Nat.add_zero] at hlength
        rw [← hsteps] at hgrown
        dsimp only
        rw [if_pos hlength.symm]
        exact ⟨0, process, rfl, .created hgrown Iff.rfl⟩
      · have hpos := List.length_pos_of_ne_nil hend
        obtain ⟨component, rest', hsplit', hcomponent, hrest'⟩ :
            ∃ component rest', others = component ++ rest' ∧
              component = others.takeWhile (· ≠ slash) ∧ rest' = others.dropWhile (· ≠ slash) :=
          ⟨_, _, List.takeWhile_append_dropWhile.symm, rfl, rfl⟩
        have hnext : (front ++ slashes).length = front.length + slashes.length :=
          List.length_append
        have hdrop' : cpath.drop (front.length + slashes.length) = others := by
          rw [hcpath, hsplit, ← List.append_assoc, ← hnext, List.drop_left]
        have hfirst : component ≠ [] := by
          have hnot := List.head_dropWhile_not (fun x => decide (x = slash)) (hothers ▸ hend)
          obtain ⟨byte, tail, hbyte⟩ := List.exists_cons_of_ne_nil hend
          simp only [← hothers, hbyte, List.head_cons] at hnot
          rw [hcomponent, hbyte, List.takeWhile_cons_of_pos (p := fun x => decide (x ≠ slash))
            (decide_eq_true (of_decide_eq_false hnot))]
          exact List.cons_ne_nil _ _
        have hclean : slash ∉ component := by
          intro hmem
          rw [hcomponent] at hmem
          have hslash := List.mem_takeWhile_imp hmem
          exact of_decide_eq_true hslash rfl
        have hlastOthers : others.getLast? = some slash := by
          rw [hsplit, List.getLast?_append_of_ne_nil _ hend] at hlast
          exact hlast
        have hmore : rest' ≠ [] := by
          intro hnil
          rw [hsplit', hnil, List.append_nil] at hlastOthers
          exact hclean (List.mem_of_getLast? hlastOthers)
        have hhead' : rest'.head? = some slash := by
          have hnot := List.head_dropWhile_not (fun x => decide (x ≠ slash)) (hrest' ▸ hmore)
          obtain ⟨byte, tail, hbyte⟩ := List.exists_cons_of_ne_nil hmore
          simp only [← hrest', hbyte, List.head_cons] at hnot
          rw [hbyte, not_not.mp (of_decide_eq_false hnot)]
          rfl
        have hlast' : rest'.getLast? = some slash := by
          rw [hsplit', List.getLast?_append_of_ne_nil _ hmore] at hlastOthers
          exact hlastOthers
        have hlength' : others.length = component.length + rest'.length := by
          rw [hsplit', List.length_append]
        have hlengthRest : rest.length = slashes.length + others.length := by
          rw [hsplit, List.length_append]
        have hposComponent := List.length_pos_of_ne_nil hfirst
        have hposRest := List.length_pos_of_ne_nil hmore
        dsimp only
        rw [if_neg (by omega), hdrop', ← hcomponent, if_neg (by omega)]
        -- the path up to the end of the component is one step longer
        have hwhole : cpath = (front ++ (slashes ++ component)) ++ rest' := by
          rw [hcpath, hsplit, hsplit']
          simp only [List.append_assoc]
        have hplace : (front ++ (slashes ++ component)).length =
            front.length + slashes.length + component.length := by
          rw [List.length_append, List.length_append, Nat.add_assoc]
        have htake : cpath.take (front.length + slashes.length + component.length) =
            front ++ (slashes ++ component) := by
          rw [← hplace, hwhole, List.take_left]
        obtain ⟨step, hstep⟩ := steps_component hfirst hclean
        have hlevel : steps (front ++ (slashes ++ component)) = steps front ++ [step] := by
          rw [steps_slashes front component hne hall, hstep]
        obtain ⟨tail, htail⟩ := List.head?_eq_some_iff.mp hhead'
        have hlevels : steps cpath = steps front ++ step :: steps tail := by
          rw [hsteps, hsplit', htail, steps_append_slash, hstep]
          rfl
        have htakeLevel : (steps cpath).take (steps front).length = steps front := by
          rw [hlevels, List.take_left]
        have hgetLevel : (steps cpath)[(steps front).length]? = some step := by
          rw [hlevels, List.getElem?_append_right le_rfl, Nat.sub_self]
          rfl
        have hk := (List.getElem?_eq_some_iff.mp hgetLevel).1
        have htakeNext : (steps cpath).take ((steps front).length + 1) = steps front ++ [step] := by
          rw [take_level hgetLevel, htakeLevel]
        have hcount : (steps (front ++ (slashes ++ component))).length =
            (steps front).length + 1 := by
          rw [hlevel, List.length_append, List.length_singleton]
        have hdirectory : statusOf process.tree (steps front) = .directory := by
          have hstatus := hgrown.directories _ le_rfl
          rw [htakeLevel] at hstatus
          exact hstatus
        have hheadPath : (front ++ (slashes ++ component)).head? = some slash := by
          have hnonempty : front ++ (slashes ++ component) ≠ [] :=
            List.append_ne_nil_of_right_ne_nil _ (List.append_ne_nil_of_left_ne_nil hne _)
          rw [hwhole, List.head?_append_of_ne_nil _ hnonempty] at hhead
          exact hhead
        obtain ⟨goesOn, after, hrun, houtcome⟩ := createLevel_outcome mode timestamp
          hfaults hheadPath hlevel hdirectory
        have hnextRun : ∀ next : Process,
            Grown before (steps cpath) ((steps front).length + 1) next.tree →
            (Succeed next.calls ↔ Succeed process.calls) →
            ∃ result last, createLevels system mode timestamp cpath rounds
                (front.length + slashes.length + component.length) next = some (result, last) ∧
              RunOutcome system timestamp before (steps cpath) process result last := by
          intro next hgrown' hcalls
          obtain ⟨result, last, hlastRun, hlastOutcome⟩ := @ih _ _ next hwhole hhead'
            hlast' (by omega) (by rw [hcount]; exact hgrown')
          rw [hplace] at hlastRun
          exact ⟨result, last, hlastRun, hlastOutcome.trans hcalls⟩
        rw [htake, hrun]
        cases houtcome with
        | illegal hstatus htree hcalls =>
            refine ⟨-1, after, rfl, .illegal (k := (steps front).length) ?_ hk ?_ hcalls⟩
            · rw [htree]
              exact hgrown
            · rw [htree, htakeNext]
              exact hstatus
        | present hstatus htree hcalls =>
            refine hnextRun after ?_ hcalls
            rw [htree]
            refine .present hgrown hk ?_
            rw [htakeNext]
            exact hstatus
        | made hstatus hwalk hname hmade hcalls =>
            rw [← htakeLevel] at hwalk
            refine hnextRun after (.made hgrown ?_ hwalk ?_ hmade) hcalls
            · rw [htakeNext]
              exact hstatus
            · rw [hgetLevel, hname]
        | failed hstatus hblocked hcalls =>
            refine ⟨-1, after, rfl, .failed hgrown hgetLevel ?_ ?_ hcalls⟩
            · rw [htakeNext]
              exact hstatus
            · rw [htakeLevel]
              exact hblocked

end Walk

/-! ## The whole function -/

section Whole

variable {before : Tree} {path : Bytes} {stripFileName : Bool}

/-- A directory part of which something is left when the file name is stripped. -/
def HasDirectoryPart (path : Bytes) (stripFileName : Bool) : Prop :=
  stripFileName = true → slash ∈ path.drop 1

/-- The path that the function walks up. -/
theorem directoryPath_eq (stripFileName : Bool) (hpath : path.head? = some slash) :
    (¬HasDirectoryPart path stripFileName ∧ directoryPath path stripFileName = none ∧
      levelsOf path stripFileName = []) ∨
    HasDirectoryPart path stripFileName ∧ ∃ cpath,
      directoryPath path stripFileName = some cpath ∧ cpath.head? = some slash ∧
        cpath.getLast? = some slash ∧ steps cpath = levelsOf path stripFileName := by
  have hne : path ≠ [] := by
    rintro rfl
    cases hpath
  cases stripFileName with
  | false =>
      right
      refine ⟨nofun, path ++ [slash], rfl, ?_, List.getLast?_concat, ?_⟩
      · rw [List.head?_append_of_ne_nil _ hne]
        exact hpath
      · rw [steps_append_slash, steps_nil, List.append_nil]
        rfl
  | true =>
      obtain ⟨directory, file, hsplit, hdirectory, hfile⟩ :
          ∃ directory file, path = directory ++ file ∧ directory = path.rdropWhile (· ≠ slash) ∧
            file = path.rtakeWhile (· ≠ slash) :=
        ⟨_, _, (List.rdropWhile_append_rtakeWhile ..).symm, rfl, rfl⟩
      have hclean : slash ∉ file := by
        intro hmem
        rw [hfile] at hmem
        have hslash := List.mem_rtakeWhile_imp hmem
        exact of_decide_eq_true hslash rfl
      have hsome : directory ≠ [] := by
        rintro rfl
        rw [List.nil_append] at hsplit
        rw [← hsplit] at hclean
        exact hclean (List.mem_of_mem_head? hpath)
      have hlast : directory.getLast? = some slash := by
        have hnot := List.rdropWhile_last_not (fun x => decide (x ≠ slash)) path
          (hdirectory ▸ hsome)
        rw [List.getLast?_eq_some_getLast hsome]
        simp only [← hdirectory] at hnot
        exact congrArg some (not_not.mp (of_decide_eq_false (eq_false_of_ne_true hnot)))
      have hhead : directory.head? = some slash := by
        rw [hsplit, List.head?_append_of_ne_nil _ hsome] at hpath
        exact hpath
      have hlength : path.length = directory.length + file.length := by
        rw [hsplit, List.length_append]
      have hpos := List.length_pos_of_ne_nil hsome
      have hback : (path.reverse.takeWhile (· ≠ slash)).length = file.length := by
        rw [hfile, List.rtakeWhile, List.length_reverse]
      have hc : path.length - 1 - file.length = directory.length - 1 := by omega
      have htake : path.take (directory.length - 1 + 1) = directory := by
        rw [Nat.sub_add_cancel hpos, hsplit, List.take_left]
      have hlevels : levelsOf path true = steps directory := by
        rw [levelsOf, directoryPart, if_pos rfl, ← hdirectory]
      rw [directoryPath, if_pos rfl, hback, hc, hlevels]
      dsimp only
      rw [htake]
      obtain ⟨tail, htail⟩ := List.head?_eq_some_iff.mp hhead
      have hdrop : path.drop 1 = tail ++ file := by
        rw [hsplit, htail]
        rfl
      rw [htail, List.length_cons, Nat.add_sub_cancel]
      cases tail with
      | nil =>
          left
          refine ⟨fun hpart => ?_, rfl, ?_⟩
          · have hmem := hpart rfl
            rw [hdrop] at hmem
            exact hclean hmem
          · rw [steps_slash, steps_nil]
      | cons byte tail =>
          right
          refine ⟨fun _ => ?_, slash :: byte :: tail, if_neg (Nat.succ_ne_zero _), rfl, ?_, rfl⟩
          · rw [hdrop]
            rw [htail] at hlast
            exact List.mem_append_left _ (List.mem_of_getLast? hlast)
          · rw [← htail]
            exact hlast

/-- The first levels of a path that leads to a directory are directories. -/
theorem statusOf_take {levels : List (Step FileName)}
    (hstatus : statusOf before levels = .directory) (k : Nat) :
    statusOf before (levels.take k) = .directory := by
  obtain ⟨place, budget, hwalk, hplace⟩ := statusOf_directory.mp hstatus
  rw [← List.take_append_drop k levels, resolve_append] at hwalk
  obtain ⟨⟨other, left⟩, hfirst, hrest⟩ := bind_eq_ok.mp hwalk
  refine statusOf_directory.mpr ⟨other, left, hfirst, ?_⟩
  dsimp only at hrest
  cases hdrop : levels.drop k with
  | nil =>
      rw [hdrop, resolve_nil] at hrest
      cases hrest
      exact hplace
  | cons step steps =>
      cases hother : before.isDirectory other with
      | true => rfl
      | false =>
          rw [hdrop, resolve_not_directory hother] at hrest
          cases hrest

/-- A level that is no directory makes the whole path illegal. -/
theorem statusOf_illegal {levels : List (Step FileName)} {k : Nat}
    (hstatus : statusOf before (levels.take k) = .illegal) :
    statusOf before levels = .illegal := by
  have hwalk := resolve_append before maxLinks [] (levels.take k) (levels.drop k)
  rw [List.take_append_drop] at hwalk
  rw [statusOf] at hstatus ⊢
  rw [hwalk]
  cases hfirst : before.resolve maxLinks [] (levels.take k) with
  | error errno =>
      rw [hfirst] at hstatus
      exact hstatus
  | ok result =>
      rw [hfirst] at hstatus
      rw [bind_eq_of_ok rfl]
      dsimp only at hstatus ⊢
      cases hplace : before.isDirectory result.1 with
      | true =>
          rw [hplace, if_pos rfl] at hstatus
          cases hstatus
      | false =>
          cases hdrop : levels.drop k with
          | nil =>
              rw [resolve_nil]
              dsimp only
              rw [hplace, if_neg Bool.false_ne_true]
          | cons step steps =>
              rw [resolve_not_directory hplace]
              exact if_neg (by decide)

/-- No level turns out to be no directory once the missing levels before it are made. -/
def ReachesNothingIllegal (before : Tree) (levels : List (Step FileName)) : Prop :=
  ∀ k tree, Grown before levels k tree → k < levels.length →
    statusOf tree (levels.take (k + 1)) ≠ .illegal

/-- The levels before one that a tree has grown to. -/
theorem Grown.earlier {levels : List (Step FileName)} {tree : Tree} {j k : Nat}
    (hgrown : Grown before levels j tree) (hk : k ≤ j) :
    ∃ earlier, Grown before levels k earlier := by
  rcases Nat.eq_or_lt_of_le hk with rfl | hk
  · exact ⟨tree, hgrown⟩
  · obtain ⟨earlier, hearlier, -⟩ := hgrown.reached hk
    exact ⟨earlier, hearlier⟩

/-- A tree cannot grow beyond a name that is taken. -/
theorem Blocked.not_grown {system : System} {levels : List (Step FileName)} {tree next : Tree}
    {step : Step FileName} {k : Nat} (hblocked : Blocked system none tree (levels.take k) step)
    (hnone : ∀ number call, system.faults number call = none) (hstep : levels[k]? = some step)
    (hgrown : Grown before levels k tree)
    (hstatus : statusOf tree (levels.take (k + 1)) = .missing) :
    ¬Grown before levels (k + 1) next := by
  intro hnext
  cases hnext with
  | present hother hlevel hdirectory =>
      rw [← (hgrown.alike hother).statusOf, hstatus] at hdirectory
      cases hdirectory
  | made hother hmissing hwalk hname hmade =>
      have halike := hgrown.alike hother
      rw [hstep] at hname
      cases hname
      rw [← halike.resolve] at hwalk
      refine hblocked hnone rfl _ _ _ hwalk rfl ?_
      rw [halike.number]
      exact hmade.free

/-- The state of the whole path decides what the function does first. -/
theorem dirCreateHierarchy_outcome (system : System) (mode : Int32)
    (timestamp : Option (Int × Int)) (process : Process) (hpath : path.head? = some slash)
    (hfaults : ∀ number path, system.faults number (.stat path) = none)
    (hpart : HasDirectoryPart path stripFileName) :
    ∃ result after,
      dirCreateHierarchy system path mode timestamp stripFileName process = some (result, after) ∧
      match statusOf process.tree (levelsOf path stripFileName) with
      | .directory =>
          result = 0 ∧ after.tree = process.tree ∧ (Succeed after.calls ↔ Succeed process.calls)
      | .illegal =>
          result = -1 ∧ after.tree = process.tree ∧ (Succeed after.calls ↔ Succeed process.calls)
      | .missing =>
          RunOutcome system timestamp process.tree (levelsOf path stripFileName) process
            result after := by
  have hne : path ≠ [] := by
    rintro rfl
    cases hpath
  rcases directoryPath_eq stripFileName hpath with
    ⟨hnot, -⟩ | ⟨-, cpath, hcpath, hhead, hlast, hlevels⟩
  · exact absurd hpart hnot
  · obtain ⟨next, hstatus, htree, hcalls⟩ := getPathDirStatus_eq process hfaults hhead
    rw [dirCreateHierarchy, if_neg hne, hcpath]
    dsimp only
    rw [hstatus, hlevels]
    cases hwhole : statusOf process.tree (levelsOf path stripFileName) with
    | directory => exact ⟨0, next, rfl, rfl, htree, hcalls⟩
    | illegal => exact ⟨-1, next, rfl, rfl, htree, hcalls⟩
    | missing =>
        dsimp only
        have hstart : Grown process.tree (steps cpath) (steps []).length next.tree := by
          rw [htree, steps_nil]
          exact .start
        obtain ⟨result, after, hrun, houtcome⟩ := createLevels_outcome mode timestamp
          hfaults (List.nil_append cpath).symm hhead hhead hlast
          (Nat.lt_succ_self _) hstart
        rw [hlevels] at houtcome
        exact ⟨result, after, hrun, houtcome.trans hcalls⟩

/-- Without a directory part nothing is done. -/
theorem dirCreateHierarchy_noPart (system : System) (mode : Int32)
    (timestamp : Option (Int × Int)) (process : Process) (hpath : path.head? = some slash)
    (hpart : ¬HasDirectoryPart path stripFileName) :
    levelsOf path stripFileName = [] ∧
      dirCreateHierarchy system path mode timestamp stripFileName process =
        some (-1, { process with errno := Errno.noEntry.code }) := by
  have hne : path ≠ [] := by
    rintro rfl
    cases hpath
  rcases directoryPath_eq stripFileName hpath with
    ⟨-, hnone, hlevels⟩ | ⟨hhas, -⟩
  · refine ⟨hlevels, ?_⟩
    rw [dirCreateHierarchy, if_neg hne, hnone]
  · exact absurd hhas hpart

/-- A run that makes all levels meets nothing illegal. -/
theorem Grown.reachesNothingIllegal {levels : List (Step FileName)} {last : Tree}
    (hgrown : Grown before levels levels.length last) : ReachesNothingIllegal before levels := by
  intro k tree hk hlength
  obtain ⟨earlier, hearlier, hstatus⟩ := hgrown.reached hlength
  rw [(hk.alike hearlier).statusOf]
  exact hstatus

/-- A level whose name is taken is the last one that is reached. -/
theorem Blocked.reachesNothingIllegal {system : System} {levels : List (Step FileName)}
    {tree : Tree} {step : Step FileName} {k : Nat}
    (hblocked : Blocked system none tree (levels.take k) step)
    (hnone : ∀ number call, system.faults number call = none) (hstep : levels[k]? = some step)
    (hgrown : Grown before levels k tree)
    (hstatus : statusOf tree (levels.take (k + 1)) = .missing) :
    ReachesNothingIllegal before levels := by
  intro j other hother hj
  rcases Nat.lt_trichotomy j k with hlt | rfl | hgt
  · obtain ⟨earlier, hearlier, hlegal⟩ := hgrown.reached hlt
    rw [(hother.alike hearlier).statusOf]
    exact hlegal
  · rw [(hother.alike hgrown).statusOf, hstatus]
    exact nofun
  · obtain ⟨next, hnext⟩ := hother.earlier hgt
    exact absurd hnext (hblocked.not_grown hnone hstep hgrown hstatus)

theorem OnlyCreated.refl (levels : List (Step FileName)) (tree : Tree) :
    OnlyCreated levels tree tree :=
  ⟨fun _ => Or.inl rfl, fun _ _ => rfl⟩

/-- The directories are made unless the path is cut to nothing or leads through a directory that
is made to something else. -/
theorem dirCreateHierarchy_iff (hpath : path.head? = some slash) :
    CreatesMissing before path stripFileName ↔
      ((∀ k ≤ (levelsOf path stripFileName).length,
          statusOf before ((levelsOf path stripFileName).take k) ≠ .illegal) →
        HasDirectoryPart path stripFileName ∧
          ReachesNothingIllegal before (levelsOf path stripFileName)) := by
  constructor
  · intro hcreates hlegal
    obtain ⟨result, after, hrun, hmissing, -⟩ := hcreates ⟨[], 0, 0, fun _ _ => none⟩ 0 none 0
      fun _ _ => rfl
    have hnothing : Succeed [] := fun _ => ⟨List.not_mem_nil, List.not_mem_nil⟩
    by_cases hpart : HasDirectoryPart path stripFileName
    · refine ⟨hpart, ?_⟩
      obtain ⟨result', after', hrun', houtcome⟩ := dirCreateHierarchy_outcome
        ⟨[], 0, 0, fun _ _ => none⟩ 0 none ⟨before, 0, []⟩ hpath (fun _ _ => rfl) hpart
      rw [hrun] at hrun'
      cases hrun'
      have hmade := hmissing hlegal
      cases hwhole : statusOf before (levelsOf path stripFileName) with
      | directory =>
          intro k tree hgrown _
          rw [statusOf_within hgrown.within (statusOf_take hwhole (k + 1))]
          exact nofun
      | illegal =>
          refine absurd hwhole ?_
          have hlast := hlegal _ le_rfl
          rw [List.take_length] at hlast
          exact hlast
      | missing =>
          rw [hwhole] at houtcome
          cases houtcome with
          | created hgrown hcalls => exact hgrown.reachesNothingIllegal
          | illegal hgrown hk hstatus hcalls =>
              have hresult := (hmade (hcalls.mpr hnothing)).1
              cases hresult
          | failed hgrown hstep hstatus hblocked hcalls =>
              exact hblocked.reachesNothingIllegal (fun _ _ => rfl) hstep hgrown hstatus
    · obtain ⟨-, hfail⟩ := dirCreateHierarchy_noPart ⟨[], 0, 0, fun _ _ => none⟩ 0 none
        ⟨before, 0, []⟩ hpath hpart
      rw [hrun] at hfail
      cases hfail
      have hresult := (hmissing hlegal hnothing).1
      cases hresult
  · intro hcondition system mode timestamp errno hfaults
    by_cases hpart : HasDirectoryPart path stripFileName
    · obtain ⟨result, after, hrun, houtcome⟩ := dirCreateHierarchy_outcome system mode
        timestamp ⟨before, errno, []⟩ hpath hfaults hpart
      refine ⟨result, after, hrun, ?_, ?_⟩
      · intro hlegal hsucceed
        obtain ⟨-, hreaches⟩ := hcondition hlegal
        cases hwhole : statusOf before (levelsOf path stripFileName) with
        | directory =>
            rw [hwhole] at houtcome
            obtain ⟨hresult, htree, -⟩ := houtcome
            rw [htree]
            exact ⟨hresult, fun k _ => statusOf_take hwhole k, OnlyCreated.refl _ _⟩
        | illegal =>
            have hlast := hlegal _ le_rfl
            rw [List.take_length] at hlast
            exact absurd hwhole hlast
        | missing =>
            rw [hwhole] at houtcome
            cases houtcome with
            | created hgrown hcalls =>
                exact ⟨rfl, hgrown.directories, (hgrown.onlyCreated hlegal).1⟩
            | illegal hgrown hk hstatus hcalls =>
                exact absurd hstatus (hreaches _ _ hgrown hk)
            | failed hgrown hstep hstatus hblocked hcalls => exact absurd hsucceed hcalls
      · rintro ⟨k, -, hillegal⟩
        have hwhole : statusOf before (levelsOf path stripFileName) = .illegal :=
          statusOf_illegal hillegal
        rw [hwhole] at houtcome
        exact ⟨houtcome.1, houtcome.2.1⟩
    · obtain ⟨hlevels, hrun⟩ := dirCreateHierarchy_noPart system mode timestamp
        ⟨before, errno, []⟩ hpath hpart
      refine ⟨-1, _, hrun, ?_, fun _ => ⟨rfl, rfl⟩⟩
      intro hlegal
      exact absurd (hcondition hlegal).1 hpart

theorem dirCreateHierarchy_small :
    CreatesMissing smallTree [47, 101, 47, 47, 102] true ↔
      ((∀ k ≤ (levelsOf [47, 101, 47, 47, 102] true).length,
          statusOf smallTree ((levelsOf [47, 101, 47, 47, 102] true).take k) ≠ .illegal) →
        HasDirectoryPart [47, 101, 47, 47, 102] true ∧
          ReachesNothingIllegal smallTree (levelsOf [47, 101, 47, 47, 102] true)) :=
  dirCreateHierarchy_iff rfl

/-- A name in the root directory is taken for a path without a directory. -/
theorem rootEntry_refused : ¬CreatesMissing smallTree [47, 101] true := by
  intro hcreates
  obtain ⟨result, after, hrun, hmissing, -⟩ := hcreates ⟨[], 0, 0, fun _ _ => none⟩ 0x1ED none 0
    fun _ _ => rfl
  have hfail : dirCreateHierarchy ⟨[], 0, 0, fun _ _ => none⟩ [47, 101] 0x1ED none true
      ⟨smallTree, 0, []⟩ = some (-1, ⟨smallTree, 2, []⟩) := rfl
  rw [hfail] at hrun
  cases hrun
  have hlevels : levelsOf [47, 101] true = [] := by decide
  have hresult := (hmissing ?_ ?_).1
  · cases hresult
  · intro k _
    rw [hlevels, List.take_nil, statusOf_nil]
    exact nofun
  · exact fun path => ⟨List.not_mem_nil, List.not_mem_nil⟩

end Whole

end OpenRecovery.DirUtil
