import OpenRecovery.DirUtil
import OpenRecovery.FallibleRuns
import Mathlib

/-!
# Paths to directories and calls on them

A path that is made longer by a name leads to that name in the directory of the shorter path.
A call that fails leaves the tree as it was.
-/

namespace OpenRecovery.DirUtil

open FileTree

/-! ## Steps -/

theorem steps_append_slash (path rest : Bytes) :
    steps (path ++ slash :: rest) = steps path ++ steps rest := by
  rw [steps, List.splitOn_append_cons_self, List.filterMap_append]
  rfl

theorem steps_nil : steps [] = [] := by
  decide

section Places

variable {cwd : Place} {tree smaller larger : Tree} {path : Bytes} {place : Place}

theorem entryOf_eq_ok {name : FileName} :
    entryOf cwd tree path = .ok (place, name) ↔
      (steps path).getLast? = some (.name name) ∧ tree.isDirectory place = true ∧
        ∃ budget, tree.resolve maxLinks (startOf cwd path) (steps path).dropLast =
          .ok (place, budget) := by
  rw [entryOf]
  split
  · rename_i last hlast
    rw [bind_eq_ok]
    constructor
    · rintro ⟨⟨other, budget⟩, hwalk, hresult⟩
      dsimp only at hresult
      split at hresult
      · rename_i hdirectory
        cases hresult
        exact ⟨hlast, hdirectory, budget, hwalk⟩
      · cases hresult
    · rintro ⟨hname, hdirectory, budget, hwalk⟩
      rw [hlast] at hname
      cases hname
      exact ⟨_, hwalk, if_pos hdirectory⟩
  · rename_i hlast
    exact iff_of_false nofun fun h => hlast _ h.1

theorem statPlace_eq_ok :
    statPlace cwd tree path = .ok place ↔
      path ≠ [] ∧ (endsInSlash path = true → tree.isDirectory place = true) ∧
        ∃ budget, tree.resolve maxLinks (startOf cwd path) (steps path) = .ok (place, budget) := by
  rw [statPlace]
  split
  · rename_i hpath
    exact iff_of_false nofun fun h => h.1 hpath
  · rename_i hpath
    rw [bind_eq_ok]
    constructor
    · rintro ⟨⟨other, budget⟩, hwalk, hresult⟩
      dsimp only at hresult
      split at hresult
      · cases hresult
      · rename_i hslash
        cases hresult
        refine ⟨hpath, fun hends => ?_, budget, hwalk⟩
        rw [hends, Bool.true_and, Bool.not_eq_true'] at hslash
        exact eq_true_of_ne_false hslash
    · rintro ⟨-, hslash, budget, hwalk⟩
      refine ⟨_, hwalk, if_neg ?_⟩
      rw [Bool.and_eq_true, Bool.not_eq_true', not_and]
      intro hends
      rw [hslash hends]
      exact Bool.noConfusion

theorem number_of_directory (hdirectory : tree.isDirectory place = true) :
    tree.number place ≠ none := by
  intro hnone
  have hkind := isDirectory_iff.mp hdirectory
  rw [kindAt_eq_none.mpr hnone] at hkind
  cases hkind

end Places

/-! ## Calls -/

section Calls

variable {system : System} {call : Call} {Value : Type} {process after : Process}

theorem perform_some {act : Tree → Except Errno (Value × Tree)} {value : Value}
    (hrun : perform system call act process = (some value, after)) :
    act process.tree = .ok (value, after.tree) ∧ after.errno = process.errno := by
  rw [perform] at hrun
  split at hrun
  · cases hrun
  · split at hrun
    · cases hrun
    · rename_i hact
      cases hrun
      exact ⟨hact, rfl⟩

theorem changeAct_ok {cwd : Place} {path : Bytes} {change : Inode FileName → Inode FileName}
    {hkind : ∀ inode, (change inode).kind = inode.kind} {tree after : Tree}
    (hact : changeAct cwd path change hkind tree = .ok ((), after)) :
    ∃ place n, statPlace cwd tree path = .ok place ∧ tree.number place = some n ∧
      after = tree.changeInode n change hkind := by
  obtain ⟨place, hplace, hresult⟩ := bind_eq_ok.mp hact
  split at hresult
  · cases hresult
  · rename_i n hn
    cases hresult
    exact ⟨place, n, hplace, hn, rfl⟩

end Calls

/-! ## Entries and their paths -/

section Entries

/-- The full paths of everything at or below a place are short enough. -/
def ShortPaths (tree : Tree) (place : Place) (path : Bytes) : Prop :=
  ∀ rest : Place, (tree.number (place ++ rest)).isSome →
    (path ++ rest.flatMap fun name => slash :: name.val).length < pathMax

theorem ShortPaths.child {tree : Tree} {place : Place} {path : Bytes} {name : FileName}
    (hshort : ShortPaths tree place path) :
    ShortPaths tree (place ++ [name]) (path ++ slash :: name.val) := by
  intro rest hrest
  have hlong := hshort (name :: rest) (by rwa [List.append_cons])
  rw [List.flatMap_cons, ← List.append_assoc] at hlong
  exact hlong

theorem ShortPaths.within {before after : Tree} {place : Place} {path : Bytes}
    (hshort : ShortPaths before place path) (hwithin : Within after before) :
    ShortPaths after place path := by
  intro rest hrest
  obtain ⟨n, hn⟩ := Option.isSome_iff_exists.mp hrest
  exact hshort rest (by rw [(hwithin _ n hn).1]; rfl)

/-- A root with an empty directory `d`. -/
def smallTree : Tree :=
  (FileTree.empty ⟨.directory, 0, 0, 0x1ED, (0, 0)⟩ rfl).add [] ⟨[100], by decide⟩
    ⟨.directory, 0, 0, 0x1ED, (0, 0)⟩ rfl rfl

end Entries

end OpenRecovery.DirUtil
