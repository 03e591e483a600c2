import Mathlib

/-!
# Trees of files

A place in a tree is the list of the names from the root on.  Names refer to files by numbers,
so that a file which is no directory may have several of them.  A path is walked step by step,
and the symbolic links on the way are followed as long as there are not too many.
-/

namespace OpenRecovery

/-- An error of the system. -/
structure Errno where
  code : Int
  positive : 0 < code
  deriving DecidableEq

namespace Errno

def noEntry : Errno := ⟨2, by decide⟩

def busy : Errno := ⟨16, by decide⟩

def exists' : Errno := ⟨17, by decide⟩

def notDirectory : Errno := ⟨20, by decide⟩

def isDirectory : Errno := ⟨21, by decide⟩

def invalid : Errno := ⟨22, by decide⟩

def notEmpty : Errno := ⟨39, by decide⟩

def loop : Errno := ⟨40, by decide⟩

end Errno

/-! ## Trees -/

inductive Step (Name : Type) where
  | here
  | up
  | name (name : Name)

structure Target (Name : Type) where
  absolute : Bool
  steps : List (Step Name)

inductive FileKind (Name : Type) where
  | directory
  | file
  | link (target : Target Name)

structure Inode (Name : Type) where
  kind : FileKind Name
  uid : UInt32
  gid : UInt32
  mode : UInt32
  times : Int × Int

/-- Every name stands in a directory, and the names in a directory are listed in some order.
Numbers from `next` on are not used. -/
structure FileTree (Name : Type) where
  number : List Name → Option Nat
  entries : List Name → List Name
  inodes : Nat → Inode Name
  next : Nat
  rooted : ∃ n, number [] = some n ∧ (inodes n).kind = .directory
  parent : ∀ place name n, number (place ++ [name]) = some n →
    ∃ m, number place = some m ∧ (inodes m).kind = .directory
  mem_entries : ∀ place name, name ∈ entries place ↔ (number (place ++ [name])).isSome
  distinct : ∀ place, (entries place).Nodup
  used : ∀ place n, number place = some n → n < next

namespace FileTree

variable {Name : Type}

def kindAt (tree : FileTree Name) (place : List Name) : Option (FileKind Name) :=
  (tree.number place).map fun n => (tree.inodes n).kind

def isDirectory (tree : FileTree Name) (place : List Name) : Bool :=
  match tree.kindAt place with
  | some .directory => true
  | _ => false

/-! ## Walking a path -/

section Walk

/-- The walk up to the next link, which is followed by what is given for it. -/
def resolveFrom (tree : FileTree Name)
    (follow : List Name → List (Step Name) → Except Errno (List Name × Nat)) (budget : Nat) :
    (place : List Name) → List (Step Name) → Except Errno (List Name × Nat)
  | place, [] => .ok (place, budget)
  | place, step :: steps =>
      if tree.isDirectory place then
        match step with
        | .here => resolveFrom tree follow budget place steps
        | .up => resolveFrom tree follow budget place.dropLast steps
        | .name name =>
            match tree.kindAt (place ++ [name]) with
            | none => .error .noEntry
            | some .directory => resolveFrom tree follow budget (place ++ [name]) steps
            | some .file => resolveFrom tree follow budget (place ++ [name]) steps
            | some (.link target) =>
                follow (if target.absolute then [] else place) (target.steps ++ steps)
      else .error .notDirectory

/-- The place that a path leads to, and how many links may still be followed. -/
def resolve (tree : FileTree Name) :
    (budget : Nat) → (place : List Name) → List (Step Name) → Except Errno (List Name × Nat)
  | 0 => resolveFrom tree (fun _ _ => .error .loop) 0
  | budget + 1 => resolveFrom tree (resolve tree budget) (budget + 1)

/-- The number of steps that the next link takes from the budget. -/
def followWith (tree : FileTree Name) :
    (budget : Nat) → (place : List Name) → List (Step Name) → Except Errno (List Name × Nat)
  | 0 => fun _ _ => .error .loop
  | budget + 1 => resolve tree budget

theorem resolve_eq (tree : FileTree Name) (budget : Nat) :
    resolve tree budget = resolveFrom tree (followWith tree budget) budget := by
  cases budget <;> rfl

theorem resolve_nil (tree : FileTree Name) (budget : Nat) (place : List Name) :
    resolve tree budget place [] = .ok (place, budget) := by
  rw [resolve_eq]
  rfl

theorem resolve_not_directory {tree : FileTree Name} {place : List Name}
    (hplace : tree.isDirectory place = false) (budget : Nat) (step : Step Name)
    (steps : List (Step Name)) :
    resolve tree budget place (step :: steps) = .error .notDirectory := by
  rw [resolve_eq]
  exact if_neg (Bool.eq_false_iff.mp hplace)

/-- One step from a directory. -/
def stepFrom (tree : FileTree Name) (budget : Nat) (place : List Name) (steps : List (Step Name)) :
    Step Name → Except Errno (List Name × Nat)
  | .here => resolve tree budget place steps
  | .up => resolve tree budget place.dropLast steps
  | .name name =>
      match tree.kindAt (place ++ [name]) with
      | none => .error .noEntry
      | some .directory => resolve tree budget (place ++ [name]) steps
      | some .file => resolve tree budget (place ++ [name]) steps
      | some (.link target) =>
          followWith tree budget (if target.absolute then [] else place) (target.steps ++ steps)

theorem resolve_directory {tree : FileTree Name} {place : List Name}
    (hplace : tree.isDirectory place = true) (budget : Nat) (step : Step Name)
    (steps : List (Step Name)) :
    resolve tree budget place (step :: steps) = stepFrom tree budget place steps step := by
  cases step with
  | here =>
      rw [stepFrom, resolve_eq]
      exact if_pos hplace
  | up =>
      rw [stepFrom, resolve_eq]
      exact if_pos hplace
  | name name =>
      rw [stepFrom, resolve_eq]
      exact if_pos hplace

/-- The walk along a longer path goes on where the walk along its beginning ends. -/
theorem resolve_append (tree : FileTree Name) (budget : Nat) (place : List Name)
    (first second : List (Step Name)) :
    resolve tree budget place (first ++ second) =
      resolve tree budget place first >>= fun (place, budget) =>
        resolve tree budget place second := by
  induction budget using Nat.strong_induction_on generalizing place first with
  | _ budget ihBudget =>
      induction first generalizing place with
      | nil =>
          rw [List.nil_append, resolve_nil]
          rfl
      | cons step first ih =>
          rw [List.cons_append]
          cases hplace : tree.isDirectory place with
          | false =>
              rw [resolve_not_directory hplace, resolve_not_directory hplace]
              rfl
          | true =>
              rw [resolve_directory hplace, resolve_directory hplace]
              cases step with
              | here => exact ih place
              | up => exact ih place.dropLast
              | name name =>
                  rw [stepFrom, stepFrom]
                  cases tree.kindAt (place ++ [name]) with
                  | none => rfl
                  | some kind =>
                      cases kind with
                      | directory => exact ih (place ++ [name])
                      | file => exact ih (place ++ [name])
                      | link target =>
                          dsimp only
                          rw [← List.append_assoc]
                          cases budget with
                          | zero => rfl
                          | succ budget => exact ihBudget budget (Nat.lt_succ_self _) _ _

end Walk

/-! ## Kinds -/

section Kinds

variable {tree smaller larger : FileTree Name} {place : List Name}

theorem isDirectory_iff : tree.isDirectory place = true ↔ tree.kindAt place = some .directory := by
  rw [isDirectory]
  split
  · rename_i hkind
    exact iff_of_true rfl hkind
  · rename_i hkind
    exact iff_of_false Bool.false_ne_true hkind

theorem kindAt_eq_none : tree.kindAt place = none ↔ tree.number place = none :=
  Option.map_eq_none_iff

theorem kindAt_eq_some {kind : FileKind Name} :
    tree.kindAt place = some kind ↔
      ∃ n, tree.number place = some n ∧ (tree.inodes n).kind = kind :=
  Option.map_eq_some_iff

theorem isDirectory_root (tree : FileTree Name) : tree.isDirectory [] = true :=
  (isDirectory_iff).mpr ((kindAt_eq_some).mpr tree.rooted)

theorem isDirectory_parent {name : Name} (hsome : tree.number (place ++ [name]) ≠ none) :
    tree.isDirectory place = true := by
  obtain ⟨n, hn⟩ := Option.ne_none_iff_exists'.mp hsome
  exact (isDirectory_iff).mpr ((kindAt_eq_some).mpr (tree.parent place name n hn))

/-- What is no directory has nothing in it. -/
theorem childless (hplace : tree.isDirectory place = false) (name : Name) :
    tree.number (place ++ [name]) = none := by
  by_contra hsome
  rw [isDirectory_parent hsome] at hplace
  cases hplace

/-- A tree of which everything is in another one. -/
def Within (smaller larger : FileTree Name) : Prop :=
  ∀ place n, smaller.number place = some n →
    larger.number place = some n ∧ (larger.inodes n).kind = (smaller.inodes n).kind

theorem Within.refl (tree : FileTree Name) : Within tree tree :=
  fun _ _ hn => ⟨hn, rfl⟩

theorem Within.trans {middle : FileTree Name} (hfirst : Within smaller middle)
    (hsecond : Within middle larger) : Within smaller larger := by
  intro place n hn
  obtain ⟨hmiddle, hkind⟩ := hfirst place n hn
  obtain ⟨hlarger, hkind'⟩ := hsecond place n hmiddle
  exact ⟨hlarger, hkind'.trans hkind⟩

theorem Within.kindAt (hwithin : Within smaller larger) {kind : FileKind Name}
    (hkind : smaller.kindAt place = some kind) : larger.kindAt place = some kind := by
  obtain ⟨n, hn, hkind⟩ := (kindAt_eq_some).mp hkind
  obtain ⟨hlarger, hsame⟩ := hwithin place n hn
  exact (kindAt_eq_some).mpr ⟨n, hlarger, hsame.trans hkind⟩

theorem Within.isDirectory (hwithin : Within smaller larger)
    (hplace : smaller.isDirectory place = true) : larger.isDirectory place = true :=
  (isDirectory_iff).mpr (hwithin.kindAt ((isDirectory_iff).mp hplace))

/-- A walk that succeeds in the smaller tree leads to the same place in the larger one. -/
theorem Within.resolve (hwithin : Within smaller larger) {budget : Nat}
    {steps : List (Step Name)} {result : List Name × Nat}
    (hresult : smaller.resolve budget place steps = .ok result) :
    larger.resolve budget place steps = .ok result := by
  induction budget using Nat.strong_induction_on generalizing place steps with
  | _ budget ihBudget =>
      induction steps generalizing place with
      | nil =>
          rw [resolve_nil] at hresult ⊢
          exact hresult
      | cons step steps ih =>
          cases hplace : smaller.isDirectory place with
          | false =>
              rw [resolve_not_directory hplace] at hresult
              cases hresult
          | true =>
              rw [resolve_directory hplace] at hresult
              rw [resolve_directory (hwithin.isDirectory hplace)]
              cases step with
              | here => exact ih hresult
              | up => exact ih hresult
              | name name =>
                  rw [stepFrom] at hresult ⊢
                  cases hkind : smaller.kindAt (place ++ [name]) with
                  | none =>
                      rw [hkind] at hresult
                      cases hresult
                  | some kind =>
                      rw [hkind] at hresult
                      rw [hwithin.kindAt hkind]
                      cases kind with
                      | directory => exact ih hresult
                      | file => exact ih hresult
                      | link target =>
                          cases budget with
                          | zero => cases hresult
                          | succ budget => exact ihBudget budget (Nat.lt_succ_self _) hresult

/-- A walk only asks what there is at the places on the way. -/
theorem resolve_congr {first second : FileTree Name}
    (hkind : ∀ place, first.kindAt place = second.kindAt place) (budget : Nat)
    (place : List Name) (steps : List (Step Name)) :
    first.resolve budget place steps = second.resolve budget place steps := by
  have hdirectory : ∀ place, first.isDirectory place = second.isDirectory place := by
    intro place
    rw [isDirectory, isDirectory, hkind]
  induction budget using Nat.strong_induction_on generalizing place steps with
  | _ budget ihBudget =>
      induction steps generalizing place with
      | nil => rw [resolve_nil, resolve_nil]
      | cons step steps ih =>
          cases hplace : second.isDirectory place with
          | false =>
              rw [resolve_not_directory hplace,
                resolve_not_directory ((hdirectory place).trans hplace)]
          | true =>
              rw [resolve_directory hplace, resolve_directory ((hdirectory place).trans hplace)]
              cases step with
              | here => exact ih place
              | up => exact ih place.dropLast
              | name name =>
                  rw [stepFrom, stepFrom, hkind]
                  cases second.kindAt (place ++ [name]) with
                  | none => rfl
                  | some kind =>
                      cases kind with
                      | directory => exact ih (place ++ [name])
                      | file => exact ih (place ++ [name])
                      | link target =>
                          cases budget with
                          | zero => rfl
                          | succ budget => exact ihBudget budget (Nat.lt_succ_self _) _ _

end Kinds

/-- A tree that has nothing but its root. -/
def empty (root : Inode Name) (hroot : root.kind = .directory) : FileTree Name where
  number
    | [] => some 0
    | _ :: _ => none
  entries := fun _ => []
  inodes := fun _ => root
  next := 1
  rooted := ⟨0, rfl, hroot⟩
  parent := by
    intro place name n hn
    cases place <;> cases hn
  mem_entries := by
    intro place name
    cases place <;> exact iff_of_false List.not_mem_nil Bool.false_ne_true
  distinct := fun _ => List.nodup_nil
  used := by
    intro place n hn
    cases place with
    | nil =>
        cases hn
        exact Nat.one_pos
    | cons _ _ => cases hn

/-! ## Changes -/

section Changes

variable [DecidableEq Name]

/-- A name is taken out of a directory. -/
def remove (tree : FileTree Name) (place : List Name) (hroot : place ≠ [])
    (hempty : ∀ name, tree.number (place ++ [name]) = none) : FileTree Name where
  number := fun other => if other = place then none else tree.number other
  entries := fun other => (tree.entries other).filter fun name => other ++ [name] ≠ place
  inodes := tree.inodes
  next := tree.next
  rooted := by
    rw [if_neg hroot.symm]
    exact tree.rooted
  parent := by
    intro other name n hn
    split at hn
    · cases hn
    · rw [if_neg]
      · exact tree.parent other name n hn
      · rintro rfl
        rw [hempty name] at hn
        cases hn
  mem_entries := by
    intro other name
    rw [List.mem_filter, tree.mem_entries, decide_eq_true_iff]
    split
    · rename_i hsame
      exact iff_of_false (fun h => h.2 hsame) Bool.false_ne_true
    · rename_i hne
      exact and_iff_left hne
  distinct := fun other => (tree.distinct other).filter _
  used := by
    intro other n hn
    split at hn
    · cases hn
    · exact tree.used other n hn

/-- A new file gets a name in a directory. -/
def add (tree : FileTree Name) (place : List Name) (name : Name) (inode : Inode Name)
    (hplace : tree.isDirectory place = true) (hfree : tree.number (place ++ [name]) = none) : FileTree Name where
  number := fun other => if other = place ++ [name] then some tree.next else tree.number other
  entries := fun other =>
    if other = place then tree.entries place ++ [name] else tree.entries other
  inodes := Function.update tree.inodes tree.next inode
  next := tree.next + 1
  rooted := by
    obtain ⟨n, hn, hroot⟩ := tree.rooted
    refine ⟨n, ?_, ?_⟩
    · rw [if_neg]
      · exact hn
      · exact (List.append_ne_nil_of_right_ne_nil place (List.cons_ne_nil name [])).symm
    · rw [Function.update_of_ne (tree.used [] n hn).ne]
      exact hroot
  parent := by
    intro other last n hn
    split at hn
    · rename_i hsame
      obtain ⟨rfl, -⟩ := List.append_singleton_inj.mp hsame
      obtain ⟨m, hm, hdirectory⟩ := kindAt_eq_some.mp (isDirectory_iff.mp hplace)
      refine ⟨m, ?_, ?_⟩
      · rw [if_neg (by simp)]
        exact hm
      · rw [Function.update_of_ne (tree.used other m hm).ne]
        exact hdirectory
    · obtain ⟨m, hm, hdirectory⟩ := tree.parent other last n hn
      refine ⟨m, ?_, ?_⟩
      · rw [if_neg]
        · exact hm
        · rintro rfl
          rw [hfree] at hm
          cases hm
      · rw [Function.update_of_ne (tree.used other m hm).ne]
        exact hdirectory
  mem_entries := by
    intro other last
    by_cases hother : other = place
    · subst hother
      rw [if_pos rfl, List.mem_append, List.mem_singleton, tree.mem_entries]
      by_cases hlast : last = name
      · subst hlast
        rw [if_pos rfl]
        exact iff_of_true (Or.inr rfl) rfl
      · rw [if_neg fun hsame => hlast (List.append_singleton_inj.mp hsame).2]
        exact or_iff_left hlast
    · rw [if_neg hother, if_neg fun hsame => hother (List.append_singleton_inj.mp hsame).1]
      exact tree.mem_entries other last
  distinct := by
    intro other
    split
    · have hnot : name ∉ tree.entries place := by
        rw [tree.mem_entries, hfree]
        exact Bool.false_ne_true
      exact (tree.distinct place).append (List.nodup_singleton name)
        (List.disjoint_singleton.mpr hnot)
    · exact tree.distinct other
  used := by
    intro other n hn
    split at hn
    · cases hn
      exact Nat.lt_succ_self _
    · exact Nat.lt_succ_of_lt (tree.used other n hn)

end Changes

theorem kind_update {change : Inode Name → Inode Name} (inodes : Nat → Inode Name) (n m : Nat)
    (hkind : ∀ inode, (change inode).kind = inode.kind) :
    (Function.update inodes n (change (inodes n)) m).kind = (inodes m).kind := by
  by_cases hsame : m = n
  · rw [hsame, Function.update_self]
    exact hkind (inodes n)
  · rw [Function.update_of_ne hsame]

/-- An inode is changed, but not what it is. -/
def changeInode (tree : FileTree Name) (n : Nat) (change : Inode Name → Inode Name)
    (hkind : ∀ inode, (change inode).kind = inode.kind) : FileTree Name where
  number := tree.number
  entries := tree.entries
  inodes := Function.update tree.inodes n (change (tree.inodes n))
  next := tree.next
  rooted := by
    obtain ⟨m, hm, hroot⟩ := tree.rooted
    refine ⟨m, hm, ?_⟩
    rw [← hroot, kind_update tree.inodes n m hkind]
  parent := by
    intro place name m hm
    obtain ⟨k, hk, hdirectory⟩ := tree.parent place name m hm
    refine ⟨k, hk, ?_⟩
    rw [← hdirectory, kind_update tree.inodes n k hkind]
  mem_entries := tree.mem_entries
  distinct := tree.distinct
  used := tree.used

theorem kind_changeInode {tree : FileTree Name} {n : Nat} {change : Inode Name → Inode Name}
    (hkind : ∀ inode, (change inode).kind = inode.kind) (m : Nat) :
    ((tree.changeInode n change hkind).inodes m).kind = (tree.inodes m).kind :=
  kind_update tree.inodes n m hkind

end FileTree

end OpenRecovery
