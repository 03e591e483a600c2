import OpenRecovery.DirectoryPaths
import Mathlib

/-!
# Permissions of a hierarchy

What is returned is 0 only if every file at or below the path that is no link has got its owner
and its permissions; no other file is touched.  Files with several names are set once for each
of them, and are as they ought to be after each time that succeeds.
-/

namespace OpenRecovery.DirUtil

open FileTree

/-! ## The attributes of a file -/

section Attributes

variable {uid gid dirMode fileMode : Int32}

/-- A file that may have been changed, but not beyond its owner and its permissions. -/
structure MayHaveChanged (uid gid : Int32) (before after : Inode FileName) : Prop where
  kind : after.kind = before.kind
  times : after.times = before.times
  uid : after.uid = before.uid ∨ uid ≠ -1 ∧ after.uid = uid.toUInt32
  gid : after.gid = before.gid ∨ gid ≠ -1 ∧ after.gid = gid.toUInt32

theorem MayHaveChanged.refl (uid gid : Int32) (inode : Inode FileName) :
    MayHaveChanged uid gid inode inode :=
  ⟨rfl, rfl, Or.inl rfl, Or.inl rfl⟩

theorem MayHaveChanged.trans {before middle after : Inode FileName}
    (hfirst : MayHaveChanged uid gid before middle)
    (hsecond : MayHaveChanged uid gid middle after) : MayHaveChanged uid gid before after where
  kind := hsecond.kind.trans hfirst.kind
  times := hsecond.times.trans hfirst.times
  uid := by
    rcases hsecond.uid with hsame | hset
    · rw [hsame]
      exact hfirst.uid
    · exact Or.inr hset
  gid := by
    rcases hsecond.gid with hsame | hset
    · rw [hsame]
      exact hfirst.gid
    · exact Or.inr hset

end Attributes

/-! ## What the function does -/

/-- A file that is no link has a name at or below a place. -/
def Inside (tree : Tree) (place : Place) (n : Nat) : Prop :=
  ∃ other, place <+: other ∧ tree.number other = some n ∧
    ∀ target, (tree.inodes n).kind ≠ .link target

/-- The names stay, and only files inside are changed. -/
structure Permitted (uid gid : Int32) (place : Place) (before after : Tree) : Prop where
  number : after.number = before.number
  entries : after.entries = before.entries
  changed : ∀ n, MayHaveChanged uid gid (before.inodes n) (after.inodes n)
  outside : ∀ n, ¬Inside before place n → after.inodes n = before.inodes n

section Changes

variable {uid gid dirMode fileMode : Int32} {place : Place} {before middle after : Tree}

theorem Permitted.inside (hpermitted : Permitted uid gid place before after) (other : Place)
    (n : Nat) : Inside after other n ↔ Inside before other n := by
  simp only [Inside, hpermitted.number, (hpermitted.changed n).kind]

theorem Permitted.refl (uid gid : Int32) (place : Place) (tree : Tree) :
    Permitted uid gid place tree tree :=
  ⟨rfl, rfl, fun n => MayHaveChanged.refl uid gid (tree.inodes n), fun _ _ => rfl⟩

theorem Permitted.trans (hfirst : Permitted uid gid place before middle)
    (hsecond : Permitted uid gid place middle after) : Permitted uid gid place before after where
  number := hsecond.number.trans hfirst.number
  entries := hsecond.entries.trans hfirst.entries
  changed := fun n => (hfirst.changed n).trans (hsecond.changed n)
  outside := by
    intro n hn
    rw [hsecond.outside n (fun h => hn ((hfirst.inside place n).mp h)), hfirst.outside n hn]

theorem Inside.mono {tree : Tree} {lower : Place} {n : Nat} (hlower : place <+: lower)
    (hinside : Inside tree lower n) : Inside tree place n := by
  obtain ⟨other, hother, hn⟩ := hinside
  exact ⟨other, hlower.trans hother, hn⟩

theorem Permitted.mono {lower : Place} (hlower : place <+: lower)
    (hpermitted : Permitted uid gid lower before after) : Permitted uid gid place before after where
  number := hpermitted.number
  entries := hpermitted.entries
  changed := hpermitted.changed
  outside := fun n hn => hpermitted.outside n fun h => hn (h.mono hlower)

theorem Permitted.within (hpermitted : Permitted uid gid place before after) :
    Within after before := by
  intro other n hn
  rw [hpermitted.number] at hn
  exact ⟨hn, (hpermitted.changed n).kind.symm⟩

theorem Permitted.larger (hpermitted : Permitted uid gid place before after) :
    Within before after := by
  intro other n hn
  rw [hpermitted.number]
  exact ⟨hn, (hpermitted.changed n).kind⟩

end Changes

/-! ## The recursion -/

section Recursion

variable {system : System} {uid gid dirMode fileMode : Int32}

theorem Permitted.statOf {place : Place} {before after : Tree}
    (hpermitted : Permitted uid gid place before after) (other : Place) :
    DirUtil.statOf after other = DirUtil.statOf before other := by
  have hkind : after.kindAt other = before.kindAt other := by
    rw [FileTree.kindAt, FileTree.kindAt, hpermitted.number]
    exact Option.map_congr fun n _ => (hpermitted.changed n).kind
  rw [DirUtil.statOf, DirUtil.statOf, FileTree.isDirectory, FileTree.isDirectory, hkind]

end Recursion

end OpenRecovery.DirUtil
