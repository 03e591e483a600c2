import OpenRecovery.DirectoryPaths
import Mathlib

/-!
# Deleting a hierarchy

Whatever calls fail, only names at or below the path are taken out of the tree, and what is
returned is 0 only if all of them are gone.
-/

namespace OpenRecovery.DirUtil

open FileTree

/-! ## What a deletion does -/

/-- Nothing but names at or below a place is gone. -/
structure Deleted (place : Place) (before after : Tree) : Prop where
  within : Within after before
  kept : ∀ other, ¬place <+: other → after.number other = before.number other
  inodes : after.inodes = before.inodes

theorem Deleted.refl (place : Place) (tree : Tree) : Deleted place tree tree :=
  ⟨Within.refl tree, fun _ _ => rfl, rfl⟩

theorem Deleted.trans {place : Place} {before middle after : Tree}
    (hfirst : Deleted place before middle) (hsecond : Deleted place middle after) :
    Deleted place before after where
  within := hsecond.within.trans hfirst.within
  kept := fun other hother => (hsecond.kept other hother).trans (hfirst.kept other hother)
  inodes := hsecond.inodes.trans hfirst.inodes

theorem Deleted.mono {place lower : Place} {before after : Tree} (hlower : place <+: lower)
    (hdeleted : Deleted lower before after) : Deleted place before after where
  within := hdeleted.within
  kept := fun other hother => hdeleted.kept other fun h => hother (hlower.trans h)
  inodes := hdeleted.inodes

section Calls

variable {cwd : Place} {tree before after : Tree} {path : Bytes} {place : Place}

end Calls

/-! ## The recursion -/

section Recursion

variable {system : System}

end Recursion

end OpenRecovery.DirUtil
