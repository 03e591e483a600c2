import OpenRecovery.ConsoleSequences
import Mathlib

/-!
# Colour sequences

The parameters of a colour sequence are read as 32-bit numbers and looked up one by one, the
last of them that stands for a colour wins.  The look-up leaves out the last colour of either
half of the palette, which the theme file can set.
-/

namespace OpenRecovery.Terminal

open Effects Words

/-! ## The palette -/

/-- A property of a theme that changes a colour of the console text. -/
inductive ThemeProperty where
  | front (color : Color)
  | term (val : Int) (color : Color)

def Palette.setTerm (palette : Palette) (index : Int) (color : Color) : Palette :=
  { palette with term := fun i => if i = index.toNat then color else palette.term i }

/-- The console colours in `evaluate_property`, once the name and the value are parsed. -/
def Palette.evaluateProperty (palette : Palette) : ThemeProperty → Palette
  | .front color => { palette with front := color }
  | .term val color =>
      if 30 ≤ val ∧ val ≤ 37 then palette.setTerm (val - 30) color
      else if 90 ≤ val ∧ val ≤ 97 then palette.setTerm (val - 90 + 8) color
      else palette

/-- A code of one of the sixteen terminal colours. -/
def IsTermCode (code : Nat) : Prop :=
  30 ≤ code ∧ code ≤ 37 ∨ 90 ≤ code ∧ code ≤ 97

instance (code : Nat) : Decidable (IsTermCode code) := by
  unfold IsTermCode
  infer_instance

/-- The entries 0 to 7 and 8 to 15. -/
def termIndex (code : Nat) : Nat :=
  if code ≤ 37 then code - 30 else code - 90 + 8

def frontOf : ThemeProperty → Option Color
  | .front color => some color
  | .term _ _ => none

def termOf (code : Nat) : ThemeProperty → Option Color
  | .front _ => none
  | .term val color => if val = code then some color else none

/-- The front colour that was set last. -/
def lastFront (properties : List ThemeProperty) : Color :=
  (properties.reverse.findSome? frontOf).getD Palette.default.front

/-- The terminal colour that was set last. -/
def lastTerm (properties : List ThemeProperty) (code : Nat) : Color :=
  (properties.reverse.findSome? (termOf code)).getD (Palette.default.term (termIndex code))

/-- What a number stands for in a colour sequence. -/
def namedColor (properties : List ThemeProperty) (code : Nat) : Option Color :=
  if code = 0 ∨ code = 39 then some (lastFront properties)
  else if IsTermCode code then some (lastTerm properties code)
  else none

/-- The last number that stands for a colour selects it. -/
def selected (properties : List ThemeProperty) (color : Color) (codes : List Nat) : Color :=
  (codes.reverse.findSome? (namedColor properties)).getD color

section Themes

theorem evaluateProperty_front (palette : Palette) (val : Int) (color : Color) :
    (palette.evaluateProperty (.term val color)).front = palette.front := by
  rw [Palette.evaluateProperty]
  split_ifs <;> rfl

/-- Any number may stand behind the name of a terminal colour. -/
theorem evaluateProperty_term (palette : Palette) (val : Int) (color : Color) {code : Nat}
    (hcode : IsTermCode code) :
    (palette.evaluateProperty (.term val color)).term (termIndex code) =
      if val = code then color else palette.term (termIndex code) := by
  rw [Palette.evaluateProperty]
  unfold IsTermCode at hcode
  have hentry : ∀ index : Int, (palette.setTerm index color).term (termIndex code) =
      if termIndex code = index.toNat then color else palette.term (termIndex code) :=
    fun _ => rfl
  have hindex : (30 ≤ val ∧ val ≤ 37 → (termIndex code = (val - 30).toNat ↔ val = code)) ∧
      (90 ≤ val ∧ val ≤ 97 → (termIndex code = (val - 90 + 8).toNat ↔ val = code)) := by
    rw [termIndex]
    constructor
    · intro hval
      split <;> omega
    · intro hval
      split <;> omega
  by_cases hlow : 30 ≤ val ∧ val ≤ 37
  · rw [if_pos hlow, hentry]
    simp only [hindex.1 hlow]
  rw [if_neg hlow]
  by_cases hhigh : 90 ≤ val ∧ val ≤ 97
  · rw [if_pos hhigh, hentry]
    simp only [hindex.2 hhigh]
  rw [if_neg hhigh, if_neg (by omega)]

end Themes

/-! ## The look-up -/

section Colors

variable {properties : List ThemeProperty}

end Colors

/-! ## The sequence -/

section Parsing

end Parsing

/-! ## The colour of the next letter -/

section Letters

variable {size : ScreenDimensions} {properties : List ThemeProperty}

end Letters

end OpenRecovery.Terminal
