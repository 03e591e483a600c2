import OpenRecovery.FallibleRuns
import OpenRecovery.Menu
import Mathlib

/-!
# The stack of menus

`prompt_and_wait` keeps the files, scripts and selections of the menus that were entered one
from the other.  Entering a menu and going back load the menu of the new level, and both
remove that level again if this fails.
-/

namespace OpenRecovery.Menus

open Effects

/-! ## The loop -/

def maxMenuLevel : Nat := 50

/-- The results of `select_action`. -/
inductive ItemAction where
  | error
  | reboot
  | applySdcard
  | wipeData
  | wipeCache
  | tag
  | shellScript
  | newMenu
  | newMenuScripted
  | console
  deriving DecidableEq

def selectAction (action : Bytes) : ItemAction :=
  if action = ascii "reboot" then .reboot
  else if action = ascii "update" then .applySdcard
  else if action = ascii "wipe_data" then .wipeData
  else if action = ascii "wipe_cache" then .wipeCache
  else if action = ascii "tag" then .tag
  else if action = ascii "shell" then .shellScript
  else if action = ascii "menu" then .newMenu
  else if action = ascii "scripted_menu" then .newMenuScripted
  else if action = ascii "console" then .console
  else .error

/-- The variables of `prompt_and_wait` with the menu on display, and for the proofs the level
and the file it was loaded for. -/
structure PromptState where
  menuFiles : Nat → Option Bytes
  menuScripts : Nat → Option Bytes
  menuSel : Nat → Nat
  menuLevel : Nat
  override : Option Nat
  display : Menu
  shown : Option (Nat × Bytes)

/-- What a round of the loop gets from outside: the item that is chosen, the menu files that
can be opened when a menu is loaded (after its script has run), whether an update is confirmed,
whether a tag can be written, and whether the handler leaves the loop. -/
structure RoundInput where
  item : Nat
  env : MenuEnv
  files : Bytes → Option Bytes
  confirmed : Bool
  tagWritten : Bool
  leaves : Bool

inductive PromptEnd where
  | returned
  | nullPointer
  deriving DecidableEq

/-- `create_menu` for the current level, and whether it could open the file. -/
def loadLevel (state : PromptState) (input : RoundInput) : Except PromptEnd (PromptState × Bool) :=
  match state.menuFiles state.menuLevel with
  | none => .error .nullPointer
  | some file =>
      match input.files file with
      | none => .ok (state, false)
      | some data =>
          .ok ({ state with
            display := createMenu input.env data
            shown := some (state.menuLevel, file) }, true)

/-- The level is left. -/
def dropLevel (state : PromptState) : PromptState :=
  { state with
    menuFiles := Function.update state.menuFiles state.menuLevel none
    menuScripts := Function.update state.menuScripts state.menuLevel none
    menuLevel := state.menuLevel - 1 }

/-- Loads the menu of a new level and removes the level if that fails. -/
def loadNewLevel (state : PromptState) (input : RoundInput) : Except PromptEnd PromptState := do
  let (loaded, opened) ← loadLevel state input
  if ¬opened ∧ loaded.menuLevel ≠ 0 then .ok (dropLevel loaded) else .ok loaded

/-- The branch for `..`. -/
def leaveLevel (state : PromptState) : PromptState :=
  if state.menuLevel ≠ 0 then
    { dropLevel state with
      menuSel := Function.update state.menuSel state.menuLevel 0
      override := some (state.menuSel (state.menuLevel - 1)) }
  else state

def enterLevel (state : PromptState) (item : Nat) (file : Bytes) (script : Option Bytes) :
    PromptState :=
  { state with
    menuSel := Function.update state.menuSel state.menuLevel item
    menuLevel := state.menuLevel + 1
    menuFiles := Function.update state.menuFiles (state.menuLevel + 1) (some file)
    menuScripts := match script with
      | none => state.menuScripts
      | some script => Function.update state.menuScripts (state.menuLevel + 1) (some script) }

/-- The menu file and the script of a scripted menu. -/
def scriptedMenu (target : Bytes) : Option (Bytes × Option Bytes) :=
  (strtok isColon [] (target ++ [0])).map fun (file, _, rest) =>
    (file, if cString rest = [] then none else some (scriptTarget (cString rest)))

/-- The tag of an item is set or removed. -/
def toggleTag (items : List MenuItem) (index : Nat) (tagWritten : Bool) : List MenuItem :=
  items.modify index fun item =>
    if item.tag = 0 then
      if tagWritten then { item with tag := 1, text := item.text.set 1 88 } else item
    else if item.tag = 1 then { item with tag := 0, text := item.text.set 1 32 }
    else item

/-- The menu is loaded again, and the chosen item stays selected. -/
def reload (state : PromptState) (input : RoundInput) : Except PromptEnd PromptState := do
  let (loaded, _) ← loadLevel state input
  .ok { loaded with override := some input.item }

/-- A round of `prompt_and_wait` with an item. -/
def performItem (state : PromptState) (input : RoundInput) (item : MenuItem) :
    Except PromptEnd PromptState :=
  match selectAction item.action with
  | .reboot => .error .returned
  | .wipeData => if input.leaves then .error .returned else .ok state
  | .wipeCache => if input.leaves then .error .returned else .ok state
  | .applySdcard =>
      if input.confirmed then
        if input.leaves then .error .returned else reload state input
      else .ok { state with override := some input.item }
  | .shellScript => reload state input
  | .tag =>
      .ok { state with
        display := { state.display with
          items := toggleTag state.display.items input.item input.tagWritten }
        override := some input.item }
  | .newMenu =>
      if state.menuLevel + 1 ≥ maxMenuLevel then .ok state
      else
        match item.target with
        | none => .error .nullPointer
        | some target =>
            if target = ascii ".." then loadNewLevel (leaveLevel state) input
            else loadNewLevel (enterLevel state input.item target none) input
  | .newMenuScripted =>
      if state.menuLevel + 1 ≥ maxMenuLevel then .ok state
      else
        match item.target with
        | none => .error .nullPointer
        | some target =>
            match scriptedMenu target with
            | none => .ok state
            | some (file, script) => loadNewLevel (enterLevel state input.item file script) input
  | .console => reload state input
  | .error => .ok state

/-- A round of `prompt_and_wait`; the initial selection is used up by the selection. -/
def promptStep (state : PromptState) (input : RoundInput) : Except PromptEnd PromptState :=
  match state.display.items[input.item]? with
  | none => .error .nullPointer
  | some item => performItem { state with override := none } input item

/-- The variables before the main menu is loaded. -/
def promptInitial : PromptState where
  menuFiles := Function.update (fun _ => none) 0 (some (ascii "init.menu"))
  menuScripts := fun _ => none
  menuSel := fun _ => 0
  menuLevel := 0
  override := none
  display := ⟨[], []⟩
  shown := none

/-- `prompt_and_wait` up to its loop. -/
def promptStart (input : RoundInput) : Except PromptEnd PromptState := do
  let (loaded, _) ← loadLevel promptInitial input
  .ok loaded

/-! ## Consistency -/

/-- The files are those of the levels in use, and the menu on display was loaded for the
current level, if any menu was loaded at all. -/
structure StackConsistent (state : PromptState) : Prop where
  level_lt : state.menuLevel < maxMenuLevel
  files : ∀ level, state.menuFiles level ≠ none ↔ level ≤ state.menuLevel
  scripts : ∀ level, state.menuLevel < level → state.menuScripts level = none
  shown : state.shown = none ∨
    ∃ file, state.menuFiles state.menuLevel = some file ∧ state.shown = some (state.menuLevel, file)

/-- The menu file that an item enters. -/
def enteredFile (item : MenuItem) : Option Bytes :=
  match selectAction item.action with
  | .newMenu => item.target.filter (· ≠ ascii "..")
  | .newMenuScripted => (item.target.bind scriptedMenu).map fun entered => entered.1
  | _ => none

/-- The item goes back to the menu before. -/
def GoesBack (item : MenuItem) : Prop :=
  selectAction item.action = .newMenu ∧ item.target = some (ascii "..")

instance (item : MenuItem) : Decidable (GoesBack item) := by
  unfold GoesBack
  infer_instance

/-- What entering a menu and going back shall do, in a round with an item. -/
structure ItemConsistent (before : PromptState) (input : RoundInput) (item : MenuItem)
    (after : PromptState) : Prop where
  entering : ∀ file, enteredFile item = some file → input.files file = none →
    after.menuLevel = before.menuLevel ∧ after.display = before.display
  goingBack : GoesBack item → 0 < before.menuLevel → ∀ parent data,
    before.menuFiles (before.menuLevel - 1) = some parent → input.files parent = some data →
      after.menuLevel = before.menuLevel - 1 ∧ after.display = createMenu input.env data ∧
        after.override = some (before.menuSel (before.menuLevel - 1))
  parentMissing : GoesBack item → 0 < before.menuLevel → ∀ parent,
    before.menuFiles (before.menuLevel - 1) = some parent → input.files parent = none →
      after.menuLevel = before.menuLevel ∧ after.display = before.display

def RoundConsistent (before : PromptState) (input : RoundInput) (after : PromptState) : Prop :=
  ∀ item ∈ before.display.items[input.item]?, ItemConsistent before input item after

/-- Going back finds the menu before, except at the last level, where it must not. -/
def ParentFound (state : PromptState) (input : RoundInput) : Prop :=
  ∀ item ∈ state.display.items[input.item]?, GoesBack item → 0 < state.menuLevel →
    ∀ parent ∈ state.menuFiles (state.menuLevel - 1),
      (input.files parent).isSome ↔ state.menuLevel + 1 < maxMenuLevel

instance (state : PromptState) (input : RoundInput) : Decidable (ParentFound state input) := by
  unfold ParentFound
  infer_instance

section Consistency

variable {state after : PromptState} {input : RoundInput}

/-- Loading a level changes at most what is on display. -/
theorem loadLevel_cases (input : RoundInput) {file : Bytes} (hfile : state.menuFiles state.menuLevel = some file) :
    input.files file = none ∧ loadLevel state input = .ok (state, false) ∨
      ∃ data, input.files file = some data ∧
        loadLevel state input = .ok ({ state with
          display := createMenu input.env data
          shown := some (state.menuLevel, file) }, true) := by
  rw [loadLevel, hfile]
  cases hdata : input.files file with
  | none => exact .inl ⟨rfl, by simp only [hdata]⟩
  | some data => exact .inr ⟨data, rfl, by simp only [hdata]⟩

/-- What is on display for the level that is loaded. -/
theorem loadLevel_consistent {opened : Bool} (hstate : StackConsistent state)
    (hload : loadLevel state input = .ok (after, opened)) :
    StackConsistent after ∧ after.menuLevel = state.menuLevel := by
  have hsome : state.menuFiles state.menuLevel ≠ none := (hstate.files _).mpr (Nat.le_refl _)
  obtain ⟨file, hfile⟩ := Option.ne_none_iff_exists'.mp hsome
  rcases loadLevel_cases input hfile with ⟨-, hnone⟩ | ⟨data, -, hdata⟩
  · rw [hnone] at hload
    cases hload
    exact ⟨hstate, rfl⟩
  · rw [hdata] at hload
    cases hload
    exact ⟨⟨hstate.level_lt, hstate.files, hstate.scripts, .inr ⟨file, hfile, rfl⟩⟩, rfl⟩

theorem reload_consistent (hstate : StackConsistent state)
    (hreload : reload state input = .ok after) : StackConsistent after := by
  rw [reload] at hreload
  cases hload : loadLevel state input with
  | error reason =>
      rw [hload] at hreload
      cases hreload
  | ok loaded =>
      rw [hload] at hreload
      cases hreload
      have hloaded := (loadLevel_consistent hstate hload).1
      exact ⟨hloaded.level_lt, hloaded.files, hloaded.scripts, hloaded.shown⟩

theorem loadNewLevel_failed {loaded : PromptState}
    (hload : loadLevel state input = .ok (loaded, false)) (hlevel : loaded.menuLevel ≠ 0) :
    loadNewLevel state input = .ok (dropLevel loaded) := by
  rw [loadNewLevel, hload]
  exact if_pos ⟨Bool.false_ne_true, hlevel⟩

/-- Entering a menu leaves a consistent stack, and changes nothing on display if it fails. -/
theorem enterLevel_consistent (hstate : StackConsistent state)
    (hroom : state.menuLevel + 1 < maxMenuLevel) {item : Nat} {file : Bytes}
    {script : Option Bytes}
    (hload : loadNewLevel (enterLevel state item file script) input = .ok after) :
    StackConsistent after ∧ (input.files file = none →
      after.menuLevel = state.menuLevel ∧ after.display = state.display) := by
  have hfile : (enterLevel state item file script).menuFiles
      (enterLevel state item file script).menuLevel = some file :=
    Function.update_self ..
  have hfiles : ∀ level, (enterLevel state item file script).menuFiles level ≠ none ↔
      level ≤ state.menuLevel + 1 := by
    intro level
    change Function.update state.menuFiles (state.menuLevel + 1) (some file) level ≠ none ↔ _
    by_cases hlevel : level = state.menuLevel + 1
    · rw [hlevel, Function.update_self]
      exact iff_of_true (Option.some_ne_none _) (Nat.le_refl _)
    · rw [Function.update_of_ne hlevel, hstate.files]
      omega
  have hscripts : ∀ level, state.menuLevel + 1 < level →
      (enterLevel state item file script).menuScripts level = none := by
    intro level hlevel
    cases script with
    | none => exact hstate.scripts level (by omega)
    | some script =>
        change Function.update state.menuScripts (state.menuLevel + 1) (some script) level = none
        rw [Function.update_of_ne (by omega)]
        exact hstate.scripts level (by omega)
  rcases loadLevel_cases input hfile with ⟨hmissing, hnone⟩ | ⟨data, hfound, hdata⟩
  · rw [loadNewLevel_failed hnone (Nat.succ_ne_zero _)] at hload
    cases hload
    refine ⟨⟨hstate.level_lt, ?_, ?_, ?_⟩, fun _ => ⟨rfl, rfl⟩⟩
    · intro level
      change Function.update (enterLevel state item file script).menuFiles (state.menuLevel + 1)
        none level ≠ none ↔ level ≤ state.menuLevel
      by_cases hlevel : level = state.menuLevel + 1
      · rw [hlevel, Function.update_self]
        exact iff_of_false (fun h => h rfl) (by omega)
      · rw [Function.update_of_ne hlevel, hfiles]
        omega
    · intro level hlevel
      change Function.update (enterLevel state item file script).menuScripts
        (state.menuLevel + 1) none level = none
      by_cases hnext : level = state.menuLevel + 1
      · rw [hnext, Function.update_self]
      · rw [Function.update_of_ne hnext]
        exact hscripts level (by change state.menuLevel < level at hlevel; omega)
    · rcases hstate.shown with hfresh | ⟨shown, hshown, hdisplay⟩
      · exact .inl hfresh
      · refine .inr ⟨shown, ?_, hdisplay⟩
        change Function.update (Function.update state.menuFiles (state.menuLevel + 1) (some file))
          (state.menuLevel + 1) none state.menuLevel = some shown
        rw [Function.update_of_ne (by omega), Function.update_of_ne (by omega)]
        exact hshown
  · rw [loadNewLevel, hdata] at hload
    cases hload
    refine ⟨⟨hroom, hfiles, hscripts, .inr ⟨file, hfile, rfl⟩⟩, fun hmissing => ?_⟩
    rw [hmissing] at hfound
    cases hfound

/-- Going back to a menu that is there. -/
theorem leaveLevel_consistent (hstate : StackConsistent state) (hlevel : 0 < state.menuLevel)
    {parent data : Bytes} (hparent : state.menuFiles (state.menuLevel - 1) = some parent)
    (hdata : input.files parent = some data)
    (hload : loadNewLevel (leaveLevel state) input = .ok after) :
    StackConsistent after ∧ after.menuLevel = state.menuLevel - 1 ∧
      after.display = createMenu input.env data ∧
      after.override = some (state.menuSel (state.menuLevel - 1)) := by
  have hleave : leaveLevel state = { dropLevel state with
      menuSel := Function.update state.menuSel state.menuLevel 0
      override := some (state.menuSel (state.menuLevel - 1)) } := if_pos (by omega)
  have hfile : (leaveLevel state).menuFiles (leaveLevel state).menuLevel = some parent := by
    rw [hleave]
    change Function.update state.menuFiles state.menuLevel none (state.menuLevel - 1) = some parent
    rw [Function.update_of_ne (by omega)]
    exact hparent
  rw [loadNewLevel] at hload
  rcases loadLevel_cases input hfile with ⟨hmissing, -⟩ | ⟨other, hfound, hopened⟩
  · rw [hdata] at hmissing
    cases hmissing
  · obtain rfl : data = other := Option.some.inj (hdata.symm.trans hfound)
    rw [hopened] at hload
    cases hload
    rw [hleave] at hfile ⊢
    refine ⟨⟨?_, ?_, ?_, .inr ⟨parent, hfile, rfl⟩⟩, rfl, rfl, rfl⟩
    · have hlt := hstate.level_lt
      change state.menuLevel - 1 < maxMenuLevel
      omega
    · intro level
      change Function.update state.menuFiles state.menuLevel none level ≠ none ↔
        level ≤ state.menuLevel - 1
      by_cases hsame : level = state.menuLevel
      · rw [hsame, Function.update_self]
        exact iff_of_false (fun h => h rfl) (by omega)
      · rw [Function.update_of_ne hsame, hstate.files]
        omega
    · intro level hbelow
      change Function.update state.menuScripts state.menuLevel none level = none
      by_cases hsame : level = state.menuLevel
      · rw [hsame, Function.update_self]
      · rw [Function.update_of_ne hsame]
        exact hstate.scripts level (by change state.menuLevel - 1 < level at hbelow; omega)

/-- At the main menu the item only loads the menu again. -/
theorem leaveLevel_main (hstate : StackConsistent state) (hlevel : state.menuLevel = 0)
    (hload : loadNewLevel (leaveLevel state) input = .ok after) : StackConsistent after := by
  have hstay : leaveLevel state = state := if_neg (by omega)
  rw [loadNewLevel, hstay] at hload
  cases hopened : loadLevel state input with
  | error reason =>
      rw [hopened] at hload
      cases hload
  | ok loaded =>
      obtain ⟨hloaded, hsame⟩ := loadLevel_consistent hstate hopened
      rw [hopened] at hload
      have hafter : after = loaded.1 :=
        (Except.ok.inj ((if_neg fun h => h.2 (hsame.trans hlevel)).symm.trans hload)).symm
      rw [hafter]
      exact hloaded

/-- An item of another kind neither enters a menu nor goes back. -/
theorem itemConsistent_of_action {item : MenuItem} {action : ItemAction}
    (haction : selectAction item.action = action) (hmenu : action ≠ .newMenu)
    (hscripted : action ≠ .newMenuScripted) : ItemConsistent state input item after where
  entering := by
    intro file hfile
    rw [enteredFile, haction] at hfile
    cases action with
    | newMenu => exact absurd rfl hmenu
    | newMenuScripted => exact absurd rfl hscripted
    | _ => cases hfile
  goingBack := fun hback => absurd (haction.symm.trans hback.1) hmenu
  parentMissing := fun hback => absurd (haction.symm.trans hback.1) hmenu

/-- What a round does with its item. -/
theorem performItem_consistent (hstate : StackConsistent state) {item : MenuItem}
    (hfound : GoesBack item → 0 < state.menuLevel →
      ∀ parent ∈ state.menuFiles (state.menuLevel - 1),
        (input.files parent).isSome ↔ state.menuLevel + 1 < maxMenuLevel)
    (hstep : performItem state input item = .ok after) :
    StackConsistent after ∧ ItemConsistent state input item after := by
  rw [performItem] at hstep
  cases haction : selectAction item.action with
  | reboot =>
      rw [haction] at hstep
      cases hstep
  | error =>
      rw [haction] at hstep
      cases hstep
      exact ⟨hstate, itemConsistent_of_action haction nofun nofun⟩
  | wipeData =>
      rw [haction] at hstep
      dsimp only at hstep
      split_ifs at hstep
      cases hstep
      exact ⟨hstate, itemConsistent_of_action haction nofun nofun⟩
  | wipeCache =>
      rw [haction] at hstep
      dsimp only at hstep
      split_ifs at hstep
      cases hstep
      exact ⟨hstate, itemConsistent_of_action haction nofun nofun⟩
  | applySdcard =>
      rw [haction] at hstep
      dsimp only at hstep
      split_ifs at hstep
      · exact ⟨reload_consistent hstate hstep, itemConsistent_of_action haction nofun nofun⟩
      · cases hstep
        exact ⟨⟨hstate.level_lt, hstate.files, hstate.scripts, hstate.shown⟩,
          itemConsistent_of_action haction nofun nofun⟩
  | tag =>
      rw [haction] at hstep
      cases hstep
      exact ⟨⟨hstate.level_lt, hstate.files, hstate.scripts, hstate.shown⟩,
          itemConsistent_of_action haction nofun nofun⟩
  | shellScript =>
      rw [haction] at hstep
      exact ⟨reload_consistent hstate hstep, itemConsistent_of_action haction nofun nofun⟩
  | console =>
      rw [haction] at hstep
      exact ⟨reload_consistent hstate hstep, itemConsistent_of_action haction nofun nofun⟩
  | newMenu =>
      rw [haction] at hstep
      dsimp only at hstep
      by_cases hlast : state.menuLevel + 1 ≥ maxMenuLevel
      · rw [if_pos hlast] at hstep
        cases hstep
        refine ⟨hstate, fun _ _ _ => ⟨rfl, rfl⟩, fun hback hlevel parent data hparent hdata => ?_,
          fun _ _ _ _ _ => ⟨rfl, rfl⟩⟩
        have hbelow := (hfound hback hlevel parent hparent).mp (by rw [hdata]; rfl)
        omega
      · rw [if_neg hlast] at hstep
        cases htarget : item.target with
        | none =>
            rw [htarget] at hstep
            cases hstep
        | some target =>
            rw [htarget] at hstep
            dsimp only at hstep
            by_cases hback : target = ascii ".."
            · rw [if_pos hback] at hstep
              have hentered : enteredFile item = none := by
                rw [enteredFile, haction, htarget, hback]
                rfl
              have hopens : ∀ parent, 0 < state.menuLevel →
                  state.menuFiles (state.menuLevel - 1) = some parent →
                    ∃ data, input.files parent = some data := by
                intro parent hlevel hparent
                have hsome := (hfound ⟨haction, by rw [htarget, hback]⟩ hlevel parent
                  hparent).mpr (by omega)
                exact Option.isSome_iff_exists.mp hsome
              refine ⟨?_, fun file hfile => ?_, fun _ hlevel parent data hparent hdata => ?_,
                fun _ hlevel parent hparent hmissing => ?_⟩
              · by_cases hmain : state.menuLevel = 0
                · exact leaveLevel_main hstate hmain hstep
                · have hsome := (hstate.files (state.menuLevel - 1)).mpr (Nat.sub_le _ _)
                  obtain ⟨parent, hparent⟩ := Option.ne_none_iff_exists'.mp hsome
                  obtain ⟨data, hdata⟩ := hopens parent (by omega) hparent
                  exact (leaveLevel_consistent hstate (by omega) hparent hdata hstep).1
              · rw [hentered] at hfile
                cases hfile
              · exact (leaveLevel_consistent hstate hlevel hparent hdata hstep).2
              · obtain ⟨data, hdata⟩ := hopens parent hlevel hparent
                rw [hmissing] at hdata
                cases hdata
            · rw [if_neg hback] at hstep
              obtain ⟨hafter, hfails⟩ := enterLevel_consistent hstate (by omega) hstep
              have hnotBack : ¬ GoesBack item := by
                rw [GoesBack, htarget]
                exact fun hgoes => hback (Option.some.inj hgoes.2)
              refine ⟨hafter, fun file hfile hmissing => ?_, fun hgoes => absurd hgoes hnotBack,
                fun hgoes => absurd hgoes hnotBack⟩
              rw [enteredFile, haction, htarget] at hfile
              obtain rfl := Option.some.inj (Option.filter_eq_some_iff.mp hfile).1
              exact hfails hmissing
  | newMenuScripted =>
      rw [haction] at hstep
      dsimp only at hstep
      have hnotBack : ¬ GoesBack item := fun hback => nomatch haction.symm.trans hback.1
      by_cases hlast : state.menuLevel + 1 ≥ maxMenuLevel
      · rw [if_pos hlast] at hstep
        cases hstep
        exact ⟨hstate, fun _ _ _ => ⟨rfl, rfl⟩, fun hback => absurd hback hnotBack,
          fun hback => absurd hback hnotBack⟩
      · rw [if_neg hlast] at hstep
        cases htarget : item.target with
        | none =>
            rw [htarget] at hstep
            cases hstep
        | some target =>
            rw [htarget] at hstep
            dsimp only at hstep
            cases hscripted : scriptedMenu target with
            | none =>
                rw [hscripted] at hstep
                cases hstep
                exact ⟨hstate, fun _ _ _ => ⟨rfl, rfl⟩, fun hback => absurd hback hnotBack,
          fun hback => absurd hback hnotBack⟩
            | some entered =>
                rw [hscripted] at hstep
                obtain ⟨hafter, hfails⟩ := enterLevel_consistent hstate (by omega) hstep
                refine ⟨hafter, fun file hfile hmissing => ?_, fun hback => absurd hback hnotBack,
                  fun hback => absurd hback hnotBack⟩
                rw [enteredFile, haction, htarget, Option.bind_some, hscripted] at hfile
                cases hfile
                exact hfails hmissing

/-- A round keeps the stack consistent. -/
theorem promptStep_consistent (hstate : StackConsistent state) (hfound : ParentFound state input)
    (hstep : promptStep state input = .ok after) :
    StackConsistent after ∧ RoundConsistent state input after := by
  rw [promptStep] at hstep
  cases hitem : state.display.items[input.item]? with
  | none =>
      rw [hitem] at hstep
      cases hstep
  | some item =>
      rw [hitem] at hstep
      have hready : StackConsistent { state with override := none } :=
        ⟨hstate.level_lt, hstate.files, hstate.scripts, hstate.shown⟩
      obtain ⟨hafter, hconsistent⟩ := performItem_consistent hready (hfound item hitem) hstep
      refine ⟨hafter, fun other hother => ?_⟩
      obtain rfl : item = other := Option.some.inj (hitem.symm.trans hother)
      exact ⟨hconsistent.entering, hconsistent.goingBack, hconsistent.parentMissing⟩

theorem promptStart_consistent (hstart : promptStart input = .ok state) :
    StackConsistent state := by
  have hinitial : StackConsistent promptInitial := by
    refine ⟨show 0 < maxMenuLevel by decide, fun level => ?_, fun _ _ => rfl, .inl rfl⟩
    change Function.update (fun _ => none) 0 (some (ascii "init.menu")) level ≠ none ↔ level ≤ 0
    by_cases hlevel : level = 0
    · rw [hlevel, Function.update_self]
      exact iff_of_true (Option.some_ne_none _) (Nat.le_refl _)
    · rw [Function.update_of_ne hlevel]
      exact iff_of_false (fun h => h rfl) (by omega)
  rw [promptStart] at hstart
  cases hload : loadLevel promptInitial input with
  | error reason =>
      rw [hload] at hstart
      cases hstart
  | ok loaded =>
      rw [hload] at hstart
      cases hstart
      exact (loadLevel_consistent hinitial hload).1

/-- In every run that finds the menu before whenever it goes back, the stack is consistent in
all states and entering and going back do what they shall. -/
theorem prompt_consistent {start : RoundInput} {first : PromptState}
    (hstart : promptStart start = .ok first) {rounds : List RoundInput}
    (hfound : ∀ taken ∈ performed promptStep first rounds, ParentFound taken.1 taken.2) :
    (∀ taken ∈ performed promptStep first rounds, StackConsistent taken.1 ∧
      ∀ after, promptStep taken.1 taken.2 = .ok after →
        RoundConsistent taken.1 taken.2 after) ∧
    ∀ last, rounds.foldlM promptStep first = .ok last → StackConsistent last := by
  obtain ⟨hall, hlast⟩ := run_keeps
    (fun _ _ _ hstate hparent hstep => (promptStep_consistent hstate hparent hstep).1)
    (promptStart_consistent hstart) hfound
  refine ⟨fun taken htaken => ⟨hall taken htaken, fun after hstep => ?_⟩, hlast⟩
  exact (promptStep_consistent (hall taken htaken) (hfound taken htaken) hstep).2

end Consistency

/-- A round with the first item and some menu files. -/
def firstItem (files : Bytes → Option Bytes) : RoundInput where
  item := 0
  env := ⟨fun _ => false, 48⟩
  files := files
  confirmed := false
  tagWritten := false
  leaves := false

/-- A main menu with one entry for another menu. -/
def twoMenus (file : Bytes) : Option Bytes :=
  if file = ascii "init.menu" then some (ascii "Main\nFiles:menu:files.menu\n")
  else if file = ascii "files.menu" then some (ascii "Files\nBack:menu:..\n")
  else none

/-- The main menu has gone when the menu entered from it is left. -/
theorem goingBack_loses_level :
    ((promptStart (firstItem twoMenus) >>= fun first =>
      [firstItem twoMenus].foldlM promptStep first).map fun state =>
        (state.menuLevel, state.shown)).toOption = some (1, some (1, ascii "files.menu")) ∧
    ((promptStart (firstItem twoMenus) >>= fun first =>
      [firstItem twoMenus, firstItem fun _ => none].foldlM promptStep first).map fun state =>
        (state.menuLevel, state.shown)).toOption = some (0, some (1, ascii "files.menu")) := by
  decide

theorem prompt_consistent_twoMenus :
    ∃ first, promptStart (firstItem twoMenus) = .ok first ∧
      (∀ taken ∈ performed promptStep first [firstItem twoMenus, firstItem twoMenus],
        StackConsistent taken.1 ∧ ∀ after, promptStep taken.1 taken.2 = .ok after →
          RoundConsistent taken.1 taken.2 after) ∧
      ∀ last, [firstItem twoMenus, firstItem twoMenus].foldlM promptStep first = .ok last →
        StackConsistent last :=
  ⟨_, rfl, prompt_consistent (show promptStart (firstItem twoMenus) = _ from rfl)
    (forall_mem_of_all (by decide))⟩

end OpenRecovery.Menus
