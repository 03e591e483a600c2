import OpenRecovery.ConsoleWindow
import Mathlib

/-!
# Console output in pieces

Printing looks at the top row and at the two counters of the window only in the cursor
sequences.  Two screens that differ in nothing else stay so through all other actions, which
settles when a text may be cut in two and when the window may be scrolled between prints.
-/

namespace OpenRecovery.Terminal

open Effects Words

/-! ## Other counters -/

def Screen.withCounters (screen : Screen) (top onText reserve : Int) : Screen :=
  { screen with
    topRow := top
    forceTopRowOnText := onText
    forceTopRowReserve := reserve }

section Counters

variable {size : ScreenDimensions} {palette : Palette} {screen : Screen}

theorem withCounters_self :
    screen.withCounters screen.topRow screen.forceTopRowOnText screen.forceTopRowReserve = screen :=
  rfl

/-- Filling cells looks at no counter. -/
theorem fillCells_withCounters
    (row first stop : Int) (color : Option Color) (top onText reserve : Int) :
    fillCells size (screen.withCounters top onText reserve) row first stop color =
      (fillCells size screen row first stop color).map fun next =>
        next.withCounters top onText reserve := by
  rw [fillCells, fillCells]
  by_cases hempty : first < stop
  · rw [if_pos hempty, if_pos hempty]
    by_cases hin : InConsole size row first ∧ InConsole size row (stop - 1)
    · rw [if_pos hin, if_pos hin]
      rfl
    · rw [if_neg hin, if_neg hin]
      rfl
  · rw [if_neg hempty, if_neg hempty]
    rfl

theorem fillCells_counters
    {row first stop : Int} {color : Option Color} {next : Screen}
    (hnext : fillCells size screen row first stop color = .ok next) :
    next.topRow = screen.topRow ∧ next.forceTopRowOnText = screen.forceTopRowOnText ∧
      next.forceTopRowReserve = screen.forceTopRowReserve := by
  rw [fillCells] at hnext
  split_ifs at hnext <;> cases hnext <;> exact ⟨rfl, rfl, rfl⟩

/-- A letter looks at no counter and counts at most one row. -/
theorem putLetter_withCounters (size : ScreenDimensions) (screen : Screen) (c : UInt8) :
    ∃ rows : Int, 0 ≤ rows ∧
      (∀ top onText reserve, putLetter size (screen.withCounters top onText reserve) c =
        (putLetter size screen c).map fun next =>
          next.withCounters top onText (reserve + rows)) ∧
      ∀ next, putLetter size screen c = .ok next →
        next.topRow = screen.topRow ∧ next.forceTopRowOnText = screen.forceTopRowOnText ∧
          next.forceTopRowReserve = screen.forceTopRowReserve + rows := by
  have hsame : ∀ outcome : Except Fault Screen,
      (∀ top onText reserve, putLetter size (screen.withCounters top onText reserve) c =
        outcome.map fun next => next.withCounters top onText reserve) →
      putLetter size screen c = outcome →
      (∀ next, outcome = .ok next → next.topRow = screen.topRow ∧
        next.forceTopRowOnText = screen.forceTopRowOnText ∧
        next.forceTopRowReserve = screen.forceTopRowReserve) →
      ∃ rows : Int, 0 ≤ rows ∧
        (∀ top onText reserve, putLetter size (screen.withCounters top onText reserve) c =
          (putLetter size screen c).map fun next =>
            next.withCounters top onText (reserve + rows)) ∧
        ∀ next, putLetter size screen c = .ok next →
          next.topRow = screen.topRow ∧ next.forceTopRowOnText = screen.forceTopRowOnText ∧
            next.forceTopRowReserve = screen.forceTopRowReserve + rows := by
    intro outcome hother houtcome hcounters
    refine ⟨0, Int.le_refl 0, fun top onText reserve => ?_, fun next hnext => ?_⟩
    · rw [hother, houtcome, Int.add_zero]
    · rw [Int.add_zero]
      exact hcounters next (houtcome.symm.trans hnext)
  by_cases hnewline : c = newline
  · have hvalue : ∀ other : Screen, putLetter size other c = .ok other.nextRow :=
      fun other => if_pos hnewline
    refine ⟨1, by decide, fun top onText reserve => ?_, fun next hnext => ?_⟩
    · rw [hvalue, hvalue]
      rfl
    · rw [hvalue] at hnext
      cases hnext
      exact ⟨rfl, rfl, rfl⟩
  by_cases hreturn : c = carriageReturn
  · have hvalue : ∀ other : Screen, putLetter size other c = .ok { other with curColumn := 0 } :=
      fun other => (if_neg hnewline).trans (if_pos hreturn)
    refine hsame _ (fun top onText reserve => hvalue _) (hvalue screen) fun next hnext => ?_
    cases hnext
    exact ⟨rfl, rfl, rfl⟩
  by_cases htab : c = tab
  · by_cases hlast : screen.curColumn + (5 - screen.curColumn.tmod 5) ≥ size.columns - 2
    · have hvalue : ∀ top onText reserve,
          putLetter size (screen.withCounters top onText reserve) c =
            (fillCells size (screen.withCounters top onText reserve) screen.curRow screen.curColumn
              (size.columns - 1) none).map fun filled =>
                ({ filled with curColumn := 0 } : Screen).nextRow := by
        intro top onText reserve
        rw [putLetter, if_neg hnewline, if_neg hreturn, if_pos htab]
        refine (if_pos hlast).trans ?_
        change (fillCells size (screen.withCounters top onText reserve) screen.curRow
          screen.curColumn (size.columns - 1) none >>= _) = _
        cases fillCells size (screen.withCounters top onText reserve) screen.curRow screen.curColumn
          (size.columns - 1) none <;> rfl
      have hself := hvalue screen.topRow screen.forceTopRowOnText screen.forceTopRowReserve
      rw [withCounters_self] at hself
      refine ⟨1, by decide, fun top onText reserve => ?_, fun next hnext => ?_⟩
      · rw [hvalue, hself, fillCells_withCounters]
        cases fillCells size screen screen.curRow screen.curColumn (size.columns - 1) none <;> rfl
      · rw [hself] at hnext
        cases hfilled : fillCells size screen screen.curRow screen.curColumn (size.columns - 1)
          none with
        | error fault =>
            rw [hfilled] at hnext
            cases hnext
        | ok filled =>
            rw [hfilled] at hnext
            cases hnext
            obtain ⟨htop, htext, hreserve⟩ := fillCells_counters hfilled
            exact ⟨htop, htext, congrArg (· + 1) hreserve⟩
    · have hvalue : ∀ top onText reserve,
          putLetter size (screen.withCounters top onText reserve) c =
            (fillCells size (screen.withCounters top onText reserve) screen.curRow screen.curColumn
              (screen.curColumn + (5 - screen.curColumn.tmod 5)) none).map fun filled =>
                { filled with curColumn := screen.curColumn + (5 - screen.curColumn.tmod 5) } := by
        intro top onText reserve
        rw [putLetter, if_neg hnewline, if_neg hreturn, if_pos htab]
        refine (if_neg hlast).trans ?_
        change (fillCells size (screen.withCounters top onText reserve) screen.curRow
          screen.curColumn (screen.curColumn + (5 - screen.curColumn.tmod 5)) none >>= _) = _
        cases fillCells size (screen.withCounters top onText reserve) screen.curRow screen.curColumn
          (screen.curColumn + (5 - screen.curColumn.tmod 5)) none <;> rfl
      have hself := hvalue screen.topRow screen.forceTopRowOnText screen.forceTopRowReserve
      rw [withCounters_self] at hself
      refine hsame _ (fun top onText reserve => ?_) hself fun next hnext => ?_
      · rw [hvalue, fillCells_withCounters]
        cases fillCells size screen screen.curRow screen.curColumn
          (screen.curColumn + (5 - screen.curColumn.tmod 5)) none <;> rfl
      · cases hfilled : fillCells size screen screen.curRow screen.curColumn
          (screen.curColumn + (5 - screen.curColumn.tmod 5)) none with
        | error fault =>
            rw [hfilled] at hnext
            cases hnext
        | ok filled =>
            rw [hfilled] at hnext
            cases hnext
            obtain ⟨htop, htext, hreserve⟩ := fillCells_counters hfilled
            exact ⟨htop, htext, hreserve⟩
  by_cases hback : c = backspace
  · have hvalue : ∀ other : Screen, putLetter size other c =
        if other.curColumn = 0 then
          if other.curRow = 0 then .ok other
          else .ok { other with curColumn := size.columns - 2, curRow := other.curRow - 1 }
        else .ok { other with curColumn := other.curColumn - 1 } :=
      fun other => (if_neg hnewline).trans ((if_neg hreturn).trans ((if_neg htab).trans
        (if_pos hback)))
    refine hsame _ (fun top onText reserve => ?_) (hvalue screen) fun next hnext => ?_
    · rw [hvalue]
      by_cases hzero : screen.curColumn = 0
      · by_cases hfirst : screen.curRow = 0
        · rw [if_pos hzero, if_pos hfirst]
          exact (if_pos hzero).trans (if_pos hfirst)
        · rw [if_pos hzero, if_neg hfirst]
          exact (if_pos hzero).trans (if_neg hfirst)
      · rw [if_neg hzero]
        exact if_neg hzero
    · split_ifs at hnext <;> cases hnext <;> exact ⟨rfl, rfl, rfl⟩
  by_cases hbell : c = bell
  · have hvalue : ∀ other : Screen, putLetter size other c = .ok other :=
      fun other => (if_neg hnewline).trans ((if_neg hreturn).trans ((if_neg htab).trans
        ((if_neg hback).trans (if_pos hbell))))
    refine hsame _ (fun top onText reserve => hvalue _) (hvalue screen) fun next hnext => ?_
    cases hnext
    exact ⟨rfl, rfl, rfl⟩
  by_cases hin : InConsole size screen.curRow screen.curColumn
  · have hvalue : ∀ top onText reserve,
        putLetter size (screen.withCounters top onText reserve) c =
          let written := ({ screen with
            text := fun i j =>
              if i = screen.curRow ∧ j = screen.curColumn then c else screen.text i j
            textColor := fun i j =>
              if i = screen.curRow ∧ j = screen.curColumn then screen.currentColor
              else screen.textColor i j
            curColumn := screen.curColumn + 1 } : Screen).withCounters top onText reserve
          if screen.curColumn + 1 > size.columns - 2 then
            .ok ({ written with curColumn := 0 } : Screen).nextRow
          else .ok written := by
      intro top onText reserve
      rw [putLetter, if_neg hnewline, if_neg hreturn, if_neg htab, if_neg hback, if_neg hbell]
      exact if_pos hin
    have hself := hvalue screen.topRow screen.forceTopRowOnText screen.forceTopRowReserve
    rw [withCounters_self] at hself
    by_cases hlast : screen.curColumn + 1 > size.columns - 2
    · simp only [if_pos hlast] at hvalue hself
      refine ⟨1, by decide, fun top onText reserve => ?_, fun next hnext => ?_⟩
      · rw [hvalue, hself]
        rfl
      · rw [hself] at hnext
        cases hnext
        exact ⟨rfl, rfl, rfl⟩
    · simp only [if_neg hlast] at hvalue hself
      refine hsame _ (fun top onText reserve => ?_) hself fun next hnext => ?_
      · rw [hvalue]
        rfl
      · cases hnext
        exact ⟨rfl, rfl, rfl⟩
  · have hvalue : ∀ top onText reserve,
        putLetter size (screen.withCounters top onText reserve) c = .error .textAccess := by
      intro top onText reserve
      rw [putLetter, if_neg hnewline, if_neg hreturn, if_neg htab, if_neg hback, if_neg hbell]
      exact if_neg hin
    have hself := hvalue screen.topRow screen.forceTopRowOnText screen.forceTopRowReserve
    rw [withCounters_self] at hself
    refine hsame _ (fun top onText reserve => ?_) hself (by simp)
    rw [hvalue]
    rfl

/-- A letter, with the shift of a full buffer: both move the window by the same rows. -/
theorem consolePutChar_withCounters (size : ScreenDimensions) (screen : Screen) (c : UInt8) :
    ∃ rows shift : Int, 0 ≤ rows ∧
      (∀ top onText reserve, consolePutChar size (screen.withCounters top onText reserve) c =
        (consolePutChar size screen c).map fun next =>
          next.withCounters top (onText - shift) (reserve + rows)) ∧
      ∀ next, consolePutChar size screen c = .ok next →
        next.topRow = screen.topRow ∧ next.forceTopRowOnText = screen.forceTopRowOnText - shift ∧
          next.forceTopRowReserve = screen.forceTopRowReserve + rows := by
  obtain ⟨rows, hrows, hletter, hcounters⟩ := putLetter_withCounters size screen c
  cases hmoved : putLetter size screen c with
  | error fault =>
      refine ⟨rows, 0, hrows, fun top onText reserve => ?_, fun next hnext => ?_⟩
      · rw [consolePutChar, consolePutChar, hletter, hmoved]
        rfl
      · rw [consolePutChar, hmoved] at hnext
        cases hnext
  | ok moved =>
      obtain ⟨htop, htext, hreserve⟩ := hcounters moved hmoved
      by_cases hfull : moved.curRow = totalRows
      · refine ⟨rows, moved.curRow - (totalRows - bufferRows), hrows,
          fun top onText reserve => ?_, fun next hnext => ?_⟩
        · rw [consolePutChar, consolePutChar, hletter, hmoved]
          simp only [Except.map]
          rw [shiftRows, shiftRows, if_pos hfull, if_pos (show
            (moved.withCounters top onText (reserve + rows)).curRow = totalRows from hfull)]
          rfl
        · rw [consolePutChar, hmoved] at hnext
          cases hnext
          rw [shiftRows, if_pos hfull]
          exact ⟨htop, congrArg (· - (moved.curRow - (totalRows - bufferRows))) htext, hreserve⟩
      · refine ⟨rows, 0, hrows, fun top onText reserve => ?_, fun next hnext => ?_⟩
        · rw [consolePutChar, consolePutChar, hletter, hmoved]
          simp only [Except.map]
          rw [shiftRows, shiftRows, if_neg hfull, if_neg (show
            ¬ (moved.withCounters top onText (reserve + rows)).curRow = totalRows from hfull),
            Int.sub_zero]
        · rw [consolePutChar, hmoved] at hnext
          cases hnext
          rw [shiftRows, if_neg hfull, Int.sub_zero]
          exact ⟨htop, htext, hreserve⟩

end Counters

/-! ## Screens that differ in the counters -/

/-- The sequence that places the cursor relative to the top row. -/
def isHome : Action → Bool
  | .cursorHome _ _ => true
  | _ => false

/-- The sequences that clamp the row of the cursor to the window of the text. -/
def movesRow : Action → Bool
  | .cursorUp _ => true
  | .cursorDown _ => true
  | _ => false

/-- The same counters, or the same sum of them with no sequence to come that tells them
apart before the cursor is placed again. -/
def CountersAgree (actions : List Action) (first : Screen) (onText reserve : Int) : Prop :=
  onText = first.forceTopRowOnText ∧ reserve = first.forceTopRowReserve ∨
    onText + reserve = first.forceTopRowOnText + first.forceTopRowReserve ∧ 0 ≤ reserve ∧
      0 ≤ first.forceTopRowReserve ∧
      ∀ action ∈ actions.takeWhile (fun action => !isHome action), movesRow action = false

def TopRowAgrees (actions : List Action) (first : Screen) (top : Int) : Prop :=
  top = first.topRow ∨ ∀ action ∈ actions, isHome action = false

/-- Two screens that the actions to come cannot tell apart. -/
def Behind (actions : List Action) (first second : Screen) : Prop :=
  ∃ top onText reserve, second = first.withCounters top onText reserve ∧
    CountersAgree actions first onText reserve ∧ TopRowAgrees actions first top

section Behind

variable {size : ScreenSize} {palette : Palette} {first : Screen} {action : Action}
  {actions : List Action}

theorem CountersAgree.tail {onText reserve : Int} (haction : isHome action = false)
    (hagree : CountersAgree (action :: actions) first onText reserve) :
    CountersAgree actions first onText reserve := by
  rcases hagree with hsame | ⟨hsum, hreserve, hfirst, hmoves⟩
  · exact .inl hsame
  · rw [List.takeWhile_cons_of_pos (by rw [haction]; rfl), List.forall_mem_cons] at hmoves
    exact .inr ⟨hsum, hreserve, hfirst, hmoves.2⟩

theorem CountersAgree.of_movesRow {onText reserve : Int} (hhome : isHome action = false)
    (hmoves : movesRow action = true)
    (hagree : CountersAgree (action :: actions) first onText reserve) :
    onText = first.forceTopRowOnText ∧ reserve = first.forceTopRowReserve := by
  rcases hagree with hsame | ⟨-, -, -, hnone⟩
  · exact hsame
  · rw [List.takeWhile_cons_of_pos (by rw [hhome]; rfl), List.forall_mem_cons, hmoves] at hnone
    exact absurd hnone.1 (by decide)

theorem TopRowAgrees.tail {top : Int} (hagree : TopRowAgrees (action :: actions) first top) :
    TopRowAgrees actions first top := by
  rcases hagree with hsame | hnone
  · exact .inl hsame
  · exact .inr (List.forall_mem_cons.mp hnone).2

/-- The counters agree again after both have moved by the same rows. -/
theorem CountersAgree.shifted {next : Screen} {onText reserve shift rows : Int} (hrows : 0 ≤ rows)
    (htext : next.forceTopRowOnText = first.forceTopRowOnText - shift)
    (hreserve : next.forceTopRowReserve = first.forceTopRowReserve + rows)
    (hagree : CountersAgree actions first onText reserve) :
    CountersAgree actions next (onText - shift) (reserve + rows) := by
  rcases hagree with ⟨hsameText, hsameReserve⟩ | ⟨hsum, hnonneg, hfirst, hmoves⟩
  · exact .inl ⟨by omega, by omega⟩
  · exact .inr ⟨by omega, by omega, by omega, hmoves⟩

theorem fillCells_behind {second : Screen} {onText reserve top row start stop : Int}
    {color : Option Color} (hsecond : second = first.withCounters top onText reserve)
    (hcounters : CountersAgree actions first onText reserve) (htop : TopRowAgrees actions first top) :
    SameOutcome (Behind actions) (fillCells size first row start stop color)
      (fillCells size second row start stop color) := by
  rw [hsecond, fillCells_withCounters]
  cases hfilled : fillCells size first row start stop color with
  | error fault => exact .error fault
  | ok filled =>
      obtain ⟨hsameTop, hsameText, hsameReserve⟩ := fillCells_counters hfilled
      refine .ok ⟨top, onText, reserve, rfl, ?_, ?_⟩
      · rwa [CountersAgree, hsameText, hsameReserve]
      · rwa [TopRowAgrees, hsameTop]

/-- Every action does the same on both screens. -/
theorem perform_behind (action : Action) (actions : List Action) (first second : Screen)
    (hbehind : Behind (action :: actions) first second) :
    SameOutcome (Behind actions) (perform size palette first action)
      (perform size palette second action) := by
  obtain ⟨top, onText, reserve, rfl, hcounters, htop⟩ := hbehind
  cases action with
  | putChar c =>
      obtain ⟨rows, shift, hrows, hletter, hmoved⟩ := consolePutChar_withCounters size first c
      rw [perform, perform, hletter]
      cases hnext : consolePutChar size first c with
      | error fault => exact .error fault
      | ok next =>
          obtain ⟨hsameTop, htext, hreserve⟩ := hmoved next hnext
          refine .ok ⟨top, onText - shift, reserve + rows, rfl, ?_, ?_⟩
          · exact (hcounters.tail rfl).shifted hrows htext hreserve
          · have htail := htop.tail
            rwa [TopRowAgrees, hsameTop]
  | cursorUp count =>
      obtain ⟨rfl, rfl⟩ := hcounters.of_movesRow rfl rfl
      exact .ok ⟨top, _, _, rfl, .inl ⟨rfl, rfl⟩, htop.tail⟩
  | cursorDown count =>
      obtain ⟨rfl, rfl⟩ := hcounters.of_movesRow rfl rfl
      exact .ok ⟨top, _, _, rfl, .inl ⟨rfl, rfl⟩, htop.tail⟩
  | cursorRight count => exact .ok ⟨top, onText, reserve, rfl, hcounters.tail rfl, htop.tail⟩
  | cursorLeft count => exact .ok ⟨top, onText, reserve, rfl, hcounters.tail rfl, htop.tail⟩
  | cursorHome row column =>
      rcases htop with rfl | hnone
      · exact .ok ⟨_, _, _, rfl, .inl ⟨rfl, rfl⟩, .inl rfl⟩
      · cases hnone _ (List.mem_cons_self ..)
  | clearBelow =>
      rw [perform, perform, fillCells_withCounters]
      change SameOutcome _ (fillCells size first first.curRow first.curColumn (size.columns - 1)
        (some .black) >>= _) (((fillCells size first first.curRow first.curColumn (size.columns - 1)
          (some .black)).map fun next => next.withCounters top onText reserve) >>= _)
      cases hfilled : fillCells size first first.curRow first.curColumn (size.columns - 1)
        (some .black) with
      | error fault => exact .error fault
      | ok filled =>
          obtain ⟨hsameTop, hsameText, hsameReserve⟩ := fillCells_counters hfilled
          change SameOutcome _ (if first.curRow + 1 < 0 then _ else _)
            (if first.curRow + 1 < 0 then _ else _)
          split_ifs
          · exact .error _
          · refine .ok ⟨top, onText, reserve, rfl, ?_, ?_⟩
            · have htail := hcounters.tail rfl
              rwa [CountersAgree, ← hsameText, ← hsameReserve] at htail
            · have htail := htop.tail
              rwa [TopRowAgrees, ← hsameTop] at htail
  | clearLine mode =>
      rw [perform, perform]
      split_ifs
      · exact fillCells_behind rfl (hcounters.tail rfl) htop.tail
      · exact fillCells_behind rfl (hcounters.tail rfl) htop.tail
      · exact fillCells_behind rfl (hcounters.tail rfl) htop.tail
      · exact .ok ⟨top, onText, reserve, rfl, hcounters.tail rfl, htop.tail⟩
  | colors codes => exact .ok ⟨top, onText, reserve, rfl, hcounters.tail rfl, htop.tail⟩
  | overflow fault => exact .error fault

theorem settle_eq_of_behind {second : Screen} (hbehind : Behind [] first second) :
    second.settle = first.settle := by
  obtain ⟨top, onText, reserve, rfl, hcounters, -⟩ := hbehind
  have hsum : onText + max reserve 0 = first.forceTopRowOnText + max first.forceTopRowReserve 0 ∧
      min reserve 0 = min first.forceTopRowReserve 0 := by
    rcases hcounters with ⟨rfl, rfl⟩ | ⟨hsum, hreserve, hfirst, -⟩
    · exact ⟨rfl, rfl⟩
    · omega
  rw [Screen.settle, Screen.settle]
  simp only [Screen.withCounters, hsum]

/-! ## Cuts between reads -/

theorem textActions_append (escaped : Option Bytes) (first second : Bytes) :
    textActions escaped (first ++ second) =
      ((textActions escaped first).1 ++ (textActions (textActions escaped first).2 second).1,
        (textActions (textActions escaped first).2 second).2) := by
  induction first generalizing escaped with
  | nil => rfl
  | cons c first ih =>
      rw [List.cons_append, textActions, textActions, ih]
      simp only [List.append_assoc]

/-- The texts of a session. -/
def printedTexts (calls : List ConsoleCall) : List Bytes :=
  calls.filterMap fun
    | .print text => some text
    | _ => none

/-- The top row before every print in which the cursor is placed relative to it. -/
def homeTopRows (size : ScreenSize) (palette : Palette) : Console → List ConsoleCall → List Int
  | _, [] => []
  | console, next :: calls =>
      (if (callActions console.escaped next).any isHome then [console.screen.topRow] else []) ++
        match call size palette console next with
        | .ok after => homeTopRows size palette after calls
        | .error _ => []

/-- Everything but the window is the same. -/
structure SameSession (first second : Console) : Prop where
  text : first.screen.text = second.screen.text
  textColor : first.screen.textColor = second.screen.textColor
  currentColor : first.screen.currentColor = second.screen.currentColor
  curRow : first.screen.curRow = second.screen.curRow
  curColumn : first.screen.curColumn = second.screen.curColumn
  escaped : first.escaped = second.escaped

/-- The second console is the first one scrolled to some row. -/
def Scrolled (first second : Console) : Prop :=
  ∃ top, second = { first with screen := { first.screen with topRow := top } }

theorem Scrolled.sameSession {first second : Console} (hscrolled : Scrolled first second) :
    SameSession first second := by
  obtain ⟨top, rfl⟩ := hscrolled
  exact ⟨rfl, rfl, rfl, rfl, rfl, rfl⟩

/-- A print erases the difference, unless it places the cursor relative to the top row. -/
theorem print_scrolled {first second : Console} (hscrolled : Scrolled first second) (text : Bytes)
    (hhome : second.screen.topRow = first.screen.topRow ∨
      ∀ action ∈ (textActions first.escaped text).1, isHome action = false) :
    uiConsolePrint size palette second text = uiConsolePrint size palette first text := by
  obtain ⟨top, rfl⟩ := hscrolled
  have hruns : SameOutcome (Behind [])
      ((textActions first.escaped text).1.foldlM (perform size palette) first.screen)
      ((textActions first.escaped text).1.foldlM (perform size palette)
        { first.screen with topRow := top }) :=
    run_relation perform_behind ⟨top, _, _, rfl, .inl ⟨rfl, rfl⟩, hhome⟩
  rw [uiConsolePrint_eq, uiConsolePrint_eq]
  dsimp only at hruns ⊢
  generalize (textActions first.escaped text).1.foldlM (perform size palette) first.screen = whole
    at hruns ⊢
  generalize (textActions first.escaped text).1.foldlM (perform size palette)
    { first.screen with topRow := top } = scrolled at hruns ⊢
  cases hruns with
  | error fault => rfl
  | ok hbehind =>
      simp only [Except.map, settle_eq_of_behind hbehind]

theorem scrollUp_scrolled (console : Console) (numRows : Int) :
    Scrolled console { console with screen := uiConsoleScrollUp console.screen numRows } := by
  rw [uiConsoleScrollUp]
  split_ifs
  · exact ⟨_, rfl⟩
  · exact ⟨_, rfl⟩

theorem scrollDown_scrolled (console : Console) (numRows : Int) :
    Scrolled console { console with screen := uiConsoleScrollDown size console.screen numRows } := by
  rw [uiConsoleScrollDown]
  split_ifs
  · exact ⟨_, rfl⟩
  · exact ⟨_, rfl⟩

theorem foldlM_scrollUp (console : Console) (numRows : Int) (calls : List ConsoleCall) :
    (ConsoleCall.scrollUp numRows :: calls).foldlM (call size palette) console =
      calls.foldlM (call size palette)
        { console with screen := uiConsoleScrollUp console.screen numRows } := rfl

theorem foldlM_scrollDown (console : Console) (numRows : Int) (calls : List ConsoleCall) :
    (ConsoleCall.scrollDown numRows :: calls).foldlM (call size palette) console =
      calls.foldlM (call size palette)
        { console with screen := uiConsoleScrollDown size console.screen numRows } := rfl

theorem Scrolled.left {first second third : Console} (hfirst : Scrolled first second)
    (hthird : Scrolled first third) : Scrolled third second := by
  obtain ⟨top, rfl⟩ := hfirst
  obtain ⟨other, rfl⟩ := hthird
  exact ⟨top, rfl⟩

theorem Scrolled.right {first second third : Console} (hfirst : Scrolled first second)
    (hthird : Scrolled second third) : Scrolled first third := by
  obtain ⟨top, rfl⟩ := hfirst
  obtain ⟨other, rfl⟩ := hthird
  exact ⟨other, rfl⟩

/-- Two sessions with the same texts, from consoles that are scrolled differently. -/
theorem session_scrolled {first second : Console} (hscrolled : Scrolled first second)
    {calls others : List ConsoleCall} (htexts : printedTexts calls = printedTexts others)
    (htops : homeTopRows size palette first calls = homeTopRows size palette second others) :
    SameOutcome Scrolled (calls.foldlM (call size palette) first)
      (others.foldlM (call size palette) second) := by
  induction hlength : calls.length + others.length using Nat.strong_induction_on
    generalizing calls others first second with
  | _ length ih =>
      subst hlength
      cases calls with
      | nil =>
          cases others with
          | nil => exact .ok hscrolled
          | cons next others =>
              cases next with
              | print text => cases htexts
              | scrollUp numRows =>
                  rw [foldlM_scrollUp]
                  exact ih _ (Nat.lt_succ_self _)
                    (hscrolled.right (scrollUp_scrolled second numRows)) htexts htops rfl
              | scrollDown numRows =>
                  rw [foldlM_scrollDown]
                  exact ih _ (Nat.lt_succ_self _)
                    (hscrolled.right (scrollDown_scrolled second numRows)) htexts htops rfl
      | cons next calls =>
          cases next with
          | scrollUp numRows =>
              rw [foldlM_scrollUp]
              exact ih _ (by rw [List.length_cons]; omega)
                (hscrolled.left (scrollUp_scrolled first numRows)) htexts htops rfl
          | scrollDown numRows =>
              rw [foldlM_scrollDown]
              exact ih _ (by rw [List.length_cons]; omega)
                (hscrolled.left (scrollDown_scrolled first numRows)) htexts htops rfl
          | print text =>
              cases others with
              | nil => cases htexts
              | cons other others =>
                  cases other with
                  | scrollUp numRows =>
                      rw [foldlM_scrollUp]
                      exact ih _ (Nat.lt_succ_self _)
                        (hscrolled.right (scrollUp_scrolled second numRows)) htexts htops rfl
                  | scrollDown numRows =>
                      rw [foldlM_scrollDown]
                      exact ih _ (Nat.lt_succ_self _)
                        (hscrolled.right (scrollDown_scrolled second numRows)) htexts htops rfl
                  | print otherText =>
                      obtain ⟨rfl, hrest⟩ := List.cons.inj htexts
                      have hescaped : second.escaped = first.escaped :=
                        hscrolled.sameSession.escaped.symm
                      rw [homeTopRows, homeTopRows, callActions, callActions, hescaped] at htops
                      have hhome : second.screen.topRow = first.screen.topRow ∨
                          ∀ action ∈ (textActions first.escaped text).1, isHome action = false := by
                        by_cases hany : (textActions first.escaped text).1.any isHome = true
                        · rw [if_pos hany, if_pos hany] at htops
                          exact .inl (List.cons.inj htops).1.symm
                        · right
                          intro action haction
                          rw [Bool.not_eq_true, List.any_eq_false] at hany
                          simpa using hany action haction
                      have hprint : call size palette second (.print text) =
                          call size palette first (.print text) :=
                        print_scrolled hscrolled text hhome
                      cases hafter : call size palette first (.print text) with
                      | error fault =>
                          rw [foldlM_error_cons hafter,
                            foldlM_error_cons (hprint.trans hafter)]
                          exact .error fault
                      | ok after =>
                          rw [hprint, hafter] at htops
                          have hrestTops : homeTopRows size palette after calls =
                              homeTopRows size palette after others := by
                            by_cases hany : (textActions first.escaped text).1.any isHome = true
                            · rw [if_pos hany, if_pos hany] at htops
                              exact (List.cons.inj htops).2
                            · rw [if_neg hany, if_neg hany] at htops
                              exact htops
                          rw [foldlM_ok_cons hafter, foldlM_ok_cons (hprint.trans hafter)]
                          refine ih _ ?_ ⟨_, rfl⟩ hrest hrestTops rfl
                          rw [List.length_cons, List.length_cons]
                          omega

/-- Scrolling between the prints changes nothing but the window, if every print that places
the cursor relative to the top row finds the same top row. -/
theorem scrolling_changes_window
    (console : Console) (calls others : List ConsoleCall)
    (htexts : printedTexts calls = printedTexts others)
    (htops : homeTopRows size palette console calls = homeTopRows size palette console others) :
    SameOutcome SameSession (calls.foldlM (call size palette) console)
      (others.foldlM (call size palette) console) :=
  (session_scrolled ⟨_, rfl⟩ htexts htops).mono fun _ _ hscrolled => hscrolled.sameSession

/-- After scrolling up the cursor is placed in the rows that are shown. -/
theorem home_sees_scrolling :
    (([ConsoleCall.print [newline], .print (escape :: ascii "[H")].foldlM
      (call .smallest .default)
      (uiConsoleBegin .smallest .default .initial)).map
        fun console => console.screen.curRow).toOption = some 1 ∧
    (([ConsoleCall.print [newline], .scrollUp 1, .print (escape :: ascii "[H")].foldlM
      (call .smallest .default)
      (uiConsoleBegin .smallest .default .initial)).map
        fun console => console.screen.curRow).toOption = some 0 := by
  with_unfolding_all decide

theorem scrolling_changes_window_letters :
    SameOutcome SameSession
      ([ConsoleCall.print (ascii "a\n"), .scrollUp 1, .print (ascii "b")].foldlM
        (call .smallest .default)
        (uiConsoleBegin .smallest .default .initial))
      ([ConsoleCall.print (ascii "a\n"), .print (ascii "b"), .scrollDown 8].foldlM
        (call .smallest .default)
        (uiConsoleBegin .smallest .default .initial)) :=
  scrolling_changes_window _ _ _ (by with_unfolding_all decide) (by with_unfolding_all decide)

end Behind

end OpenRecovery.Terminal
