import OpenRecovery.Console
import Mathlib

/-!
# The cursor and the window of the console

Every action keeps the cursor in the buffer and the window in the buffer as long as the
cursor is not sent out of it: by a backspace that leaves the window behind, by a cursor
sequence while the text has moved up within the same call, or by a parameter of another sign.
-/

namespace OpenRecovery.Terminal

open Effects Words

/-! ## Calls as lists of actions -/

/-- The actions of a text, and the sequence it leaves incomplete. -/
def textActions : Option Bytes → Bytes → List Action × Option Bytes
  | escaped, [] => ([], escaped)
  | escaped, c :: text =>
      ((consoleByte escaped c).1 ++ (textActions (consoleByte escaped c).2 text).1,
        (textActions (consoleByte escaped c).2 text).2)

def callActions (escaped : Option Bytes) : ConsoleCall → List Action
  | .print text => (textActions escaped text).1
  | _ => []

section Calls

variable {size : ScreenDimensions} {palette : Palette}

theorem feed_eq (console : Console) (text : Bytes) :
    text.foldlM (feed size palette) console =
      ((textActions console.escaped text).1.foldlM (perform size palette) console.screen).map
        fun screen => ⟨screen, (textActions console.escaped text).2⟩ := by
  induction text generalizing console with
  | nil => rfl
  | cons c text ih =>
      rw [List.foldlM_cons, feed, textActions, List.foldlM_append]
      cases (consoleByte console.escaped c).1.foldlM (perform size palette) console.screen with
      | error fault => rfl
      | ok screen => exact ih _

theorem uiConsolePrint_eq (console : Console) (text : Bytes) :
    uiConsolePrint size palette console text =
      ((textActions console.escaped text).1.foldlM (perform size palette) console.screen).map
        fun screen => ⟨screen.settle, (textActions console.escaped text).2⟩ := by
  rw [uiConsolePrint, feed_eq]
  cases (textActions console.escaped text).1.foldlM (perform size palette) console.screen with
  | error fault => rfl
  | ok screen => rfl

/-- The actions of a session, each with the screen before it. -/
def sessionSteps (size : ScreenDimensions) (palette : Palette) :
    Console → List ConsoleCall → List (Screen × Action)
  | _, [] => []
  | console, next :: calls =>
      performed (perform size palette) console.screen (callActions console.escaped next) ++
        match call size palette console next with
        | .ok after => sessionSteps size palette after calls
        | .error _ => []

/-- An invariant of the actions that the end of a print and scrolling keep too. -/
theorem session_invariant
    (Inv : Screen → Prop) (Allowed : Screen → Action → Prop) (Settled : Screen → Prop)
    (Fits : ConsoleCall → Prop)
    (hkeep : ∀ screen action, Inv screen → Allowed screen action →
      ∃ next, perform size palette screen action = .ok next ∧ Inv next)
    (hinv : ∀ screen, Settled screen → Inv screen)
    (hsettle : ∀ screen, Inv screen → Settled screen.settle)
    (hup : ∀ screen numRows, Settled screen → Fits (.scrollUp numRows) →
      Settled (uiConsoleScrollUp screen numRows))
    (hdown : ∀ screen numRows, Settled screen → Fits (.scrollDown numRows) →
      Settled (uiConsoleScrollDown size screen numRows))
    {console : Console} (hconsole : Settled console.screen) {calls : List ConsoleCall}
    (hfits : ∀ next ∈ calls, Fits next)
    (hallowed : ∀ taken ∈ sessionSteps size palette console calls, Allowed taken.1 taken.2) :
    ∃ last, calls.foldlM (call size palette) console = .ok last ∧ Settled last.screen := by
  induction calls generalizing console with
  | nil => exact ⟨console, rfl, hconsole⟩
  | cons next calls ih =>
      rw [List.forall_mem_cons] at hfits
      rw [sessionSteps, List.forall_mem_append] at hallowed
      have hcall : ∃ after, call size palette console next = .ok after ∧ Settled after.screen := by
        cases next with
        | print text =>
            obtain ⟨screen, hscreen, hend⟩ := run_invariant hkeep (hinv _ hconsole) hallowed.1
            refine ⟨⟨screen.settle, (textActions console.escaped text).2⟩, ?_, hsettle _ hend⟩
            rw [call, uiConsolePrint_eq]
            rw [callActions] at hscreen
            rw [hscreen]
            rfl
        | scrollUp numRows => exact ⟨_, rfl, hup _ _ hconsole hfits.1⟩
        | scrollDown numRows => exact ⟨_, rfl, hdown _ _ hconsole hfits.1⟩
      obtain ⟨after, hafter, hsettled⟩ := hcall
      rw [hafter] at hallowed
      rw [foldlM_ok_cons hafter]
      exact ih hsettled hfits.2 hallowed.2

end Calls

/-! ## Letters -/

/-- A letter that sends the cursor to the next row. -/
def Advances (size : ScreenSize) (screen : Screen) (c : UInt8) : Prop :=
  c = newline ∨
    c = tab ∧ screen.curColumn + (5 - screen.curColumn.tmod 5) ≥ size.columns - 2 ∨
    c ∉ [newline, carriageReturn, tab, backspace, bell] ∧
      screen.curColumn + 1 > size.columns - 2

/-- A backspace that sends the cursor to the row above. -/
def BacksUp (screen : Screen) (c : UInt8) : Prop :=
  c = backspace ∧ screen.curColumn = 0 ∧ screen.curRow ≠ 0

instance (size : ScreenSize) (screen : Screen) (c : UInt8) : Decidable (Advances size screen c) := by
  unfold Advances
  infer_instance

instance (screen : Screen) (c : UInt8) : Decidable (BacksUp screen c) := by
  unfold BacksUp
  infer_instance

/-- Every row of the buffer ends with a zero byte. -/
def Terminated (size : ScreenSize) (screen : Screen) : Prop :=
  ∀ row, 0 ≤ row → row < totalRows → screen.text row (size.columns - 1) = 0

/-- The cursor is on a cell of the buffer. -/
structure CursorInside (size : ScreenSize) (screen : Screen) : Prop where
  row_nonneg : 0 ≤ screen.curRow
  row_lt : screen.curRow < totalRows
  column_nonneg : 0 ≤ screen.curColumn
  column_le : screen.curColumn ≤ size.columns - 2

section Letters

variable {size : ScreenSize} {screen : Screen}

theorem CursorInside.inConsole (hcursor : CursorInside size screen) :
    InConsole size screen.curRow screen.curColumn := by
  have hcolumn := hcursor.column_le
  exact ⟨hcursor.row_nonneg, hcursor.row_lt, hcursor.column_nonneg, by omega⟩

theorem CursorInside.of_eq
    {next : Screen} (hcursor : CursorInside size screen) (hrow : next.curRow = screen.curRow)
    (hcolumn : next.curColumn = screen.curColumn) : CursorInside size next := by
  obtain ⟨hlow, hhigh, hleft, hright⟩ := hcursor
  rw [← hrow] at hlow hhigh
  rw [← hcolumn] at hleft hright
  exact ⟨hlow, hhigh, hleft, hright⟩

/-- Filling cells before the terminator changes no position. -/
theorem fillCells_ok
    {row first stop : Int} (color : Option Color) (hrow : 0 ≤ row ∧ row < totalRows)
    (hfirst : 0 ≤ first) (hstop : stop ≤ size.columns - 1) (hend : Terminated size screen) :
    ∃ filled, fillCells size screen row first stop color = .ok filled ∧ Terminated size filled ∧
      filled.curRow = screen.curRow ∧ filled.curColumn = screen.curColumn ∧
      filled.topRow = screen.topRow ∧ filled.forceTopRowOnText = screen.forceTopRowOnText ∧
      filled.forceTopRowReserve = screen.forceTopRowReserve := by
  rw [fillCells]
  by_cases hempty : first < stop
  · have hin : InConsole size row first ∧ InConsole size row (stop - 1) :=
      ⟨⟨hrow.1, hrow.2, hfirst, by omega⟩, ⟨hrow.1, hrow.2, by omega, by omega⟩⟩
    rw [if_pos hempty, if_pos hin]
    refine ⟨_, rfl, ?_, rfl, rfl, rfl, rfl, rfl⟩
    intro i hlow hhigh
    change (if i = row ∧ first ≤ size.columns - 1 ∧ size.columns - 1 < stop then space
      else screen.text i (size.columns - 1)) = 0
    rw [if_neg (by omega)]
    exact hend i hlow hhigh
  · rw [if_neg hempty]
    exact ⟨screen, rfl, hend, rfl, rfl, rfl, rfl, rfl⟩

/-- What a letter does to the cursor and the counters. -/
theorem putLetter_cases (hcursor : CursorInside size screen) (hend : Terminated size screen)
    (c : UInt8) :
    ∃ next, putLetter size screen c = .ok next ∧ Terminated size next ∧
      next.topRow = screen.topRow ∧ next.forceTopRowOnText = screen.forceTopRowOnText ∧
      0 ≤ next.curColumn ∧ next.curColumn ≤ size.columns - 2 ∧
      (Advances size screen c ∧ next.curRow = screen.curRow + 1 ∧
          next.forceTopRowReserve = screen.forceTopRowReserve + 1 ∨
        next.curRow = screen.curRow ∧
          next.forceTopRowReserve = screen.forceTopRowReserve ∨
        BacksUp screen c ∧ next.curRow = screen.curRow - 1 ∧
          next.forceTopRowReserve = screen.forceTopRowReserve) := by
  obtain ⟨hrow, hrowEnd, hcolumn, hcolumnEnd⟩ := hcursor
  have hwidth := size.two_le_columns
  rw [putLetter]
  by_cases hnewline : c = newline
  · rw [if_pos hnewline]
    exact ⟨_, rfl, hend, rfl, rfl, hcolumn, hcolumnEnd, .inl ⟨.inl hnewline, rfl, rfl⟩⟩
  rw [if_neg hnewline]
  by_cases hreturn : c = carriageReturn
  · rw [if_pos hreturn]
    exact ⟨_, rfl, hend, rfl, rfl, Int.le_refl _, by change (0 : Int) ≤ _; omega, .inr (.inl ⟨rfl, rfl⟩)⟩
  rw [if_neg hreturn]
  by_cases htab : c = tab
  · rw [if_pos htab]
    have hmod := Int.tmod_lt_of_pos screen.curColumn (show (0 : Int) < 5 by decide)
    by_cases hlast : screen.curColumn + (5 - screen.curColumn.tmod 5) ≥ size.columns - 2
    · obtain ⟨filled, hfilled, hfill, hfrow, -, hftop, hftext, hfreserve⟩ :=
        fillCells_ok none ⟨hrow, hrowEnd⟩ hcolumn (Int.le_refl (size.columns - 1)) hend
      refine ⟨{ filled with curColumn := 0 }.nextRow, ?_, hfill, hftop, hftext, Int.le_refl _, ?_,
        .inl ⟨.inr (.inl ⟨htab, hlast⟩), ?_, ?_⟩⟩
      · simp only [if_pos hlast, hfilled]
        rfl
      · change (0 : Int) ≤ _
        omega
      · exact congrArg (· + 1) hfrow
      · exact congrArg (· + 1) hfreserve
    · obtain ⟨filled, hfilled, hfill, hfrow, -, hftop, hftext, hfreserve⟩ :=
        fillCells_ok none ⟨hrow, hrowEnd⟩ hcolumn
          (show screen.curColumn + (5 - screen.curColumn.tmod 5) ≤ size.columns - 1 by omega) hend
      refine ⟨{ filled with curColumn := screen.curColumn + (5 - screen.curColumn.tmod 5) }, ?_,
        hfill, hftop, hftext, ?_, ?_, .inr (.inl ⟨hfrow, hfreserve⟩)⟩
      · simp only [if_neg hlast, hfilled]
        rfl
      · change 0 ≤ screen.curColumn + (5 - screen.curColumn.tmod 5)
        omega
      · change screen.curColumn + (5 - screen.curColumn.tmod 5) ≤ _
        omega
  rw [if_neg htab]
  by_cases hback : c = backspace
  · rw [if_pos hback]
    by_cases hzero : screen.curColumn = 0
    · rw [if_pos hzero]
      by_cases hfirst : screen.curRow = 0
      · rw [if_pos hfirst]
        exact ⟨_, rfl, hend, rfl, rfl, hcolumn, hcolumnEnd, .inr (.inl ⟨rfl, rfl⟩)⟩
      · rw [if_neg hfirst]
        refine ⟨_, rfl, hend, rfl, rfl, ?_, Int.le_refl _,
          .inr (.inr ⟨⟨hback, hzero, hfirst⟩, rfl, rfl⟩)⟩
        change 0 ≤ size.columns - 2
        omega
    · rw [if_neg hzero]
      refine ⟨_, rfl, hend, rfl, rfl, ?_, ?_, .inr (.inl ⟨rfl, rfl⟩)⟩
      · change 0 ≤ screen.curColumn - 1
        omega
      · change screen.curColumn - 1 ≤ _
        omega
  rw [if_neg hback]
  by_cases hbell : c = bell
  · rw [if_pos hbell]
    exact ⟨_, rfl, hend, rfl, rfl, hcolumn, hcolumnEnd, .inr (.inl ⟨rfl, rfl⟩)⟩
  have hin : InConsole size screen.curRow screen.curColumn :=
    ⟨hrow, hrowEnd, hcolumn, by omega⟩
  have hwritten : ∀ i, 0 ≤ i → i < totalRows →
      (if i = screen.curRow ∧ size.columns - 1 = screen.curColumn then c
        else screen.text i (size.columns - 1)) = 0 := by
    intro i hlow hhigh
    rw [if_neg (by omega)]
    exact hend i hlow hhigh
  rw [if_neg hbell, if_pos hin]
  by_cases hlast : screen.curColumn + 1 > size.columns - 2
  · refine ⟨_, if_pos hlast, hwritten, rfl, rfl, Int.le_refl _, ?_, .inl ⟨.inr (.inr ⟨?_, hlast⟩), rfl, rfl⟩⟩
    · change (0 : Int) ≤ _
      omega
    · simp [hnewline, hreturn, htab, hback, hbell]
  · refine ⟨_, if_neg hlast, hwritten, rfl, rfl, ?_, ?_, .inr (.inl ⟨rfl, rfl⟩)⟩
    · change 0 ≤ screen.curColumn + 1
      omega
    · change screen.curColumn + 1 ≤ _
      omega

/-- What the shift of a full buffer does to the positions. -/
theorem shiftRows_cases (hend : Terminated size screen) :
    Terminated size (shiftRows size screen) ∧
      (shiftRows size screen).topRow = screen.topRow ∧
      (shiftRows size screen).curColumn = screen.curColumn ∧
      (shiftRows size screen).forceTopRowReserve = screen.forceTopRowReserve ∧
      (screen.curRow = totalRows ∧ (shiftRows size screen).curRow = totalRows - bufferRows ∧
          (shiftRows size screen).forceTopRowOnText = screen.forceTopRowOnText - bufferRows ∨
        screen.curRow ≠ totalRows ∧ (shiftRows size screen).curRow = screen.curRow ∧
          (shiftRows size screen).forceTopRowOnText = screen.forceTopRowOnText) := by
  rw [shiftRows]
  by_cases hfull : screen.curRow = totalRows
  · rw [if_pos hfull]
    have hwidth := size.two_le_columns
    refine ⟨?_, rfl, rfl, rfl, .inl ⟨hfull, ?_, ?_⟩⟩
    · intro row hlow hhigh
      simp only [blankRows]
      by_cases hnew : totalRows - bufferRows ≤ row
      · rw [if_pos ⟨hnew, hhigh, by omega, by omega⟩, blankText, if_pos rfl]
      · have hshift : screen.curRow - (totalRows - bufferRows) = bufferRows := by
          rw [hfull]
          omega
        rw [if_neg (by omega), if_pos ⟨hlow, by omega, by omega, by omega⟩, hshift]
        refine hend _ ?_ ?_
        · have hpositive : 0 ≤ bufferRows := by decide
          omega
        · omega
    · change screen.curRow - (screen.curRow - (totalRows - bufferRows)) = _
      omega
    · change screen.forceTopRowOnText - (screen.curRow - (totalRows - bufferRows)) = _
      omega
  · rw [if_neg hfull]
    exact ⟨hend, rfl, rfl, rfl, .inr ⟨hfull, rfl, rfl⟩⟩

end Letters

/-! ## The buffers -/

/-- The row the window will start with if the call ends now. -/
def Screen.windowRow (screen : Screen) : Int :=
  screen.forceTopRowOnText + max screen.forceTopRowReserve 0

/-- The cursor, the window shown and the window to come are in the buffer. -/
structure InBuffer (size : ScreenSize) (screen : Screen) : Prop where
  cursor : CursorInside size screen
  topRow_nonneg : 0 ≤ screen.topRow
  topRow_le : screen.topRow + size.rows ≤ totalRows
  window_le : screen.windowRow + size.rows ≤ totalRows
  terminated : Terminated size screen

/-- The step does not push the window below the last row of the buffer while the cursor is
on a row before it. -/
def KeepsWindowInside (size : ScreenSize) (screen : Screen) (c : UInt8) : Prop :=
  Advances size screen c → 0 ≤ screen.forceTopRowReserve → screen.curRow + 1 < totalRows →
    screen.windowRow + 1 + size.rows ≤ totalRows

instance (size : ScreenSize) (screen : Screen) (c : UInt8) :
    Decidable (KeepsWindowInside size screen c) := by
  unfold KeepsWindowInside
  infer_instance

/-- What an action needs to keep the cursor in the buffer. -/
def KeepsCursor (size : ScreenSize) (screen : Screen) : Action → Prop
  | .putChar c => KeepsWindowInside size screen c
  | .cursorUp count =>
      screen.curRow - count.toInt < totalRows ∧
        (0 ≤ screen.forceTopRowOnText ∨ count.toInt ≤ screen.curRow)
  | .cursorDown count =>
      0 ≤ screen.curRow + count.toInt ∧ screen.curRow + count.toInt < 2 ^ 31 ∧
        0 < screen.forceTopRowOnText + size.rows
  | .cursorRight count =>
      0 ≤ screen.curColumn + count.toInt ∧ screen.curColumn + count.toInt < 2 ^ 31
  | .cursorLeft count => screen.curColumn - count.toInt ≤ size.columns - 2
  | .cursorHome row column => 0 ≤ screen.topRow + row.toInt ∧ 0 ≤ column.toInt
  | .overflow _ => False
  | _ => True

instance (size : ScreenSize) (screen : Screen) (action : Action) :
    Decidable (KeepsCursor size screen action) := by
  cases action <;> unfold KeepsCursor <;> infer_instance

section Buffers

variable {size : ScreenSize} {palette : Palette} {screen : Screen}

theorem inBuffer_of_fields
    {next : Screen} (hscreen : InBuffer size screen) (hend : Terminated size next)
    (hrow : next.curRow = screen.curRow) (hcolumn : next.curColumn = screen.curColumn)
    (htop : next.topRow = screen.topRow)
    (htext : next.forceTopRowOnText = screen.forceTopRowOnText)
    (hreserve : next.forceTopRowReserve = screen.forceTopRowReserve) : InBuffer size next where
  cursor := hscreen.cursor.of_eq hrow hcolumn
  topRow_nonneg := by rw [htop]; exact hscreen.topRow_nonneg
  topRow_le := by rw [htop]; exact hscreen.topRow_le
  window_le := by
    rw [Screen.windowRow, htext, hreserve]
    exact hscreen.window_le
  terminated := hend

/-- Letters keep the cursor in the buffer. -/
theorem putChar_inBuffer (hscreen : InBuffer size screen) {c : UInt8}
    (hkeeps : KeepsWindowInside size screen c) :
    ∃ next, consolePutChar size screen c = .ok next ∧ InBuffer size next := by
  obtain ⟨moved, hmoved, hend, htop, htext, hcolumn, hcolumnEnd, hrows⟩ :=
    putLetter_cases hscreen.cursor hscreen.terminated c
  obtain ⟨hshiftEnd, hshiftTop, hshiftColumn, hshiftReserve, hshiftRows⟩ := shiftRows_cases hend
  refine ⟨shiftRows size moved, by rw [consolePutChar, hmoved]; rfl, ?_⟩
  have hrow := hscreen.cursor.row_nonneg
  have hrowEnd := hscreen.cursor.row_lt
  have hwindow := hscreen.window_le
  have hheight := size.one_le_rows
  have hheightEnd := size.rows_le
  have hbuffer : bufferRows = 26 := rfl
  have htotal : totalRows = 1026 := rfl
  rw [KeepsWindowInside] at hkeeps
  rw [Screen.windowRow] at hkeeps hwindow
  constructor
  · constructor
    · rcases hshiftRows with ⟨-, hnext, -⟩ | ⟨-, hnext, -⟩
      · omega
      · rcases hrows with ⟨-, hnew, -⟩ | ⟨hnew, -⟩ | ⟨⟨-, -, hzero⟩, hnew, -⟩ <;> omega
    · rcases hshiftRows with ⟨-, hnext, -⟩ | ⟨hfull, hnext, -⟩
      · omega
      · rcases hrows with ⟨-, hnew, -⟩ | ⟨hnew, -⟩ | ⟨-, hnew, -⟩ <;> omega
    · rw [hshiftColumn]
      exact hcolumn
    · rw [hshiftColumn]
      exact hcolumnEnd
  · rw [hshiftTop, htop]
    exact hscreen.topRow_nonneg
  · rw [hshiftTop, htop]
    exact hscreen.topRow_le
  · rw [Screen.windowRow, hshiftReserve]
    rcases hshiftRows with ⟨hfull, -, hnext⟩ | ⟨hfull, -, hnext⟩
    · rcases hrows with ⟨-, -, hnew⟩ | ⟨-, hnew⟩ | ⟨-, -, hnew⟩ <;> omega
    · rcases hrows with ⟨hadvances, hnewRow, hnew⟩ | ⟨-, hnew⟩ | ⟨-, -, hnew⟩
      · have hinside := hkeeps hadvances
        omega
      · omega
      · omega
  · exact hshiftEnd

theorem terminated_blankRows (hend : Terminated size screen) (first : Int) :
    Terminated size (blankRows size screen first) := by
  intro row hlow hhigh
  have hwidth := size.two_le_columns
  simp only [blankRows]
  by_cases hnew : first ≤ row
  · rw [if_pos ⟨hnew, hhigh, by omega, by omega⟩, blankText, if_pos rfl]
  · rw [if_neg (by omega)]
    exact hend row hlow hhigh

/-- The cells of a row are cleared. -/
theorem fillCells_inBuffer
    (hscreen : InBuffer size screen) (color : Option Color) {first stop : Int} (hfirst : 0 ≤ first)
    (hstop : stop ≤ size.columns - 1) :
    ∃ next, fillCells size screen screen.curRow first stop color = .ok next ∧
      InBuffer size next ∧ next.curRow = screen.curRow := by
  obtain ⟨filled, hfilled, hend, hrow, hcolumn, htop, htext, hreserve⟩ :=
    fillCells_ok color ⟨hscreen.cursor.row_nonneg, hscreen.cursor.row_lt⟩ hfirst hstop
      hscreen.terminated
  exact ⟨filled, hfilled, inBuffer_of_fields hscreen hend hrow hcolumn htop htext hreserve, hrow⟩

/-- A cursor sequence that ends on a row of the buffer. -/
theorem inBuffer_of_row
    (hscreen : InBuffer size screen) {row column top : Int}
    (hrow : 0 ≤ row ∧ row < totalRows) (hcolumn : 0 ≤ column ∧ column ≤ size.columns - 2)
    (htop : top + size.rows ≤ totalRows) :
    InBuffer size { screen with
      curRow := row
      curColumn := column
      forceTopRowOnText := top
      forceTopRowReserve := reserveFor size top row } where
  cursor := ⟨hrow.1, hrow.2, hcolumn.1, hcolumn.2⟩
  topRow_nonneg := hscreen.topRow_nonneg
  topRow_le := hscreen.topRow_le
  window_le := by
    rw [Screen.windowRow, reserveFor]
    dsimp only
    omega
  terminated := hscreen.terminated

theorem onText_le (hscreen : InBuffer size screen) :
    screen.forceTopRowOnText + size.rows ≤ totalRows := by
  have hwindow := hscreen.window_le
  rw [Screen.windowRow] at hwindow
  omega

theorem toInt_range (count : Int32) : -2 ^ 31 ≤ count.toInt ∧ count.toInt < 2 ^ 31 :=
  ⟨count.le_toInt, count.toInt_lt⟩

/-- Every action keeps the cursor in the buffer if it is not sent out of it. -/
theorem perform_inBuffer (hscreen : InBuffer size screen) {action : Action}
    (hkeeps : KeepsCursor size screen action) :
    ∃ next, perform size palette screen action = .ok next ∧ InBuffer size next := by
  have hrow := hscreen.cursor.row_nonneg
  have hrowEnd := hscreen.cursor.row_lt
  have hcolumn := hscreen.cursor.column_nonneg
  have hcolumnEnd := hscreen.cursor.column_le
  have htext := onText_le hscreen
  have htop := hscreen.topRow_nonneg
  have htopEnd := hscreen.topRow_le
  have hheight := size.one_le_rows
  have hwidth := size.two_le_columns
  have hwidthEnd := size.columns_le
  have htotal : totalRows = 1026 := rfl
  have hmax : maxColumns = 100 := rfl
  cases action with
  | putChar c => exact putChar_inBuffer hscreen hkeeps
  | cursorUp count =>
      obtain ⟨hlow, hhigh⟩ := hkeeps
      have hcount := toInt_range count
      refine ⟨_, rfl, inBuffer_of_row hscreen ?_ ⟨hcolumn, hcolumnEnd⟩ htext⟩
      rw [wrap32_of_range (by omega) (by omega)]
      omega
  | cursorDown count =>
      obtain ⟨hlow, hhigh, hbelow⟩ := hkeeps
      refine ⟨_, rfl, inBuffer_of_row hscreen ?_ ⟨hcolumn, hcolumnEnd⟩ htext⟩
      rw [wrap32_of_range (by omega) (by omega)]
      omega
  | cursorRight count =>
      obtain ⟨hlow, hhigh⟩ := hkeeps
      refine ⟨_, rfl, ⟨⟨hrow, hrowEnd, ?_, ?_⟩, htop, htopEnd, hscreen.window_le,
        hscreen.terminated⟩⟩
      · change 0 ≤ min (wrap32 _) _
        rw [wrap32_of_range (by omega) hhigh]
        omega
      · exact Int.min_le_right _ _
  | cursorLeft count =>
      have hcount := toInt_range count
      rw [KeepsCursor] at hkeeps
      refine ⟨_, rfl, ⟨⟨hrow, hrowEnd, Int.le_max_right _ _, ?_⟩, htop, htopEnd,
        hscreen.window_le, hscreen.terminated⟩⟩
      change max (wrap32 _) 0 ≤ _
      rw [wrap32_of_range (by omega) (by omega)]
      omega
  | cursorHome row column =>
      obtain ⟨hlow, hleft⟩ := hkeeps
      refine ⟨_, rfl, inBuffer_of_row hscreen ?_ ?_ htopEnd⟩
      · omega
      · omega
  | clearBelow =>
      obtain ⟨next, hnext, hinside, -⟩ := fillCells_inBuffer hscreen (some .black)
        hcolumn (Int.le_refl (size.columns - 1))
      refine ⟨blankRows size next (screen.curRow + 1), ?_, inBuffer_of_fields hinside
        (terminated_blankRows hinside.terminated _) rfl rfl rfl rfl rfl⟩
      simp only [perform, hnext]
      exact if_neg (by omega)
  | clearLine mode =>
      by_cases hright : mode = 0
      · obtain ⟨next, hnext, hinside, -⟩ := fillCells_inBuffer hscreen (some .black)
          hcolumn (Int.le_refl (size.columns - 1))
        exact ⟨next, (if_pos hright).trans hnext, hinside⟩
      by_cases hleft : mode = 1
      · obtain ⟨next, hnext, hinside, -⟩ := fillCells_inBuffer hscreen (some .black)
          (Int.le_refl 0) (show screen.curColumn + 1 ≤ size.columns - 1 by omega)
        exact ⟨next, (if_neg hright).trans ((if_pos hleft).trans hnext), hinside⟩
      by_cases hall : mode = 2
      · obtain ⟨next, hnext, hinside, -⟩ := fillCells_inBuffer hscreen (some .black)
          (Int.le_refl 0) (Int.le_refl (size.columns - 1))
        exact ⟨next, (if_neg hright).trans ((if_neg hleft).trans ((if_pos hall).trans hnext)),
          hinside⟩
      · exact ⟨screen, (if_neg hright).trans ((if_neg hleft).trans (if_neg hall)), hscreen⟩
  | colors codes =>
      exact ⟨_, rfl, inBuffer_of_fields hscreen hscreen.terminated rfl rfl rfl rfl rfl⟩
  | overflow fault => exact absurd hkeeps id

theorem settle_inBuffer (hscreen : InBuffer size screen) : InBuffer size screen.settle where
  cursor := hscreen.cursor.of_eq rfl rfl
  topRow_nonneg := Int.le_max_right _ _
  topRow_le := by
    have hheight := size.rows_le
    have hwindow := hscreen.window_le
    have hbuffer : bufferRows = 26 := rfl
    have htotal : totalRows = 1026 := rfl
    change max screen.windowRow 0 + size.rows ≤ totalRows
    omega
  window_le := by
    have hwindow := hscreen.window_le
    change screen.windowRow + max (min screen.forceTopRowReserve 0) 0 + size.rows ≤ totalRows
    omega
  terminated := hscreen.terminated

/-- The rows a call scrolls by do not overflow. -/
def ScrollsInRange : ConsoleCall → Prop
  | .print _ => True
  | .scrollUp numRows => 0 ≤ numRows ∧ numRows < 2 ^ 31 - totalRows
  | .scrollDown numRows => 0 ≤ numRows ∧ numRows < 2 ^ 31 - totalRows

theorem inBuffer_topRow (hscreen : InBuffer size screen) {top : Int} (hlow : 0 ≤ top)
    (hhigh : top + size.rows ≤ totalRows) : InBuffer size { screen with topRow := top } :=
  ⟨hscreen.cursor.of_eq rfl rfl, hlow, hhigh, hscreen.window_le, hscreen.terminated⟩

theorem scrollUp_inBuffer (hscreen : InBuffer size screen) {numRows : Int}
    (hrows : 0 ≤ numRows ∧ numRows < 2 ^ 31 - totalRows) :
    InBuffer size (uiConsoleScrollUp screen numRows) := by
  have htop := hscreen.topRow_nonneg
  have htopEnd := hscreen.topRow_le
  have hheight := size.one_le_rows
  have hheightEnd := size.rows_le
  have hbuffer : bufferRows = 26 := rfl
  have htotal : totalRows = 1026 := rfl
  rw [uiConsoleScrollUp, wrap32_of_range (by omega) (by omega)]
  by_cases hfirst : screen.topRow - numRows < 0
  · rw [if_pos hfirst]
    exact inBuffer_topRow hscreen (Int.le_refl 0) (by omega)
  · rw [if_neg hfirst]
    exact inBuffer_topRow hscreen (by omega) (by omega)

theorem scrollDown_inBuffer (hscreen : InBuffer size screen) {numRows : Int}
    (hrows : 0 ≤ numRows ∧ numRows < 2 ^ 31 - totalRows) :
    InBuffer size (uiConsoleScrollDown size screen numRows) := by
  have htop := hscreen.topRow_nonneg
  have htopEnd := hscreen.topRow_le
  have hrow := hscreen.cursor.row_lt
  have htext := onText_le hscreen
  have hheight := size.one_le_rows
  have hheightEnd := size.rows_le
  have hbuffer : bufferRows = 26 := rfl
  have htotal : totalRows = 1026 := rfl
  rw [uiConsoleScrollDown, wrap32_of_range (by omega) (by omega)]
  by_cases hlast : screen.topRow + numRows >
      max (max (screen.curRow - size.rows + 1) screen.forceTopRowOnText) 0
  · rw [if_pos hlast]
    exact inBuffer_topRow hscreen (Int.le_max_right _ _) (by omega)
  · rw [if_neg hlast]
    exact inBuffer_topRow hscreen (by omega) (by omega)

theorem begin_inBuffer (before : Screen) :
    InBuffer size (uiConsoleBegin size palette before).screen where
  cursor := by
    have hwidth := size.two_le_columns
    refine ⟨Int.le_refl 0, show (0 : Int) < totalRows by decide, Int.le_refl 0, ?_⟩
    change 0 ≤ size.columns - 2
    omega
  topRow_nonneg := Int.le_refl 0
  topRow_le := by
    have hheight := size.rows_le
    have hbuffer : bufferRows = 26 := rfl
    have htotal : totalRows = 1026 := rfl
    change 0 + size.rows ≤ totalRows
    omega
  window_le := by
    have hlow := size.one_le_rows
    have hheight := size.rows_le
    have hbuffer : bufferRows = 26 := rfl
    have htotal : totalRows = 1026 := rfl
    change 0 + max (1 - size.rows) 0 + size.rows ≤ totalRows
    omega
  terminated := fun row hlow hhigh => if_pos ⟨hlow, hhigh, rfl⟩

/-! ## Drawing -/

/-- A row of the buffer is drawn up to its terminator. -/
theorem drawConsoleLine_ok (hend : Terminated size screen) {row : Int}
    (hrow : 0 ≤ row ∧ row < totalRows) {remaining : Nat} (hpos : 0 < remaining)
    (hremaining : (remaining : Int) ≤ size.columns) :
    ∃ letters, drawConsoleLine size screen row remaining = .ok letters := by
  induction remaining with
  | zero => exact absurd hpos (Nat.lt_irrefl 0)
  | succ remaining ih =>
      have hin : InConsole size row (size.columns - (remaining + 1)) :=
        ⟨hrow.1, hrow.2, by omega, by omega⟩
      rw [drawConsoleLine, if_pos hin]
      by_cases hzero : screen.text row (size.columns - (remaining + 1)) = 0
      · exact ⟨[], if_pos hzero⟩
      · have hmore : 0 < remaining := by
          apply Nat.pos_of_ne_zero
          intro hnone
          apply hzero
          rw [hnone]
          exact hend row hrow.1 hrow.2
        obtain ⟨letters, hletters⟩ := ih hmore (by omega)
        exact ⟨_, by rw [if_neg hzero, hletters]; rfl⟩

theorem drawConsoleRows_ok (hend : Terminated size screen) {remaining : Nat} {row : Int}
    (hrow : 0 ≤ row) (hremaining : row + remaining ≤ totalRows) :
    ∃ drawn, drawConsoleRows size screen remaining row = .ok drawn := by
  induction remaining generalizing row with
  | zero => exact ⟨_, rfl⟩
  | succ remaining ih =>
      have hwidth := size.two_le_columns
      obtain ⟨line, hline⟩ := drawConsoleLine_ok hend ⟨hrow, by omega⟩
        (show 0 < size.columns.toNat by omega) (by omega)
      rw [drawConsoleRows, hline]
      by_cases hcursor : row = screen.curRow
      · exact ⟨_, if_pos hcursor⟩
      · obtain ⟨drawn, hdrawn⟩ := ih (show 0 ≤ row + 1 by omega) (by omega)
        refine ⟨(line :: drawn.1, drawn.2), (if_neg hcursor).trans ?_⟩
        rw [hdrawn]
        rfl

/-- Drawing accesses no cell outside the buffer. -/
theorem drawConsoleLocked_ok (hscreen : InBuffer size screen) :
    ∃ drawn, drawConsoleLocked size screen = .ok drawn := by
  have hheight := size.one_le_rows
  have htop := hscreen.topRow_le
  obtain ⟨⟨lines, drawCursor⟩, hrows⟩ := drawConsoleRows_ok hscreen.terminated
    hscreen.topRow_nonneg (show screen.topRow + (size.rows.toNat : Int) ≤ totalRows by omega)
  rw [drawConsoleLocked, hrows]
  cases drawCursor with
  | true => exact ⟨_, if_pos hscreen.cursor.inConsole⟩
  | false => exact ⟨_, rfl⟩

/-- No call accesses a cell outside the buffer and no drawing after it does, if every action
of the session keeps the cursor in the buffer. -/
theorem session_inBuffer (before : Screen) (calls : List ConsoleCall)
    (hrange : ∀ next ∈ calls, ScrollsInRange next)
    (hkeeps : ∀ taken ∈ sessionSteps size palette (uiConsoleBegin size palette before) calls,
      KeepsCursor size taken.1 taken.2) :
    ∃ last drawn,
      calls.foldlM (call size palette) (uiConsoleBegin size palette before) = .ok last ∧
        drawConsoleLocked size last.screen = .ok drawn := by
  obtain ⟨last, hlast, hinside⟩ := session_invariant (InBuffer size) (KeepsCursor size)
    (InBuffer size) ScrollsInRange
    (fun _ _ hscreen hallowed => perform_inBuffer hscreen hallowed) (fun _ hscreen => hscreen)
    (fun _ hscreen => settle_inBuffer hscreen)
    (fun _ _ hscreen hrows => scrollUp_inBuffer hscreen hrows)
    (fun _ _ hscreen hrows => scrollDown_inBuffer hscreen hrows)
    (begin_inBuffer before) hrange hkeeps
  obtain ⟨drawn, hdrawn⟩ := drawConsoleLocked_ok hinside
  exact ⟨last, drawn, hlast, hdrawn⟩

end Buffers

/-- A count of 4294967295 is one row up for a sequence that only looks at the lower end. -/
theorem cursorDown_leaves_buffer :
    failureOf (uiConsolePrint .smallest .default
      (uiConsoleBegin .smallest .default .initial)
      (escape :: ascii "[4294967295Bx")) = some .textAccess := by
  with_unfolding_all decide

theorem session_inBuffer_scrolls :
    ∃ last drawn,
      [ConsoleCall.print (ascii "a\nb" ++ escape :: ascii "[A"), .scrollUp 1, .scrollDown 8].foldlM
          (call .smallest .default)
          (uiConsoleBegin .smallest .default .initial) =
        .ok last ∧
      drawConsoleLocked .smallest last.screen = .ok drawn :=
  session_inBuffer .initial _
    (by simp [ScrollsInRange, totalRows, bufferRows])
    (forall_mem_of_all (by decide))

/-! ## The window -/

/-- The cursor is in the window to come. -/
structure InWindow (size : ScreenSize) (screen : Screen) : Prop where
  above : max screen.windowRow 0 ≤ screen.curRow
  below : screen.curRow ≤
    screen.forceTopRowOnText + size.rows - 1 + screen.forceTopRowReserve

/-- A parameter below 1000. -/
def SmallCount (count : Int32) : Prop :=
  0 ≤ count.toInt ∧ count.toInt < 1000

/-- An action of a text whose sequences fit into their buffer and have parameters below
1000. -/
def Modest : Action → Prop
  | .cursorUp count => SmallCount count
  | .cursorDown count => SmallCount count
  | .cursorRight count => SmallCount count
  | .cursorLeft count => SmallCount count
  | .cursorHome row column => SmallCount row ∧ SmallCount column
  | .overflow fault => fault = .parameters
  | _ => True

/-- What an action needs to keep the cursor in the window. -/
def KeepsWindow (size : ScreenSize) (screen : Screen) : Action → Prop
  | .putChar c =>
      KeepsWindowInside size screen c ∧
        (BacksUp screen c → max screen.windowRow 0 ≤ screen.curRow - 1)
  | .cursorUp count => 0 ≤ screen.forceTopRowOnText ∨ count.toInt ≤ screen.curRow
  | .cursorDown _ => 0 < screen.forceTopRowOnText + size.rows
  | .overflow _ => False
  | _ => True

instance (count : Int32) : Decidable (SmallCount count) := by
  unfold SmallCount
  infer_instance

instance (action : Action) : Decidable (Modest action) := by
  cases action <;> unfold Modest <;> infer_instance

instance (size : ScreenSize) (screen : Screen) (action : Action) :
    Decidable (KeepsWindow size screen action) := by
  cases action <;> unfold KeepsWindow <;> infer_instance

section Window

variable {size : ScreenSize} {palette : Palette} {screen : Screen}

/-- With such parameters only the window can be left. -/
theorem keepsCursor_of_keepsWindow
    (hscreen : InBuffer size screen) {action : Action} (hmodest : Modest action)
    (hkeeps : KeepsWindow size screen action) : KeepsCursor size screen action := by
  have hrow := hscreen.cursor.row_nonneg
  have hrowEnd := hscreen.cursor.row_lt
  have hcolumn := hscreen.cursor.column_nonneg
  have hcolumnEnd := hscreen.cursor.column_le
  have htop := hscreen.topRow_nonneg
  have hwidthEnd := size.columns_le
  have htotal : totalRows = 1026 := rfl
  have hmax : maxColumns = 100 := rfl
  cases action with
  | putChar c => exact hkeeps.1
  | cursorUp count =>
      obtain ⟨hlow, hhigh⟩ := hmodest
      exact ⟨by omega, hkeeps⟩
  | cursorDown count =>
      obtain ⟨hlow, hhigh⟩ := hmodest
      exact ⟨by omega, by omega, hkeeps⟩
  | cursorRight count =>
      obtain ⟨hlow, hhigh⟩ := hmodest
      exact ⟨by omega, by omega⟩
  | cursorLeft count =>
      obtain ⟨hlow, hhigh⟩ := hmodest
      change screen.curColumn - count.toInt ≤ size.columns - 2
      omega
  | cursorHome row column =>
      obtain ⟨⟨hlow, hhigh⟩, hleft, hright⟩ := hmodest
      exact ⟨by omega, hleft⟩
  | clearBelow => trivial
  | clearLine mode => trivial
  | colors codes => trivial
  | overflow fault => exact hkeeps

theorem InWindow.of_eq
    {next : Screen} (hscreen : InWindow size screen) (hrow : next.curRow = screen.curRow)
    (htext : next.forceTopRowOnText = screen.forceTopRowOnText)
    (hreserve : next.forceTopRowReserve = screen.forceTopRowReserve) : InWindow size next := by
  obtain ⟨habove, hbelow⟩ := hscreen
  rw [Screen.windowRow, ← hrow, ← htext, ← hreserve] at habove
  rw [← hrow, ← htext, ← hreserve] at hbelow
  exact ⟨habove, hbelow⟩

/-- A cursor sequence restores the relation between the row and the counters. -/
theorem inWindow_of_row {row column top : Int} (hlow : 0 ≤ row) (htop : top ≤ row) :
    InWindow size { screen with
      curRow := row
      curColumn := column
      forceTopRowOnText := top
      forceTopRowReserve := reserveFor size top row } where
  above := by
    have hheight := size.one_le_rows
    rw [Screen.windowRow, reserveFor]
    dsimp only
    omega
  below := by
    rw [reserveFor]
    dsimp only
    omega

theorem putChar_inWindow
    (hscreen : InBuffer size screen) (hwindow : InWindow size screen) {c : UInt8}
    (hback : BacksUp screen c → max screen.windowRow 0 ≤ screen.curRow - 1) {next : Screen}
    (hnext : consolePutChar size screen c = .ok next) : InWindow size next := by
  obtain ⟨moved, hmoved, hend, -, htext, -, -, hrows⟩ :=
    putLetter_cases hscreen.cursor hscreen.terminated c
  obtain ⟨-, -, -, hshiftReserve, hshiftRows⟩ := shiftRows_cases hend
  have hshifted : next = shiftRows size moved := by
    rw [consolePutChar, hmoved] at hnext
    exact (Except.ok.inj hnext).symm
  have hrow := hscreen.cursor.row_nonneg
  have hrowEnd := hscreen.cursor.row_lt
  have hheight := size.one_le_rows
  have hheightEnd := size.rows_le
  have hbuffer : bufferRows = 26 := rfl
  have htotal : totalRows = 1026 := rfl
  obtain ⟨habove, hbelow⟩ := hwindow
  rw [Screen.windowRow] at habove hback
  have hmovedWindow : max (moved.forceTopRowOnText + max moved.forceTopRowReserve 0) 0 ≤ moved.curRow ∧
      moved.curRow ≤ moved.forceTopRowOnText + size.rows - 1 + moved.forceTopRowReserve := by
    rcases hrows with ⟨-, hnew, hreserve⟩ | ⟨hnew, hreserve⟩ | ⟨hup, hnew, hreserve⟩
    · omega
    · omega
    · have hfits := hback hup
      omega
  rw [hshifted]
  constructor
  · rw [Screen.windowRow, hshiftReserve]
    rcases hshiftRows with ⟨hfull, hshiftRow, hshiftText⟩ | ⟨-, hshiftRow, hshiftText⟩ <;> omega
  · rw [hshiftReserve]
    rcases hshiftRows with ⟨hfull, hshiftRow, hshiftText⟩ | ⟨-, hshiftRow, hshiftText⟩ <;> omega

/-- Every action keeps the cursor in the window unless it sends it out of it. -/
theorem perform_inWindow
    (hscreen : InBuffer size screen) (hwindow : InWindow size screen) {action : Action}
    (hmodest : Modest action) (hkeeps : KeepsWindow size screen action) {next : Screen}
    (hnext : perform size palette screen action = .ok next) : InWindow size next := by
  have hrow := hscreen.cursor.row_nonneg
  have hrowEnd := hscreen.cursor.row_lt
  have hheight := size.one_le_rows
  have htop := hscreen.topRow_nonneg
  have htotal : totalRows = 1026 := rfl
  have htext : screen.forceTopRowOnText ≤ screen.curRow := by
    have habove := hwindow.above
    rw [Screen.windowRow] at habove
    omega
  have hfill : ∀ first stop filled, 0 ≤ first → stop ≤ size.columns - 1 →
      fillCells size screen screen.curRow first stop (some .black) = .ok filled →
        InWindow size filled := by
    intro first stop filled hfirst hstop hfilled
    obtain ⟨other, hother, -, hsame, -, -, hsameText, hsameReserve⟩ :=
      fillCells_ok (some .black) ⟨hrow, hrowEnd⟩ hfirst hstop hscreen.terminated
    rw [hfilled] at hother
    cases hother
    exact hwindow.of_eq hsame hsameText hsameReserve
  have hcolumn := hscreen.cursor.column_nonneg
  have hcolumnEnd := hscreen.cursor.column_le
  cases action with
  | putChar c => exact putChar_inWindow hscreen hwindow hkeeps.2 hnext
  | cursorUp count =>
      obtain ⟨hlow, hhigh⟩ := hmodest
      rw [KeepsWindow] at hkeeps
      cases hnext
      have hrange : wrap32 (screen.curRow - count.toInt) = screen.curRow - count.toInt :=
        wrap32_of_range (by omega) (by omega)
      apply inWindow_of_row
      · rw [hrange]
        omega
      · exact Int.le_max_right _ _
  | cursorDown count =>
      obtain ⟨hlow, hhigh⟩ := hmodest
      rw [KeepsWindow] at hkeeps
      cases hnext
      have hrange : wrap32 (screen.curRow + count.toInt) = screen.curRow + count.toInt :=
        wrap32_of_range (by omega) (by omega)
      apply inWindow_of_row
      · rw [hrange]
        omega
      · rw [hrange]
        omega
  | cursorRight count =>
      cases hnext
      exact hwindow.of_eq rfl rfl rfl
  | cursorLeft count =>
      cases hnext
      exact hwindow.of_eq rfl rfl rfl
  | cursorHome row column =>
      obtain ⟨⟨hlow, hhigh⟩, -⟩ := hmodest
      cases hnext
      apply inWindow_of_row
      · omega
      · omega
  | clearBelow =>
      obtain ⟨filled, hfilled, -⟩ := fillCells_inBuffer hscreen (some .black) hcolumn
        (Int.le_refl (size.columns - 1))
      have hcleared := hfill _ _ _ hcolumn (Int.le_refl _) hfilled
      have hblank : next = blankRows size filled (screen.curRow + 1) := by
        rw [perform, hfilled] at hnext
        exact (Except.ok.inj ((if_neg (by omega)).symm.trans hnext)).symm
      rw [hblank]
      exact hcleared.of_eq rfl rfl rfl
  | clearLine mode =>
      rw [perform] at hnext
      by_cases hright : mode = 0
      · rw [if_pos hright] at hnext
        exact hfill _ _ _ hcolumn (Int.le_refl _) hnext
      rw [if_neg hright] at hnext
      by_cases hleft : mode = 1
      · rw [if_pos hleft] at hnext
        exact hfill _ _ _ (Int.le_refl 0) (by omega) hnext
      rw [if_neg hleft] at hnext
      by_cases hall : mode = 2
      · rw [if_pos hall] at hnext
        exact hfill _ _ _ (Int.le_refl 0) (Int.le_refl _) hnext
      · rw [if_neg hall] at hnext
        cases hnext
        exact hwindow
  | colors codes =>
      cases hnext
      exact hwindow.of_eq rfl rfl rfl
  | overflow fault => exact absurd hkeeps id

/-- The positions the claims about complete calls speak of. -/
structure CursorOnScreen (size : ScreenSize) (screen : Screen) : Prop where
  topRow_nonneg : 0 ≤ screen.topRow
  topRow_le : screen.topRow ≤ screen.curRow
  row_lt : screen.curRow < screen.topRow + size.rows
  window_le : screen.topRow + size.rows ≤ totalRows
  column_nonneg : 0 ≤ screen.curColumn
  column_le : screen.curColumn ≤ size.columns - 2

/-- Between two calls. -/
structure WindowSettled (size : ScreenSize) (screen : Screen) : Prop where
  buffer : InBuffer size screen
  window : InWindow size screen
  topRow : screen.topRow = max screen.windowRow 0

theorem WindowSettled.cursorOnScreen (hscreen : WindowSettled size screen) :
    CursorOnScreen size screen where
  topRow_nonneg := hscreen.buffer.topRow_nonneg
  topRow_le := by
    rw [hscreen.topRow]
    exact hscreen.window.above
  row_lt := by
    have htop := hscreen.topRow
    have hbelow := hscreen.window.below
    rw [Screen.windowRow] at htop
    omega
  window_le := hscreen.buffer.topRow_le
  column_nonneg := hscreen.buffer.cursor.column_nonneg
  column_le := hscreen.buffer.cursor.column_le

theorem settle_windowSettled (hscreen : InBuffer size screen) (hwindow : InWindow size screen) :
    WindowSettled size screen.settle where
  buffer := settle_inBuffer hscreen
  window := by
    obtain ⟨habove, hbelow⟩ := hwindow
    rw [Screen.windowRow] at habove
    constructor
    · rw [Screen.windowRow, Screen.settle]
      dsimp only
      omega
    · rw [Screen.settle]
      dsimp only
      omega
  topRow := by
    rw [Screen.windowRow, Screen.settle]
    dsimp only
    omega

theorem begin_windowSettled (before : Screen) :
    WindowSettled size (uiConsoleBegin size palette before).screen where
  buffer := begin_inBuffer before
  window := by
    have hheight := size.one_le_rows
    constructor
    · change max (0 + max (1 - size.rows) 0) 0 ≤ 0
      omega
    · change 0 ≤ 0 + size.rows - 1 + (1 - size.rows)
      omega
  topRow := by
    have hheight := size.one_le_rows
    change 0 = max (0 + max (1 - size.rows) 0) 0
    omega

/-- Every print leaves the cursor on the screen, if no action of the session sends it out of
the window. -/
theorem prints_cursorOnScreen
    (before : Screen) (texts : List Bytes)
    (hmodest : ∀ taken ∈ sessionSteps size palette (uiConsoleBegin size palette before)
      (texts.map .print), Modest taken.2)
    (hkeeps : ∀ taken ∈ sessionSteps size palette (uiConsoleBegin size palette before)
      (texts.map .print), KeepsWindow size taken.1 taken.2) :
    ∃ last,
      (texts.map .print).foldlM (call size palette) (uiConsoleBegin size palette before) =
        .ok last ∧ CursorOnScreen size last.screen := by
  obtain ⟨last, hlast, hsettled⟩ := session_invariant
    (fun screen => InBuffer size screen ∧ InWindow size screen)
    (fun screen action => Modest action ∧ KeepsWindow size screen action)
    (WindowSettled size) (fun next => ∃ text, next = .print text)
    (fun screen action hscreen hallowed => by
      have hperform : ∃ next, perform size palette screen action = .ok next ∧ InBuffer size next :=
        perform_inBuffer hscreen.1 (keepsCursor_of_keepsWindow hscreen.1 hallowed.1 hallowed.2)
      obtain ⟨next, hnext, hbuffer⟩ := hperform
      exact ⟨next, hnext, hbuffer,
        perform_inWindow hscreen.1 hscreen.2 hallowed.1 hallowed.2 hnext⟩)
    (fun _ hscreen => ⟨hscreen.buffer, hscreen.window⟩)
    (fun _ hscreen => settle_windowSettled hscreen.1 hscreen.2)
    (fun _ _ _ ⟨_, hnone⟩ => nomatch hnone)
    (fun _ _ _ ⟨_, hnone⟩ => nomatch hnone)
    (begin_windowSettled before)
    (fun next hnext => by
      obtain ⟨text, -, rfl⟩ := List.mem_map.mp hnext
      exact ⟨text, rfl⟩)
    (fun taken htaken => ⟨hmodest taken htaken, hkeeps taken htaken⟩)
  exact ⟨last, hlast, hsettled.cursorOnScreen⟩

end Window

/-- A backspace in the first column leaves the window behind. -/
theorem backspace_leaves_window :
    ((uiConsolePrint .smallest .default
      (uiConsoleBegin .smallest .default .initial)
      [newline, backspace]).map fun console =>
        (console.screen.topRow, console.screen.curRow)).toOption = some (1, 0) := by
  decide

theorem prints_cursorOnScreen_text :
    ∃ last,
      ([ascii "ab\n", escape :: ascii "[1Ac"].map ConsoleCall.print).foldlM
          (call .smallest .default)
          (uiConsoleBegin .smallest .default .initial) =
        .ok last ∧
      CursorOnScreen .smallest last.screen :=
  prints_cursorOnScreen .initial _ (forall_mem_of_all (by with_unfolding_all decide))
    (forall_mem_of_all (by with_unfolding_all decide))

end OpenRecovery.Terminal
