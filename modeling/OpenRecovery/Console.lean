import OpenRecovery.FallibleRuns
import OpenRecovery.RecoveryArgs
import OpenRecovery.Words
import Mathlib

/-!
# The console

The terminal emulator of `ui.c`: a buffer of text rows with a colour for every cell, a cursor,
the top row of the window and the two counters from which the window is moved at the end of a
print.  Escape sequences are collected byte by byte and then turned into actions; an action
that accesses a cell outside the buffer is a fault.
-/

namespace OpenRecovery.Terminal

open Effects Words

/-! ## State -/

/-- `CONSOLE_BUFFER_ROWS`: the rows a full buffer is shifted by. -/
def bufferRows : Int := 26

/-- `CONSOLE_TOTAL_ROWS`. -/
def totalRows : Int := 1000 + bufferRows

/-- `CONSOLE_MAX_COLUMNS`. -/
def maxColumns : Int := 100

/-- A `color24`. -/
structure Color where
  red : UInt8
  green : UInt8
  blue : UInt8
  deriving DecidableEq

def Color.black : Color := ⟨0, 0, 0⟩

/-- The front colour and the sixteen terminal colours of the theme. -/
structure Palette where
  front : Color
  term : Nat → Color

/-- The colours of the source, before a theme is read. -/
def Palette.default : Palette where
  front := ⟨229, 229, 229⟩
  term := fun index =>
    [⟨0, 0, 0⟩, ⟨205, 0, 0⟩, ⟨0, 205, 0⟩, ⟨205, 205, 0⟩, ⟨0, 0, 238⟩, ⟨205, 0, 205⟩,
      ⟨0, 205, 205⟩, ⟨229, 229, 229⟩, ⟨127, 127, 127⟩, ⟨255, 0, 0⟩, ⟨0, 255, 0⟩,
      ⟨255, 255, 0⟩, ⟨92, 91, 255⟩, ⟨255, 0, 255⟩, ⟨0, 255, 255⟩, ⟨255, 255, 255⟩].getD index
      .black

/-- Rows of the screen and columns of it with the terminator, which the buffer has place for. -/
structure ScreenDimensions where
  rows : Int
  columns : Int
  one_le_columns : 1 ≤ columns
  columns_le : columns ≤ maxColumns

/-- A screen that has a column for letters and no more rows than the buffer is shifted by. -/
structure ScreenSize extends ScreenDimensions where
  one_le_rows : 1 ≤ rows
  rows_le : rows ≤ bufferRows
  two_le_columns : 2 ≤ columns

instance : Coe ScreenSize ScreenDimensions :=
  ⟨ScreenSize.toScreenDimensions⟩

def ScreenSize.smallest : ScreenSize where
  rows := 1
  columns := 2
  one_le_columns := by decide
  columns_le := by decide
  one_le_rows := by decide
  rows_le := by decide
  two_le_columns := by decide

abbrev ScreenDimensions.smallest : ScreenDimensions :=
  ScreenSize.smallest.toScreenDimensions

structure Screen where
  text : Int → Int → UInt8
  textColor : Int → Int → Color
  currentColor : Color
  topRow : Int
  forceTopRowOnText : Int
  forceTopRowReserve : Int
  curRow : Int
  curColumn : Int

/-- The static variables before the first session. -/
def Screen.initial : Screen where
  text := fun _ _ => 0
  textColor := fun _ _ => .black
  currentColor := .black
  topRow := 0
  forceTopRowOnText := 0
  forceTopRowReserve := 0
  curRow := 0
  curColumn := 0

/-- The screen and the bytes of an escape sequence that is not complete yet. -/
structure Console where
  screen : Screen
  escaped : Option Bytes

/-- What must not happen: an access outside the text and colour buffers, of a parameter of an
escape sequence that has no place, or behind the buffer of a sequence. -/
inductive Fault where
  | textAccess
  | parameters
  | escapedBuffer
  deriving DecidableEq

/-! ## Cells -/

def InConsole (size : ScreenDimensions) (row column : Int) : Prop :=
  0 ≤ row ∧ row < totalRows ∧ 0 ≤ column ∧ column < size.columns

instance (size : ScreenDimensions) (row column : Int) : Decidable (InConsole size row column) := by
  unfold InConsole
  infer_instance

def space : UInt8 := 32

/-- A loop that writes blanks to the cells of a row from one column to before another, and a
colour to each of them if there is one. -/
def fillCells (size : ScreenDimensions) (screen : Screen) (row first stop : Int)
    (color : Option Color) : Except Fault Screen :=
  if first < stop then
    if InConsole size row first ∧ InConsole size row (stop - 1) then
      .ok { screen with
        text := fun i j => if i = row ∧ first ≤ j ∧ j < stop then space else screen.text i j
        textColor := fun i j =>
          if i = row ∧ first ≤ j ∧ j < stop then color.getD (screen.textColor i j)
          else screen.textColor i j }
    else .error .textAccess
  else .ok screen

/-- The text of a row without letters. -/
def blankText (size : ScreenDimensions) (column : Int) : UInt8 :=
  if column = size.columns - 1 then 0 else space

/-- The rows from one on without letters. -/
def blankRows (size : ScreenDimensions) (screen : Screen) (first : Int) : Screen :=
  { screen with
    text := fun i j =>
      if first ≤ i ∧ i < totalRows ∧ 0 ≤ j ∧ j < size.columns then blankText size j
      else screen.text i j
    textColor := fun i j =>
      if first ≤ i ∧ i < totalRows ∧ 0 ≤ j ∧ j < size.columns then .black
      else screen.textColor i j }

/-! ## Letters -/

def bell : UInt8 := 7

def backspace : UInt8 := 8

def tab : UInt8 := 9

def escape : UInt8 := 27

/-- The cursor goes a row down. -/
def Screen.nextRow (screen : Screen) : Screen :=
  { screen with
    curRow := screen.curRow + 1
    forceTopRowReserve := screen.forceTopRowReserve + 1 }

/-- The end of `console_put_char`: a full buffer loses its first rows. -/
def shiftRows (size : ScreenDimensions) (screen : Screen) : Screen :=
  if screen.curRow = totalRows then
    let shift := screen.curRow - (totalRows - bufferRows)
    let copied : Screen :=
      { screen with
        text := fun i j =>
          if 0 ≤ i ∧ i < totalRows - bufferRows ∧ 0 ≤ j ∧ j < size.columns then
            screen.text (i + shift) j
          else screen.text i j
        textColor := fun i j =>
          if 0 ≤ i ∧ i < totalRows - bufferRows ∧ 0 ≤ j ∧ j < size.columns then
            screen.textColor (i + shift) j
          else screen.textColor i j }
    { blankRows size copied (totalRows - bufferRows) with
      curRow := screen.curRow - shift
      forceTopRowOnText := screen.forceTopRowOnText - shift }
  else screen

/-- The switch of `console_put_char`. -/
def putLetter (size : ScreenDimensions) (screen : Screen) (c : UInt8) : Except Fault Screen :=
  if c = newline then .ok screen.nextRow
  else if c = carriageReturn then .ok { screen with curColumn := 0 }
  else if c = tab then
    let stop := screen.curColumn + (5 - screen.curColumn.tmod 5)
    if stop ≥ size.columns - 2 then do
      let filled ← fillCells size screen screen.curRow screen.curColumn (size.columns - 1) none
      .ok { filled with curColumn := 0 }.nextRow
    else do
      let filled ← fillCells size screen screen.curRow screen.curColumn stop none
      .ok { filled with curColumn := stop }
  else if c = backspace then
    if screen.curColumn = 0 then
      if screen.curRow = 0 then .ok screen
      else .ok { screen with curColumn := size.columns - 2, curRow := screen.curRow - 1 }
    else .ok { screen with curColumn := screen.curColumn - 1 }
  else if c = bell then .ok screen
  else if InConsole size screen.curRow screen.curColumn then
    let written : Screen :=
      { screen with
        text := fun i j =>
          if i = screen.curRow ∧ j = screen.curColumn then c else screen.text i j
        textColor := fun i j =>
          if i = screen.curRow ∧ j = screen.curColumn then screen.currentColor
          else screen.textColor i j
        curColumn := screen.curColumn + 1 }
    if written.curColumn > size.columns - 2 then .ok { written with curColumn := 0 }.nextRow
    else .ok written
  else .error .textAccess

def consolePutChar (size : ScreenDimensions) (screen : Screen) (c : UInt8) : Except Fault Screen :=
  (putLetter size screen c).map (shiftRows size)

/-! ## Escape sequences -/

/-- What `console_unescape` counts and collects in a sequence. -/
structure EscapeSequence where
  noSqrBrackets : Nat := 0
  noRoundBracketsLeft : Nat := 0
  noRoundBracketsRight : Nat := 0
  noQuestionMarks : Nat := 0
  noParameters : Nat := 0
  parameters : List Int32 := List.replicate 32 0
  argument : UInt8 := 0

def isDigit (c : UInt8) : Bool := 48 ≤ c ∧ c ≤ 57

def parseEscape : Bytes → EscapeSequence → EscapeSequence
  | [], sequence => sequence
  | c :: rest, sequence =>
      if c = 91 then
        parseEscape rest { sequence with noSqrBrackets := sequence.noSqrBrackets + 1 }
      else if c = 40 then
        parseEscape rest { sequence with noRoundBracketsLeft := sequence.noRoundBracketsLeft + 1 }
      else if c = 41 then
        parseEscape rest
          { sequence with noRoundBracketsRight := sequence.noRoundBracketsRight + 1 }
      else if c = 63 then
        parseEscape rest { sequence with noQuestionMarks := sequence.noQuestionMarks + 1 }
      else if c = 59 then
        parseEscape rest { sequence with noParameters := sequence.noParameters + 1 }
      else if isDigit c then
        parseEscape rest
          { sequence with
            parameters := sequence.parameters.modify sequence.noParameters fun value =>
              value * 10 + Int32.ofNat (c.toNat - 48) }
      else { sequence with argument := c }

/-- What a byte of the output does to the screen. -/
inductive Action where
  | putChar (c : UInt8)
  | cursorUp (count : Int32)
  | cursorDown (count : Int32)
  | cursorRight (count : Int32)
  | cursorLeft (count : Int32)
  | cursorHome (row column : Int32)
  | clearBelow
  | clearLine (mode : Int32)
  | colors (codes : List Int32)
  | overflow (fault : Fault)
  deriving DecidableEq

/-- The sequence as text. -/
def escapeText (buffer : Bytes) : List Action :=
  .putChar 94 :: buffer.map .putChar

/-- The parser of `console_unescape` and the choice between its cases. -/
def consoleUnescape (buffer : Bytes) : List Action :=
  let sequence := parseEscape buffer {}
  let count := sequence.parameters.getD 0 0
  if 32 ≤ sequence.noParameters then [.overflow .parameters]
  else if sequence.noSqrBrackets = 1 ∧ sequence.noRoundBracketsLeft = 0 ∧
      sequence.noRoundBracketsRight = 0 ∧ sequence.noQuestionMarks = 0 then
    if sequence.argument = 65 then [.cursorUp count]
    else if sequence.argument = 66 then [.cursorDown count]
    else if sequence.argument = 67 then [.cursorRight count]
    else if sequence.argument = 68 then [.cursorLeft count]
    else if sequence.argument = 72 then [.cursorHome count (sequence.parameters.getD 1 0)]
    else if sequence.argument = 74 then [.clearBelow]
    else if sequence.argument = 75 then [.clearLine count]
    else if sequence.argument = 109 then
      [.colors (sequence.parameters.take (sequence.noParameters + 1))]
    else escapeText buffer
  else escapeText buffer

/-- A byte that does not end a sequence. -/
def isEscapePart (c : UInt8) : Bool :=
  c = 91 ∨ c = 40 ∨ c = 63 ∨ c = 41 ∨ c = 59 ∨ isDigit c

/-- Size of `console_escaped_buffer`. -/
def escapedBuffer : Nat := 64

def consolePutEscapeSequence (pending : Bytes) (c : UInt8) : List Action × Option Bytes :=
  if isEscapePart c then
    if pending.length < escapedBuffer then ([], some (pending ++ [c]))
    else ([.overflow .escapedBuffer], some pending)
  else if pending.length + 1 < escapedBuffer then (consoleUnescape (pending ++ [c]), none)
  else ([.overflow .escapedBuffer], none)

/-- The body of the loop of `ui_console_print`. -/
def consoleByte (escaped : Option Bytes) (c : UInt8) : List Action × Option Bytes :=
  if c = escape then ([], some [])
  else
    match escaped with
    | none => ([.putChar c], none)
    | some pending => consolePutEscapeSequence pending c

/-! ## Actions -/

/-- `console_force_top_row_reserve` after a cursor sequence. -/
def reserveFor (size : ScreenDimensions) (top row : Int) : Int :=
  1 - (top + size.rows - row)

/-- `console_set_front_term_color` and the cases of `m` around it. -/
def setColor (palette : Palette) (color : Color) (code : Int32) : Color :=
  if code = 0 ∨ code = 39 then palette.front
  else if 30 ≤ code ∧ code < 37 then palette.term (code - 30).toNatClampNeg
  else if 90 ≤ code ∧ code < 97 then palette.term (code - 90 + 8).toNatClampNeg
  else color

/-- The cases of the switch of `console_unescape`. -/
def perform (size : ScreenDimensions) (palette : Palette) (screen : Screen) :
    Action → Except Fault Screen
  | .putChar c => consolePutChar size screen c
  | .cursorUp count =>
      let row := max (wrap32 (screen.curRow - count.toInt)) screen.forceTopRowOnText
      .ok { screen with
        curRow := row
        forceTopRowReserve := reserveFor size screen.forceTopRowOnText row }
  | .cursorDown count =>
      let row := min (wrap32 (screen.curRow + count.toInt))
        (screen.forceTopRowOnText + size.rows - 1)
      .ok { screen with
        curRow := row
        forceTopRowReserve := reserveFor size screen.forceTopRowOnText row }
  | .cursorRight count =>
      .ok { screen with
        curColumn := min (wrap32 (screen.curColumn + count.toInt)) (size.columns - 2) }
  | .cursorLeft count =>
      .ok { screen with curColumn := max (wrap32 (screen.curColumn - count.toInt)) 0 }
  | .cursorHome row column =>
      let curRow := screen.topRow + min row.toInt (size.rows - 1)
      .ok { screen with
        curRow := curRow
        curColumn := min column.toInt (size.columns - 2)
        forceTopRowOnText := screen.topRow
        forceTopRowReserve := reserveFor size screen.topRow curRow }
  | .clearBelow => do
      let cleared ← fillCells size screen screen.curRow screen.curColumn (size.columns - 1)
        (some .black)
      if screen.curRow + 1 < 0 then .error .textAccess
      else .ok (blankRows size cleared (screen.curRow + 1))
  | .clearLine mode =>
      if mode = 0 then
        fillCells size screen screen.curRow screen.curColumn (size.columns - 1) (some .black)
      else if mode = 1 then
        fillCells size screen screen.curRow 0 (screen.curColumn + 1) (some .black)
      else if mode = 2 then
        fillCells size screen screen.curRow 0 (size.columns - 1) (some .black)
      else .ok screen
  | .colors codes =>
      .ok { screen with currentColor := codes.foldl (setColor palette) screen.currentColor }
  | .overflow fault => .error fault

/-! ## Calls -/

/-- The loop of `ui_console_print`. -/
def feed (size : ScreenDimensions) (palette : Palette) (console : Console) (c : UInt8) :
    Except Fault Console := do
  let screen ← (consoleByte console.escaped c).1.foldlM (perform size palette) console.screen
  .ok ⟨screen, (consoleByte console.escaped c).2⟩

/-- The window follows the text at the end of a print. -/
def Screen.settle (screen : Screen) : Screen :=
  let onText := screen.forceTopRowOnText + max screen.forceTopRowReserve 0
  { screen with
    forceTopRowOnText := onText
    forceTopRowReserve := min screen.forceTopRowReserve 0
    topRow := max onText 0 }

/-- `ui_console_print` on the bytes of a string, apart from drawing. -/
def uiConsolePrint (size : ScreenDimensions) (palette : Palette) (console : Console) (text : Bytes) :
    Except Fault Console := do
  let fed ← text.foldlM (feed size palette) console
  .ok { fed with screen := fed.screen.settle }

/-- `ui_console_begin`: the buffers are cleared as if their rows were as long as those of the
screen, so what was in them before can stay in the last rows. -/
def uiConsoleBegin (size : ScreenDimensions) (palette : Palette) (before : Screen) : Console where
  screen :=
    { text := fun i j =>
        if 0 ≤ i ∧ i < totalRows ∧ j = size.columns - 1 then 0
        else if i * maxColumns + j < totalRows * size.columns then space
        else before.text i j
      textColor := fun i j =>
        if i * maxColumns + j < totalRows * size.columns then .black
        else before.textColor i j
      currentColor := palette.front
      topRow := 0
      forceTopRowOnText := 0
      forceTopRowReserve := 1 - size.rows
      curRow := 0
      curColumn := 0 }
  escaped := none

def uiConsoleScrollUp (screen : Screen) (numRows : Int) : Screen :=
  if wrap32 (screen.topRow - numRows) < 0 then { screen with topRow := 0 }
  else { screen with topRow := wrap32 (screen.topRow - numRows) }

def uiConsoleScrollDown (size : ScreenDimensions) (screen : Screen) (numRows : Int) : Screen :=
  let maxRowTop := max (max (screen.curRow - size.rows + 1) screen.forceTopRowOnText) 0
  if wrap32 (screen.topRow + numRows) > maxRowTop then { screen with topRow := maxRowTop }
  else { screen with topRow := wrap32 (screen.topRow + numRows) }

inductive ConsoleCall where
  | print (text : Bytes)
  | scrollUp (numRows : Int)
  | scrollDown (numRows : Int)
  deriving DecidableEq

def call (size : ScreenDimensions) (palette : Palette) (console : Console) :
    ConsoleCall → Except Fault Console
  | .print text => uiConsolePrint size palette console text
  | .scrollUp numRows =>
      .ok { console with screen := uiConsoleScrollUp console.screen numRows }
  | .scrollDown numRows =>
      .ok { console with screen := uiConsoleScrollDown size console.screen numRows }

/-! ## Drawing -/

/-- The loop of `draw_console_line` with some columns still to come. -/
def drawConsoleLine (size : ScreenDimensions) (screen : Screen) (row : Int) :
    (remaining : Nat) → Except Fault (List (UInt8 × Color))
  | 0 => .error .textAccess
  | remaining + 1 =>
      let column := size.columns - (remaining + 1)
      if InConsole size row column then
        if screen.text row column = 0 then .ok []
        else do
          let letters ← drawConsoleLine size screen row remaining
          .ok ((screen.text row column, screen.textColor row column) :: letters)
      else .error .textAccess

/-- The loop of `draw_console_locked`, and whether it reached the row of the cursor. -/
def drawConsoleRows (size : ScreenDimensions) (screen : Screen) :
    (remaining : Nat) → (row : Int) → Except Fault (List (List (UInt8 × Color)) × Bool)
  | 0, _ => .ok ([], false)
  | remaining + 1, row => do
      let line ← drawConsoleLine size screen row size.columns.toNat
      if row = screen.curRow then .ok ([line], true)
      else do
        let (lines, drawCursor) ← drawConsoleRows size screen remaining (row + 1)
        .ok (line :: lines, drawCursor)

/-- `draw_console_locked`: the lines and the letter under the cursor. -/
def drawConsoleLocked (size : ScreenDimensions) (screen : Screen) :
    Except Fault (List (List (UInt8 × Color)) × Option UInt8) := do
  let (lines, drawCursor) ← drawConsoleRows size screen size.rows.toNat screen.topRow
  if drawCursor then
    if InConsole size screen.curRow screen.curColumn then
      .ok (lines, some (screen.text screen.curRow screen.curColumn))
    else .error .textAccess
  else .ok (lines, none)

end OpenRecovery.Terminal
