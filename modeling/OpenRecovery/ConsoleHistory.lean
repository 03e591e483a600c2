import OpenRecovery.ConsoleCuts
import Mathlib

/-!
# The lines that the console keeps

Plain output is a list of lines that only grows.  The buffer has its last lines, and a shift
of the rows drops the oldest of them.
-/

namespace OpenRecovery.Terminal

open Effects Words

/-! ## Plain output -/

/-- A printable character, or a carriage return with its line feed. -/
inductive Piece where
  | letter (c : { c : UInt8 // 32 ≤ c })
  | lineBreak

def Piece.bytes : Piece → Bytes
  | .letter c => [c.val]
  | .lineBreak => [carriageReturn, newline]

/-- The complete lines, and the one that is being written. -/
structure Layout where
  done : List Bytes
  last : Bytes

namespace Layout

def empty : Layout := ⟨[], []⟩

/-- A line ends as soon as it has the full width. -/
def add (width : Nat) (layout : Layout) : Piece → Layout
  | .letter c =>
      if layout.last.length + 1 < width then { layout with last := layout.last ++ [c.val] }
      else ⟨layout.done ++ [layout.last ++ [c.val]], []⟩
  | .lineBreak => ⟨layout.done ++ [layout.last], []⟩

def lines (layout : Layout) : List Bytes :=
  layout.done ++ [layout.last]

end Layout

/-- The output broken into lines. -/
def wrapped (width : Nat) (pieces : List Piece) : Layout :=
  pieces.foldl (Layout.add width) .empty

/-! ## The buffer -/

section Buffer

variable {size : ScreenDimensions} {screen : Screen} {layout : Layout}

def ScreenDimensions.width (size : ScreenDimensions) : Nat :=
  (size.columns - 1).toNat

/-- The row has the letters of the line and blanks behind them. -/
def ShowsLine (size : ScreenDimensions) (screen : Screen) (row : Nat) (letters : Bytes) :
    Prop :=
  ∀ column : Nat, column < size.width → screen.text row column = letters.getD column space

theorem getD_concat (rows : List Bytes) (last : Bytes) (row : Nat) :
    (rows ++ [last]).getD row [] = if row = rows.length then last else rows.getD row [] := by
  by_cases hlt : row < rows.length
  · rw [List.getD_append _ _ _ _ hlt, if_neg (by omega)]
  · rw [List.getD_append_right _ _ _ _ (not_lt.mp hlt)]
    by_cases heq : row = rows.length
    · subst heq
      rw [if_pos rfl, Nat.sub_self]
      rfl
    · have hbehind : [last].length ≤ row - rows.length := by
        change 1 ≤ _
        omega
      rw [if_neg heq, List.getD_eq_default _ _ hbehind, List.getD_eq_default _ _ (not_lt.mp hlt)]

/-- A line without letters is like none. -/
theorem getD_concat_nil (rows : List Bytes) (row : Nat) :
    (rows ++ [[]]).getD row [] = rows.getD row [] := by
  rw [getD_concat]
  split
  · rename_i heq
    rw [List.getD_eq_default _ _ heq.ge]
  · rfl

theorem getD_concat_letter (letters : Bytes) (c : UInt8) (column : Nat) :
    (letters ++ [c]).getD column space =
      if column = letters.length then c else letters.getD column space := by
  by_cases hlt : column < letters.length
  · rw [List.getD_append _ _ _ _ hlt, if_neg (by omega)]
  · rw [List.getD_append_right _ _ _ _ (not_lt.mp hlt)]
    by_cases heq : column = letters.length
    · subst heq
      rw [if_pos rfl, Nat.sub_self]
      rfl
    · have hbehind : [c].length ≤ column - letters.length := by
        change 1 ≤ _
        omega
      rw [if_neg heq, List.getD_eq_default _ _ hbehind, List.getD_eq_default _ _ (not_lt.mp hlt)]

/-- The first rows have the complete lines, the row of the cursor has the last one, and the others
are blank. -/
structure Shows (size : ScreenDimensions) (layout : Layout) (screen : Screen) : Prop where
  row_eq : screen.curRow = layout.done.length
  column_eq : screen.curColumn = layout.last.length
  short : layout.last.length < size.width ∨ layout.last = []
  line : ∀ row : Nat, (row : Int) < totalRows →
    ShowsLine size screen row (layout.lines.getD row [])

theorem width_eq (size : ScreenDimensions) : (size.width : Int) = size.columns - 1 := by
  have hcolumns := size.one_le_columns
  rw [ScreenDimensions.width]
  omega

/-- The cursor is on a cell of the buffer until the last row is full. -/
theorem Shows.inConsole (hshows : Shows size layout screen)
    (hroom : (layout.done.length : Int) < totalRows) :
    InConsole size screen.curRow screen.curColumn := by
  have hwidth := width_eq size
  have hcolumns := size.one_le_columns
  rw [hshows.row_eq, hshows.column_eq]
  refine ⟨Int.natCast_nonneg _, hroom, Int.natCast_nonneg _, ?_⟩
  rcases hshows.short with hshort | hnil
  · omega
  · rw [hnil]
    change (0 : Int) < size.columns
    omega

/-- The cursor goes to a row of blanks. -/
theorem Shows.nextRow (hline : ∀ row : Nat, (row : Int) < totalRows →
      ShowsLine size screen row (layout.lines.getD row []))
    (hrow : screen.curRow = (layout.done.length : Int) + 1) (hcolumn : screen.curColumn = 0) :
    Shows size ⟨layout.lines, []⟩ screen where
  row_eq := by
    rw [hrow, Layout.lines, List.length_append]
    rfl
  column_eq := hcolumn
  short := .inr rfl
  line := by
    intro row hlt
    rw [Layout.lines, getD_concat_nil]
    exact hline row hlt

/-- The screen with a letter on the cell of the cursor. -/
def Screen.written (screen : Screen) (c : UInt8) : Screen :=
  { screen with
    text := fun i j =>
      if i = screen.curRow ∧ j = screen.curColumn then c else screen.text i j
    textColor := fun i j =>
      if i = screen.curRow ∧ j = screen.curColumn then screen.currentColor
      else screen.textColor i j
    curColumn := screen.curColumn + 1 }

theorem putLetter_printable (size : ScreenDimensions) (screen : Screen) {c : UInt8}
    (hprintable : 32 ≤ c) :
    putLetter size screen c =
      if InConsole size screen.curRow screen.curColumn then
        if screen.curColumn + 1 > size.columns - 2 then
          .ok { screen.written c with curColumn := 0 }.nextRow
        else .ok (screen.written c)
      else .error .textAccess := by
  have hcontrol : ∀ control : UInt8, control < 32 → ¬c = control := by
    rintro control hlow rfl
    exact absurd hprintable (UInt8.not_le.mpr hlow)
  rw [putLetter, if_neg (hcontrol newline (by decide)), if_neg (hcontrol carriageReturn (by decide)),
    if_neg (hcontrol tab (by decide)), if_neg (hcontrol backspace (by decide)),
    if_neg (hcontrol bell (by decide))]
  rfl

/-- A letter goes to the end of the last line. -/
theorem Shows.letter (hshows : Shows size layout screen)
    (hroom : (layout.done.length : Int) < totalRows) (c : { c : UInt8 // 32 ≤ c }) :
    ∃ next, putLetter size screen c.val = .ok next ∧
      Shows size (layout.add size.width (.letter c)) next := by
  obtain ⟨c, hprintable⟩ := c
  have hin := hshows.inConsole hroom
  have hwidth := width_eq size
  have hrow := hshows.row_eq
  have hcolumn := hshows.column_eq
  have hlines : ∀ row : Nat, (row : Int) < totalRows → ∀ column : Nat, column < size.width →
      (if (row : Int) = screen.curRow ∧ (column : Int) = screen.curColumn then c
        else screen.text row column) =
          ((layout.done ++ [layout.last ++ [c]]).getD row []).getD column space := by
    intro row hlt column hin
    have hold := hshows.line row hlt column hin
    rw [Layout.lines, getD_concat] at hold
    rw [getD_concat]
    by_cases hlast : row = layout.done.length
    · rw [if_pos hlast] at hold ⊢
      rw [getD_concat_letter, ← hold, hrow, hcolumn]
      by_cases hend : column = layout.last.length
      · rw [if_pos hend, if_pos ⟨by rw [hlast], by rw [hend]⟩]
      · rw [if_neg hend, if_neg (by omega)]
    · rw [if_neg hlast] at hold ⊢
      rw [← hold, hrow, if_neg (by omega)]
  rw [putLetter_printable size screen hprintable, if_pos hin, Layout.add]
  by_cases hshort : layout.last.length + 1 < size.width
  · rw [if_pos hshort]
    refine ⟨_, if_neg ?_, ⟨hrow, ?_, .inl ?_, hlines⟩⟩
    · omega
    · change screen.curColumn + 1 = _
      rw [hcolumn, List.length_append]
      rfl
    · rwa [List.length_append]
  · rw [if_neg hshort]
    refine ⟨_, if_pos ?_, @Shows.nextRow _ _ ⟨layout.done, layout.last ++ [c]⟩ hlines ?_ rfl⟩
    · omega
    · change screen.curRow + 1 = _
      rw [hrow]

/-- The first lines are forgotten. -/
def Layout.forget (count : Nat) (layout : Layout) : Layout :=
  ⟨layout.done.drop count, layout.last⟩

theorem lines_forget {count : Nat} (hcount : count ≤ layout.done.length) :
    (layout.forget count).lines = layout.lines.drop count := by
  rw [Layout.lines, Layout.lines, Layout.forget, List.drop_append_of_le_length hcount]

theorem length_lines_forget (layout : Layout) (count : Nat) :
    (layout.forget count).lines.length = layout.done.length - count + 1 := by
  rw [Layout.lines, List.length_append, Layout.forget, List.length_drop]
  rfl

theorem shiftRows_cells (hfull : screen.curRow = totalRows) {row column : Int}
    (hrow : 0 ≤ row ∧ row < totalRows - bufferRows) (hcolumn : 0 ≤ column ∧ column < size.columns) :
    (shiftRows size screen).text row column = screen.text (row + bufferRows) column ∧
      (shiftRows size screen).textColor row column =
        screen.textColor (row + bufferRows) column := by
  have hshift : screen.curRow - (totalRows - bufferRows) = bufferRows := by
    rw [hfull]
    omega
  have hold : 0 ≤ row ∧ row < totalRows - bufferRows ∧ 0 ≤ column ∧ column < size.columns :=
    ⟨hrow.1, hrow.2, hcolumn⟩
  have hnew : ¬(totalRows - bufferRows ≤ row ∧ row < totalRows ∧ 0 ≤ column ∧
      column < size.columns) := by omega
  rw [shiftRows, if_pos hfull]
  simp only [blankRows, hshift]
  rw [if_neg hnew, if_neg hnew, if_pos hold, if_pos hold]
  exact ⟨rfl, rfl⟩

/-- The shift of a full buffer forgets its first lines. -/
theorem Shows.shiftRows (hshows : Shows size layout screen)
    (hroom : (layout.done.length : Int) ≤ totalRows)
    (hlast : (layout.done.length : Int) = totalRows → layout.last = []) :
    ∃ count ≤ layout.done.length, Shows size (layout.forget count) (shiftRows size screen) ∧
      ((layout.done.length - count : Nat) : Int) < totalRows ∧
      (count = 0 ∨ layout.done.length - count = 1000) := by
  have hwidth := width_eq size
  have hrow := hshows.row_eq
  by_cases hfull : screen.curRow = totalRows
  · have hlength : layout.done.length = 1026 := by
      rw [hrow] at hfull
      exact Int.ofNat.inj hfull
    refine ⟨26, by omega, ⟨?_, ?_, hshows.short, ?_⟩, ?_, .inr (by omega)⟩
    · rw [Terminal.shiftRows, if_pos hfull, Layout.forget, List.length_drop, hlength, hfull]
      rfl
    · rw [Terminal.shiftRows, if_pos hfull]
      exact hshows.column_eq
    · intro row hlt column hin
      have hlines : (layout.forget 26).lines.getD row [] = layout.lines.getD (row + 26) [] := by
        rw [lines_forget (by omega), List.getD_eq_getElem?_getD, List.getElem?_drop, Nat.add_comm,
          ← List.getD_eq_getElem?_getD]
      have htotal : totalRows = 1026 := rfl
      have hbuffer : bufferRows = 26 := rfl
      rw [hlines]
      by_cases hnew : totalRows - bufferRows ≤ (row : Int)
      · have hbehind : layout.lines.getD (row + 26) [] = [] := by
          rw [Layout.lines, getD_concat, hlast (by rw [hlength]; rfl)]
          split
          · rfl
          · exact List.getD_eq_default _ _ (by omega)
        rw [Terminal.shiftRows, if_pos hfull, hbehind]
        simp only [blankRows]
        rw [if_pos ⟨hnew, hlt, by omega, by omega⟩, blankText, if_neg (by omega)]
        rfl
      · rw [(shiftRows_cells hfull ⟨by omega, by omega⟩ ⟨by omega, by omega⟩).1]
        exact hshows.line (row + 26) (by omega) column hin
    · rw [hlength]
      decide
  · refine ⟨0, Nat.zero_le _, ?_, ?_, .inl rfl⟩
    · rwa [Terminal.shiftRows, if_neg hfull]
    · rw [Nat.sub_zero]
      omega

/-- What the buffer shows are the last of the lines, a thousand of them at least. -/
structure Keeps (size : ScreenDimensions) (layout : Layout) (screen : Screen) : Prop where
  room : screen.curRow < totalRows
  kept : ∃ count ≤ layout.done.length, Shows size (layout.forget count) screen ∧
    (count = 0 ∨ 1000 ≤ layout.done.length - count)

theorem forget_add {width count : Nat} (hcount : count ≤ layout.done.length) (piece : Piece) :
    (layout.forget count).add width piece = (layout.add width piece).forget count := by
  cases piece with
  | letter c =>
      rw [Layout.add, Layout.add]
      change (if layout.last.length + 1 < width then _ else _) = _
      split
      · rfl
      · exact congrArg (Layout.mk · []) (List.drop_append_of_le_length hcount).symm
  | lineBreak => exact congrArg (Layout.mk · []) (List.drop_append_of_le_length hcount).symm

theorem forget_forget (first second : Nat) :
    (layout.forget first).forget second = layout.forget (first + second) :=
  congrArg (Layout.mk · _) List.drop_drop

/-- A piece adds to the last line or completes it. -/
theorem add_cases (width : Nat) (layout : Layout) (piece : Piece) :
    (layout.add width piece).done.length = layout.done.length ∨
      (layout.add width piece).done.length = layout.done.length + 1 ∧
        (layout.add width piece).last = [] := by
  cases piece with
  | letter c =>
      rw [Layout.add]
      split
      · exact .inl rfl
      · exact .inr ⟨List.length_append, rfl⟩
  | lineBreak => exact .inr ⟨List.length_append, rfl⟩

/-- A piece of the output, and the shift that may follow it. -/
theorem Keeps.step {next : Screen} {piece : Piece} {count : Nat}
    (hcount : count ≤ layout.done.length)
    (hkept : count = 0 ∨ 1000 ≤ layout.done.length - count)
    (hroom : ((layout.forget count).done.length : Int) < totalRows)
    (hshows : Shows size ((layout.forget count).add size.width piece) next) :
    Keeps size (layout.add size.width piece) (Terminal.shiftRows size next) := by
  have hcases := add_cases size.width (layout.forget count) piece
  have hgrown := add_cases size.width layout piece
  obtain ⟨more, hmore, hafter, hless, hshift⟩ := hshows.shiftRows (by omega) (by
    intro hfull
    rcases hcases with hsame | ⟨-, hnil⟩
    · omega
    · exact hnil)
  rw [forget_add hcount, forget_forget] at hafter
  rw [forget_add hcount] at hmore hless hshift
  have hlength : ((layout.add size.width piece).forget count).done.length =
      (layout.add size.width piece).done.length - count := List.length_drop
  have hrow := hafter.row_eq
  rw [Layout.forget, List.length_drop] at hrow
  refine ⟨by omega, count + more, by omega, hafter, ?_⟩
  omega

theorem Keeps.piece (hkeeps : Keeps size layout screen) (piece : Piece) :
    ∃ next, piece.bytes.foldlM (consolePutChar size) screen = .ok next ∧
      Keeps size (layout.add size.width piece) next := by
  obtain ⟨hroom, count, hcount, hshows, hkept⟩ := hkeeps
  have hlength := hshows.row_eq
  have hfits : ((layout.forget count).done.length : Int) < totalRows := hlength ▸ hroom
  cases piece with
  | letter c =>
      obtain ⟨next, hnext, hafter⟩ := hshows.letter hfits c
      refine ⟨Terminal.shiftRows size next, ?_, Keeps.step hcount hkept hfits hafter⟩
      change consolePutChar size screen c.val >>= _ = _
      rw [consolePutChar, hnext]
      rfl
  | lineBreak =>
      have hreturn :
          consolePutChar size screen carriageReturn = .ok { screen with curColumn := 0 } := by
        have hsame : Terminal.shiftRows size { screen with curColumn := 0 } =
            { screen with curColumn := 0 } := if_neg hroom.ne
        exact congrArg Except.ok hsame
      refine ⟨Terminal.shiftRows size { screen with curColumn := 0 }.nextRow, ?_,
        Keeps.step hcount hkept hfits ?_⟩
      · change consolePutChar size screen carriageReturn >>= _ = _
        rw [hreturn]
        rfl
      · exact @Shows.nextRow size { screen with curColumn := 0 }.nextRow _ hshows.line
          (congrArg (· + 1) hlength) rfl

/-- The bytes of the output leave its last lines in the buffer. -/
theorem Keeps.pieces (hkeeps : Keeps size layout screen) (pieces : List Piece) :
    ∃ next, (pieces.flatMap Piece.bytes).foldlM (consolePutChar size) screen = .ok next ∧
      Keeps size (pieces.foldl (Layout.add size.width) layout) next := by
  induction pieces generalizing layout screen with
  | nil => exact ⟨screen, rfl, hkeeps⟩
  | cons piece pieces ih =>
      obtain ⟨middle, hmiddle, hstep⟩ := hkeeps.piece piece
      obtain ⟨next, hnext, hafter⟩ := ih hstep
      refine ⟨next, ?_, hafter⟩
      rw [List.flatMap_cons, List.foldlM_append, hmiddle]
      exact hnext

end Buffer

/-! ## Calls -/

section Calls

variable {size : ScreenDimensions} {palette : Palette} {screen : Screen}

/-- Two screens with the same rows and the same cursor. -/
def SameRows (first second : Screen) : Prop :=
  ∃ top onText reserve, second = first.withCounters top onText reserve

/-- A text without an escape is put on the screen byte by byte. -/
theorem textActions_plain {text : Bytes} (hplain : escape ∉ text) :
    textActions none text = (text.map .putChar, none) := by
  induction text with
  | nil => rfl
  | cons c text ih =>
      rw [List.mem_cons, not_or] at hplain
      rw [textActions, consoleByte, if_neg (Ne.symm hplain.1), ih hplain.2]
      rfl

theorem SameRows.putAll {second next : Screen} {text : Bytes} (hsame : SameRows screen second)
    (hnext : text.foldlM (consolePutChar size) screen = .ok next) :
    ∃ next', text.foldlM (consolePutChar size) second = .ok next' ∧ SameRows next next' := by
  induction text generalizing screen second with
  | nil =>
      cases hnext
      exact ⟨second, rfl, hsame⟩
  | cons c text ih =>
      obtain ⟨top, onText, reserve, rfl⟩ := hsame
      obtain ⟨rows, shift, -, hmoved, -⟩ := consolePutChar_withCounters size screen c
      rw [List.foldlM_cons] at hnext
      cases hput : consolePutChar size screen c with
      | error fault =>
          rw [hput] at hnext
          cases hnext
      | ok middle =>
          rw [hput] at hnext
          have hput' := hmoved top onText reserve
          rw [hput] at hput'
          rw [List.foldlM_cons, hput']
          exact ih ⟨_, _, _, rfl⟩ hnext

theorem SameRows.settle {second : Screen} (hsame : SameRows screen second) :
    SameRows screen second.settle := by
  obtain ⟨top, onText, reserve, rfl⟩ := hsame
  exact ⟨_, _, _, rfl⟩

/-- How the output is cut into calls does not matter to the rows. -/
theorem SameRows.prints {second next : Screen} {texts : List Bytes} (hsame : SameRows screen second)
    (hplain : escape ∉ texts.flatten)
    (hnext : texts.flatten.foldlM (consolePutChar size) screen = .ok next) :
    ∃ last, texts.foldlM (uiConsolePrint size palette) ⟨second, none⟩ = .ok last ∧
      SameRows next last.screen := by
  induction texts generalizing screen second with
  | nil =>
      cases hnext
      exact ⟨_, rfl, hsame⟩
  | cons text texts ih =>
      rw [List.flatten_cons, List.mem_append, not_or] at hplain
      rw [List.flatten_cons, List.foldlM_append] at hnext
      cases hput : text.foldlM (consolePutChar size) screen with
      | error fault =>
          rw [hput] at hnext
          cases hnext
      | ok middle =>
          rw [hput] at hnext
          obtain ⟨middle', hmiddle, hrows⟩ := hsame.putAll hput
          obtain ⟨last, hlast, hend⟩ := ih hrows.settle hplain.2 hnext
          have hprint : uiConsolePrint size palette ⟨second, none⟩ text =
              .ok ⟨middle'.settle, none⟩ := by
            rw [uiConsolePrint_eq, textActions_plain hplain.1, List.foldlM_map]
            exact congrArg (Except.map _) hmiddle
          refine ⟨last, ?_, hend⟩
          rw [List.foldlM_cons, hprint]
          exact hlast

/-- No row has a letter. -/
def Blank (size : ScreenDimensions) (screen : Screen) : Prop :=
  ∀ row : Nat, (row : Int) < totalRows → ShowsLine size screen row []

theorem escape_not_mem_pieces (pieces : List Piece) : escape ∉ pieces.flatMap Piece.bytes := by
  intro hmem
  obtain ⟨piece, -, hpiece⟩ := List.mem_flatMap.mp hmem
  cases piece with
  | letter c =>
      have hc := List.mem_singleton.mp hpiece
      exact absurd (hc ▸ c.property) (by decide)
  | lineBreak => exact absurd hpiece (by decide)

/-- The rows up to the cursor are the last lines of the output, at least a thousand complete ones
if there are so many. -/
theorem scrollback_keeps_last_lines (hblank : Blank size screen) (hrow : screen.curRow = 0)
    (hcolumn : screen.curColumn = 0) {pieces : List Piece} {texts : List Bytes}
    (htexts : texts.flatten = pieces.flatMap Piece.bytes) :
    ∃ last kept, texts.foldlM (uiConsolePrint size palette) ⟨screen, none⟩ = .ok last ∧
      kept <:+ (wrapped size.width pieces).lines ∧ last.screen.curRow + 1 = kept.length ∧
      min (wrapped size.width pieces).lines.length 1001 ≤ kept.length ∧
      ∀ row < kept.length, ShowsLine size last.screen row (kept.getD row []) := by
  have hstart : Keeps size .empty screen := by
    refine ⟨?_, 0, le_rfl, ⟨hrow, hcolumn, .inr rfl, ?_⟩, .inl rfl⟩
    · rw [hrow]
      decide
    · intro row hlt
      change ShowsLine size screen row (([] ++ [[]] : List Bytes).getD row [])
      rw [getD_concat_nil]
      exact hblank row hlt
  have hend : ∃ next, (pieces.flatMap Piece.bytes).foldlM (consolePutChar size) screen = .ok next ∧
      Keeps size (wrapped size.width pieces) next := hstart.pieces pieces
  obtain ⟨next, hnext, hroom, count, hcount, hshows, hkept⟩ := hend
  have hplain := escape_not_mem_pieces pieces
  rw [← htexts] at hnext hplain
  have hself : SameRows screen screen := ⟨_, _, _, rfl⟩
  obtain ⟨last, hlast, top, onText, reserve, hrows⟩ :=
    @SameRows.prints _ palette _ _ _ _ hself hplain hnext
  have hcursor := hshows.row_eq
  rw [Layout.forget, List.length_drop] at hcursor
  have hlength := length_lines_forget (wrapped size.width pieces) count
  refine ⟨last, ((wrapped size.width pieces).forget count).lines, hlast, ?_, ?_, ?_, ?_⟩
  · rw [lines_forget hcount]
    exact List.drop_suffix _ _
  · rw [hlength, hrows]
    change next.curRow + 1 = _
    omega
  · rw [hlength, Layout.lines, List.length_append]
    change min (_ + 1) 1001 ≤ _
    omega
  · intro row hlt
    rw [hlength] at hlt
    rw [hrows]
    exact hshows.line row (by omega)

/-- A screen of blanks. -/
def blankScreen : Screen :=
  { Screen.initial with text := fun _ _ => space }

/-- A letter and a line break that is cut in two. -/
theorem scrollback_keeps_last_lines_cut :
    ∃ last kept, [[97, 13], [10]].foldlM (uiConsolePrint .smallest .default) ⟨blankScreen, none⟩ =
        .ok last ∧
      kept <:+ (wrapped ScreenDimensions.smallest.width
        [.letter ⟨97, by decide⟩, .lineBreak]).lines ∧
      last.screen.curRow + 1 = kept.length ∧
      min (wrapped ScreenDimensions.smallest.width
        [.letter ⟨97, by decide⟩, .lineBreak]).lines.length 1001 ≤ kept.length ∧
      ∀ row < kept.length, ShowsLine .smallest last.screen row (kept.getD row []) :=
  scrollback_keeps_last_lines (fun _ _ _ _ => rfl) rfl rfl rfl

end Calls

end OpenRecovery.Terminal
