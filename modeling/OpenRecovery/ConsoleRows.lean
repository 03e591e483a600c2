import OpenRecovery.ConsoleHistory
import Mathlib

/-!
# The rows of the console

A row is drawn up to its first zero byte, which should be the one behind its last letter.  At
the start of a session the blanks are written as if the rows were as long as those of the
screen, so that the last rows of a narrow screen keep what they had; after that no output
breaks a row while it stays in the buffer.
-/

namespace OpenRecovery.Terminal

open Effects Words

section Rows

variable {size : ScreenDimensions} {palette : Palette} {screen : Screen}

/-- Every row has blanks and its terminator. -/
def Cleared (size : ScreenDimensions) (screen : Screen) : Prop :=
  ∀ row column, InConsole size row column → screen.text row column = blankText size column

/-- The only zero byte of a row is its terminator. -/
def WellFormed (size : ScreenDimensions) (screen : Screen) : Prop :=
  ∀ row column, InConsole size row column →
    (screen.text row column = 0 ↔ column = size.columns - 1)

/-- The letters that are not reached when the buffer is cleared are blank already. -/
def LeftBlank (size : ScreenDimensions) (before : Screen) : Prop :=
  ∀ row column, InConsole size row column → column < size.columns - 1 →
    totalRows * size.columns ≤ row * maxColumns + column → before.text row column = space

theorem Cleared.wellFormed (hcleared : Cleared size screen) : WellFormed size screen := by
  intro row column hin
  rw [hcleared row column hin, blankText]
  split
  · rename_i hlast
    exact iff_of_true rfl hlast
  · rename_i hletter
    exact iff_of_false (by decide) hletter

theorem begin_cleared_iff (before : Screen) :
    Cleared size (uiConsoleBegin size palette before).screen ↔ LeftBlank size before := by
  have htext : ∀ row column, InConsole size row column →
      ((uiConsoleBegin size palette before).screen.text row column = blankText size column ↔
        (column < size.columns - 1 → totalRows * size.columns ≤ row * maxColumns + column →
          before.text row column = space)) := by
    intro row column hin
    obtain ⟨hlow, hhigh, hleft, hright⟩ := hin
    change (if 0 ≤ row ∧ row < totalRows ∧ column = size.columns - 1 then 0
      else if row * maxColumns + column < totalRows * size.columns then space
      else before.text row column) = blankText size column ↔ _
    by_cases hlast : column = size.columns - 1
    · rw [if_pos ⟨hlow, hhigh, hlast⟩, blankText, if_pos hlast]
      exact iff_of_true rfl (fun hlt => absurd hlast hlt.ne)
    · rw [if_neg (fun hrow => hlast hrow.2.2), blankText, if_neg hlast]
      by_cases hreached : row * maxColumns + column < totalRows * size.columns
      · rw [if_pos hreached]
        exact iff_of_true rfl (fun _ hle => absurd hreached hle.not_gt)
      · rw [if_neg hreached]
        constructor
        · exact fun hblank _ _ => hblank
        · exact fun hblank => hblank (by omega) (not_lt.mp hreached)
  constructor
  · intro hcleared row column hin
    exact (htext row column hin).mp (hcleared row column hin)
  · intro hblank row column hin
    exact (htext row column hin).mpr (hblank row column hin)

/-! ## Output -/

/-- The rows are well formed and the cursor is before the terminator. -/
structure RowsKept (size : ScreenDimensions) (screen : Screen) : Prop where
  rows : WellFormed size screen
  column_le : screen.curColumn ≤ size.columns - 2

/-- The cursor does not go to the right of the letters, as it does if a count of columns to the
left comes out negative. -/
def StaysLeft (size : ScreenDimensions) (screen : Screen) : Action → Prop
  | .cursorLeft count => wrap32 (screen.curColumn - count.toInt) ≤ size.columns - 2
  | _ => True

theorem RowsKept.of_text {next : Screen} (hkept : RowsKept size screen)
    (htext : next.text = screen.text) (hcolumn : next.curColumn ≤ size.columns - 2) :
    RowsKept size next where
  rows := by
    intro row column hin
    rw [htext]
    exact hkept.rows row column hin
  column_le := hcolumn

theorem wellFormed_fillCells {row first stop : Int} {color : Option Color} {filled : Screen}
    (hrows : WellFormed size screen) (hstop : stop ≤ size.columns - 1)
    (hfilled : fillCells size screen row first stop color = .ok filled) :
    WellFormed size filled ∧ filled.curColumn = screen.curColumn ∧
      filled.curRow = screen.curRow := by
  rw [fillCells] at hfilled
  by_cases hsome : first < stop
  · rw [if_pos hsome] at hfilled
    by_cases hin : InConsole size row first ∧ InConsole size row (stop - 1)
    · rw [if_pos hin] at hfilled
      cases hfilled
      refine ⟨?_, rfl, rfl⟩
      intro i j hcell
      change (if i = row ∧ first ≤ j ∧ j < stop then space else screen.text i j) = 0 ↔ _
      split
      · exact iff_of_false (by decide) (by omega)
      · exact hrows i j hcell
    · rw [if_neg hin] at hfilled
      cases hfilled
  · rw [if_neg hsome] at hfilled
    cases hfilled
    exact ⟨hrows, rfl, rfl⟩

theorem wellFormed_blankRows (hrows : WellFormed size screen) (first : Int) :
    WellFormed size (blankRows size screen first) := by
  intro row column hin
  change (if first ≤ row ∧ row < totalRows ∧ 0 ≤ column ∧ column < size.columns then
    blankText size column else screen.text row column) = 0 ↔ _
  split
  · rw [blankText]
    split
    · rename_i hlast
      exact iff_of_true rfl hlast
    · rename_i hletter
      exact iff_of_false (by decide) hletter
  · exact hrows row column hin

theorem RowsKept.shiftRows (hkept : RowsKept size screen) :
    RowsKept size (shiftRows size screen) := by
  rw [Terminal.shiftRows]
  split
  · rename_i hfull
    refine ⟨wellFormed_blankRows ?_ _, hkept.column_le⟩
    intro row column hin
    have htotal : totalRows = 1026 := rfl
    have hbuffer : bufferRows = 26 := rfl
    obtain ⟨hlow, hhigh, hleft, hright⟩ := hin
    change (if 0 ≤ row ∧ row < totalRows - bufferRows ∧ 0 ≤ column ∧ column < size.columns then
      screen.text (row + (screen.curRow - (totalRows - bufferRows))) column
      else screen.text row column) = 0 ↔ _
    split
    · exact hkept.rows _ column ⟨by omega, by omega, hleft, hright⟩
    · exact hkept.rows row column ⟨hlow, hhigh, hleft, hright⟩
  · exact hkept

theorem RowsKept.putLetter (hkept : RowsKept size screen) (htwo : 2 ≤ size.columns) {c : UInt8}
    (hc : c ≠ 0) {next : Screen} (hnext : putLetter size screen c = .ok next) :
    RowsKept size next := by
  have hcolumn := hkept.column_le
  rw [Terminal.putLetter] at hnext
  by_cases hnewline : c = newline
  · rw [if_pos hnewline] at hnext
    cases hnext
    exact hkept.of_text rfl hcolumn
  rw [if_neg hnewline] at hnext
  by_cases hreturn : c = carriageReturn
  · rw [if_pos hreturn] at hnext
    cases hnext
    exact hkept.of_text rfl (show (0 : Int) ≤ size.columns - 2 by omega)
  rw [if_neg hreturn] at hnext
  by_cases htab : c = tab
  · rw [if_pos htab] at hnext
    by_cases hlast : screen.curColumn + (5 - screen.curColumn.tmod 5) ≥ size.columns - 2
    · simp only [if_pos hlast] at hnext
      obtain ⟨filled, hfilled, hend⟩ := bind_eq_ok.mp hnext
      cases hend
      obtain ⟨hrows, -, -⟩ := wellFormed_fillCells hkept.rows le_rfl hfilled
      exact ⟨hrows, show (0 : Int) ≤ size.columns - 2 by omega⟩
    · simp only [if_neg hlast] at hnext
      obtain ⟨filled, hfilled, hend⟩ := bind_eq_ok.mp hnext
      cases hend
      obtain ⟨hrows, -, -⟩ := wellFormed_fillCells hkept.rows (by omega) hfilled
      refine ⟨hrows, ?_⟩
      change screen.curColumn + (5 - screen.curColumn.tmod 5) ≤ _
      omega
  rw [if_neg htab] at hnext
  by_cases hback : c = backspace
  · rw [if_pos hback] at hnext
    split_ifs at hnext
    · cases hnext
      exact hkept
    · cases hnext
      exact hkept.of_text rfl le_rfl
    · cases hnext
      exact hkept.of_text rfl (show screen.curColumn - 1 ≤ size.columns - 2 by omega)
  rw [if_neg hback] at hnext
  by_cases hbell : c = bell
  · rw [if_pos hbell] at hnext
    cases hnext
    exact hkept
  rw [if_neg hbell] at hnext
  split at hnext
  · have hwritten : ∀ row column, InConsole size row column →
        ((if row = screen.curRow ∧ column = screen.curColumn then c
          else screen.text row column) = 0 ↔ column = size.columns - 1) := by
      intro row column hin
      split
      · exact iff_of_false hc (by omega)
      · exact hkept.rows row column hin
    by_cases hlast : screen.curColumn + 1 > size.columns - 2
    · cases (if_pos hlast).symm.trans hnext
      exact ⟨hwritten, show (0 : Int) ≤ size.columns - 2 by omega⟩
    · cases (if_neg hlast).symm.trans hnext
      exact ⟨hwritten, not_lt.mp hlast⟩
  · cases hnext

theorem RowsKept.perform (hkept : RowsKept size screen) (htwo : 2 ≤ size.columns) {action : Action}
    (hletter : action ≠ .putChar 0) (hleft : StaysLeft size screen action) {next : Screen}
    (hnext : perform size palette screen action = .ok next) : RowsKept size next := by
  have hcolumn := hkept.column_le
  cases action with
  | putChar c =>
      rw [Terminal.perform, consolePutChar] at hnext
      obtain ⟨written, hwritten, rfl⟩ := map_eq_ok.mp hnext
      have hc : c ≠ 0 := fun hzero => hletter (congrArg Action.putChar hzero)
      exact (hkept.putLetter htwo hc hwritten).shiftRows
  | cursorUp count =>
      cases hnext
      exact hkept.of_text rfl hcolumn
  | cursorDown count =>
      cases hnext
      exact hkept.of_text rfl hcolumn
  | cursorRight count =>
      cases hnext
      exact hkept.of_text rfl (min_le_right _ _)
  | cursorLeft count =>
      cases hnext
      exact hkept.of_text rfl (max_le hleft (by omega))
  | cursorHome row column =>
      cases hnext
      exact hkept.of_text rfl (min_le_right _ _)
  | clearBelow =>
      obtain ⟨filled, hfilled, hend⟩ := bind_eq_ok.mp hnext
      obtain ⟨hrows, hsame, -⟩ := wellFormed_fillCells hkept.rows le_rfl hfilled
      split at hend
      · cases hend
      · cases hend
        exact ⟨wellFormed_blankRows hrows _, hsame.trans_le hcolumn⟩
  | clearLine mode =>
      have hfill : ∀ {first stop : Int}, stop ≤ size.columns - 1 →
          fillCells size screen screen.curRow first stop (some .black) = .ok next →
            RowsKept size next := by
        intro first stop hstop hfilled
        obtain ⟨hrows, hsame, -⟩ := wellFormed_fillCells hkept.rows hstop hfilled
        exact ⟨hrows, hsame.trans_le hcolumn⟩
      rw [Terminal.perform] at hnext
      split_ifs at hnext
      · exact hfill le_rfl hnext
      · exact hfill (by omega) hnext
      · exact hfill le_rfl hnext
      · cases hnext
        exact hkept
  | colors codes =>
      cases hnext
      exact hkept.of_text rfl hcolumn
  | overflow fault => cases hnext

theorem RowsKept.settle (hkept : RowsKept size screen) : RowsKept size screen.settle :=
  hkept.of_text rfl hkept.column_le

theorem RowsKept.scrollUp (hkept : RowsKept size screen) (numRows : Int) :
    RowsKept size (uiConsoleScrollUp screen numRows) := by
  rw [uiConsoleScrollUp]
  split
  · exact hkept.of_text rfl hkept.column_le
  · exact hkept.of_text rfl hkept.column_le

theorem RowsKept.scrollDown (hkept : RowsKept size screen) (numRows : Int) :
    RowsKept size (uiConsoleScrollDown size screen numRows) := by
  rw [uiConsoleScrollDown]
  split
  · exact hkept.of_text rfl hkept.column_le
  · exact hkept.of_text rfl hkept.column_le

/-! ## Strings -/

/-- No zero byte is pending. -/
def PendingString (escaped : Option Bytes) : Prop :=
  ∀ pending, escaped = some pending → 0 ∉ pending

theorem escapeText_letters {buffer : Bytes} (hbuffer : 0 ∉ buffer) :
    Action.putChar 0 ∉ escapeText buffer := by
  rw [escapeText, List.mem_cons, not_or]
  refine ⟨by decide, fun hmem => ?_⟩
  obtain ⟨c, hc, heq⟩ := List.mem_map.mp hmem
  cases heq
  exact hbuffer hc

theorem consoleUnescape_letters {buffer : Bytes} (hbuffer : 0 ∉ buffer) :
    Action.putChar 0 ∉ consoleUnescape buffer := by
  have htext := escapeText_letters hbuffer
  rw [consoleUnescape]
  split_ifs <;> first | exact htext | exact List.not_mem_cons_of_ne_of_not_mem nofun nofun

theorem consoleByte_letters {escaped : Option Bytes} (hescaped : PendingString escaped) {c : UInt8}
    (hc : c ≠ 0) :
    Action.putChar 0 ∉ (consoleByte escaped c).1 ∧ PendingString (consoleByte escaped c).2 := by
  rw [consoleByte.eq_def]
  by_cases hescape : c = escape
  · rw [if_pos hescape]
    exact ⟨nofun, fun pending hpending => Option.some.inj hpending ▸ nofun⟩
  rw [if_neg hescape]
  cases escaped with
  | none =>
      refine ⟨?_, nofun⟩
      rw [List.mem_singleton]
      exact fun heq => hc (Action.putChar.inj heq).symm
  | some pending =>
      have hpending := hescaped pending rfl
      have hlonger : 0 ∉ pending ++ [c] := by
        rw [List.mem_append, List.mem_singleton, not_or]
        exact ⟨hpending, hc.symm⟩
      dsimp only
      rw [consolePutEscapeSequence]
      split_ifs
      · exact ⟨nofun, fun _ heq => Option.some.inj heq ▸ hlonger⟩
      · exact ⟨List.not_mem_cons_of_ne_of_not_mem nofun nofun,
          fun _ heq => Option.some.inj heq ▸ hpending⟩
      · exact ⟨consoleUnescape_letters hlonger, nofun⟩
      · exact ⟨by decide, nofun⟩

/-- A string puts no zero byte on the screen. -/
theorem textActions_letters {text : Bytes} (htext : 0 ∉ text) {escaped : Option Bytes}
    (hescaped : PendingString escaped) :
    Action.putChar 0 ∉ (textActions escaped text).1 ∧
      PendingString (textActions escaped text).2 := by
  induction text generalizing escaped with
  | nil => exact ⟨nofun, hescaped⟩
  | cons c text ih =>
      rw [List.mem_cons, not_or] at htext
      obtain ⟨hfirst, hpending⟩ := consoleByte_letters hescaped (Ne.symm htext.1)
      obtain ⟨hrest, hend⟩ := ih htext.2 hpending
      refine ⟨?_, hend⟩
      rw [textActions, List.mem_append, not_or]
      exact ⟨hfirst, hrest⟩

/-! ## Sessions -/

theorem session_rowsKept {console : Console} (htwo : 2 ≤ size.columns)
    (hkept : RowsKept size console.screen) (hescaped : PendingString console.escaped)
    {calls : List ConsoleCall} (hstrings : ∀ text, .print text ∈ calls → 0 ∉ text)
    (hleft : ∀ taken ∈ sessionSteps size palette console calls, StaysLeft size taken.1 taken.2)
    {last : Console} (hlast : calls.foldlM (call size palette) console = .ok last) :
    RowsKept size last.screen := by
  induction calls generalizing console with
  | nil =>
      cases hlast
      exact hkept
  | cons next calls ih =>
      rw [List.foldlM_cons] at hlast
      obtain ⟨after, hafter, hrest⟩ := bind_eq_ok.mp hlast
      rw [sessionSteps, List.forall_mem_append, hafter] at hleft
      have hmore : ∀ text, .print text ∈ calls → 0 ∉ text := fun text hmem =>
        hstrings text (List.mem_cons_of_mem _ hmem)
      cases next with
      | print text =>
          obtain ⟨hletters, hpending⟩ :=
            textActions_letters (hstrings text List.mem_cons_self) hescaped
          rw [call, uiConsolePrint_eq] at hafter
          obtain ⟨screen, hscreen, rfl⟩ := map_eq_ok.mp hafter
          have hallowed : ∀ taken ∈ performed (perform size palette) console.screen
              (textActions console.escaped text).1,
                taken.2 ≠ .putChar 0 ∧ StaysLeft size taken.1 taken.2 := fun taken htaken =>
            ⟨fun heq => hletters (heq ▸ mem_of_mem_performed htaken), hleft.1 taken htaken⟩
          obtain ⟨-, hend⟩ := @run_keeps _ _ _ (perform size palette) (RowsKept size)
            (fun screen action => action ≠ .putChar 0 ∧ StaysLeft size screen action)
            (fun _ _ _ hkept hallowed hnext => hkept.perform htwo hallowed.1 hallowed.2 hnext)
            _ hkept _ hallowed
          exact ih (hend screen hscreen).settle hpending hmore hleft.2 hrest
      | scrollUp numRows =>
          cases hafter
          exact @ih ⟨uiConsoleScrollUp console.screen numRows, console.escaped⟩
            (hkept.scrollUp numRows) hescaped hmore hleft.2 hrest
      | scrollDown numRows =>
          cases hafter
          exact @ih ⟨uiConsoleScrollDown size console.screen numRows, console.escaped⟩
            (hkept.scrollDown numRows) hescaped hmore hleft.2 hrest

/-! ## Drawing -/

/-- The letters of a row with their colours, from a column on. -/
def rowCells (size : ScreenDimensions) (screen : Screen) (row : Int) (count : Nat) :
    List (UInt8 × Color) :=
  (List.range count).reverse.map fun behind =>
    (screen.text row (size.columns - 2 - behind), screen.textColor row (size.columns - 2 - behind))

/-- All the letters of a well-formed row are drawn. -/
theorem WellFormed.drawConsoleLine (hrows : WellFormed size screen) {row : Int}
    (hrow : 0 ≤ row ∧ row < totalRows) {count : Nat} (hcount : (count : Int) < size.columns) :
    drawConsoleLine size screen row (count + 1) = .ok (rowCells size screen row count) := by
  induction count with
  | zero =>
      have hin : InConsole size row (size.columns - ((0 : Nat) + 1)) :=
        ⟨hrow.1, hrow.2, by omega, by omega⟩
      rw [Terminal.drawConsoleLine, if_pos hin, if_pos]
      · rfl
      · exact (hrows _ _ hin).mpr (by omega)
  | succ count ih =>
      have hin : InConsole size row (size.columns - (((count + 1 : Nat) : Int) + 1)) :=
        ⟨hrow.1, hrow.2, by omega, by omega⟩
      rw [Terminal.drawConsoleLine, if_pos hin, if_neg, ih (by omega)]
      · have hcolumn : size.columns - (((count + 1 : Nat) : Int) + 1) =
            size.columns - 2 - count := by
          omega
        rw [hcolumn, rowCells, rowCells, List.range_succ, List.reverse_append]
        rfl
      · intro hzero
        have hlast := (hrows _ _ hin).mp hzero
        omega

/-- Between two calls every row has its terminator behind its letters, and drawing it shows them. -/
structure RowsDrawn (size : ScreenDimensions) (screen : Screen) : Prop where
  rows : WellFormed size screen
  drawn : ∀ row, 0 ≤ row → row < totalRows →
    drawConsoleLine size screen row size.columns.toNat =
      .ok (rowCells size screen row size.width)

theorem WellFormed.rowsDrawn (hrows : WellFormed size screen) : RowsDrawn size screen := by
  have hcolumns := size.one_le_columns
  have hwidth := width_eq size
  refine ⟨hrows, fun row hlow hhigh => ?_⟩
  have hcount : size.columns.toNat = size.width + 1 := by omega
  rw [hcount]
  exact hrows.drawConsoleLine ⟨hlow, hhigh⟩ (by omega)

/-- After the start of a session, and as long as its output stays in the buffer and left of the
terminators. -/
structure RowsHold (size : ScreenDimensions) (palette : Palette) (before : Screen) : Prop where
  cleared : Cleared size (uiConsoleBegin size palette before).screen
  printed : ∀ (calls : List ConsoleCall) (last : Console),
    (∀ text, .print text ∈ calls → 0 ∉ text) →
    (∀ taken ∈ sessionSteps size palette (uiConsoleBegin size palette before) calls,
      StaysLeft size taken.1 taken.2) →
    calls.foldlM (call size palette) (uiConsoleBegin size palette before) = .ok last →
    RowsDrawn size last.screen

/-- On a screen without a column for letters, the first one takes the place of a terminator. -/
theorem print_narrow (hone : size.columns = 1) (before : Screen) :
    ∃ last,
      [ConsoleCall.print [97]].foldlM (call size palette) (uiConsoleBegin size palette before) =
        .ok last ∧ last.screen.text 0 0 = 97 := by
  have hin : InConsole size 0 0 := ⟨le_rfl, by decide, le_rfl, by omega⟩
  have hlast : (0 : Int) + 1 > size.columns - 2 := by omega
  have hletter : ∃ next, consolePutChar size (uiConsoleBegin size palette before).screen 97 =
      .ok next ∧ next.text 0 0 = 97 := by
    refine ⟨_, congrArg (Except.map (shiftRows size)) ((if_pos hin).trans (if_pos hlast)), ?_⟩
    rfl
  obtain ⟨next, hnext, htext⟩ := hletter
  refine ⟨⟨next.settle, none⟩, ?_, htext⟩
  have hprint : uiConsolePrint size palette (uiConsoleBegin size palette before) [97] =
      .ok ⟨next.settle, none⟩ := by
    rw [uiConsolePrint_eq]
    change Except.map _
      (consolePutChar size (uiConsoleBegin size palette before).screen 97 >>= _) = _
    rw [hnext]
    rfl
  exact foldlM_ok_cons hprint []

theorem narrow_staysLeft (before : Screen) :
    ∀ taken ∈ sessionSteps size palette (uiConsoleBegin size palette before)
      [ConsoleCall.print [97]], StaysLeft size taken.1 taken.2 := by
  intro taken htaken
  rw [sessionSteps, List.mem_append] at htaken
  rcases htaken with htaken | htaken
  · obtain hletter := List.mem_singleton.mp (mem_of_mem_performed htaken)
    rw [hletter]
    trivial
  · split at htaken
    · cases htaken
    · cases htaken

/-- The rows are as they should be exactly if there are letters in them and those that the start
of the session does not reach are blank. -/
theorem console_rows_hold_iff (before : Screen) :
    RowsHold size palette before ↔ 2 ≤ size.columns ∧ LeftBlank size before := by
  constructor
  · intro hrows
    refine ⟨?_, (begin_cleared_iff before).mp hrows.cleared⟩
    by_contra hnarrow
    have hcolumns := size.one_le_columns
    obtain ⟨last, hlast, htext⟩ := @print_narrow size palette (by omega) before
    have hdrawn := hrows.printed [.print [97]] last (by simp) (narrow_staysLeft before) hlast
    have hin : InConsole size 0 0 := ⟨le_rfl, by decide, le_rfl, by omega⟩
    have hzero := (hdrawn.rows 0 0 hin).mpr (by omega)
    rw [htext] at hzero
    cases hzero
  · rintro ⟨htwo, hblank⟩
    have hcleared := (@begin_cleared_iff size palette before).mpr hblank
    refine ⟨hcleared, fun calls last hstrings hleft hlast => ?_⟩
    have hstart : RowsKept size (uiConsoleBegin size palette before).screen :=
      ⟨hcleared.wellFormed, show (0 : Int) ≤ size.columns - 2 by omega⟩
    exact (session_rowsKept htwo hstart nofun hstrings hleft hlast).rows.rowsDrawn

end Rows

/-- In the first session on a screen of one letter a row, row 1000 begins with a zero byte. -/
theorem first_session_row_not_cleared :
    (uiConsoleBegin .smallest .default .initial).screen.text 1000 0 = 0 ∧
      ¬RowsHold .smallest .default .initial := by
  have htext : (uiConsoleBegin .smallest .default .initial).screen.text 1000 0 = 0 := rfl
  refine ⟨htext, fun hrows => ?_⟩
  have hspace := hrows.cleared 1000 0 (by decide)
  rw [htext] at hspace
  exact absurd hspace (by decide)

end OpenRecovery.Terminal
