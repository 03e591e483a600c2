import OpenRecovery.ArgsRestart
import OpenRecovery.FallibleRuns
import OpenRecovery.LineWrapping
import Mathlib

/-!
# The text overlay

The log of `ui.c` is a buffer of text rows that are used in turn.  A line is broken when the
character that does not fit arrives, and a row is only cleared from the end of the line that is
written to it.  The drawing starts at the row after the one that is being written.
-/

namespace OpenRecovery.Overlay

open Effects

/-! ## State -/

/-- `MAX_COLS`. -/
def maxCols : Nat := 64

/-- `MAX_ROWS`. -/
def maxRows : Nat := 32

/-- `CHAR_WIDTH`. -/
def charWidth : Nat := 10

/-- `CHAR_HEIGHT`. -/
def charHeight : Nat := 18

structure TextBuffer where
  rows : Nat
  cols : Nat
  text : Nat → Nat → UInt8
  row : Nat
  col : Nat
  top : Nat

/-- An access outside the array of the text rows or of the menu rows. -/
inductive Fault where
  | textAccess
  | menuAccess
  deriving DecidableEq

def rowCells (row : Nat → UInt8) : Bytes :=
  (List.range maxCols).map row

/-- The string that `draw_text_line` is given; it has to end inside its row. -/
def rowString (outside : Fault) (row : Nat → UInt8) : Except Fault Bytes :=
  if 0 ∈ rowCells row then .ok (cString (rowCells row)) else .error outside

namespace TextBuffer

/-- The static variables before `ui_init`. -/
def initial : TextBuffer where
  rows := 0
  cols := 0
  text := fun _ _ => 0
  row := 0
  col := 0
  top := 0

def uiInit (buffer : TextBuffer) (fbWidth fbHeight : Nat) : TextBuffer :=
  { buffer with
    col := 0
    row := 0
    rows := min (fbHeight / charHeight) maxRows
    top := 1
    cols := min (fbWidth / charWidth) (maxCols - 1) }

def store (buffer : TextBuffer) (row col : Nat) (c : UInt8) : Except Fault TextBuffer :=
  if row < maxRows ∧ col < maxCols then
    .ok { buffer with text := fun i j => if i = row ∧ j = col then c else buffer.text i j }
  else .error .textAccess

/-- The end of the line in the row that is written, and the start of the next row. -/
def nextRow (buffer : TextBuffer) : Except Fault TextBuffer := do
  let buffer ← buffer.store buffer.row buffer.col 0
  let row := (buffer.row + 1) % buffer.rows
  return { buffer with
    col := 0
    row := row
    top := if row = buffer.top then (buffer.top + 1) % buffer.rows else buffer.top }

def printByte (buffer : TextBuffer) (c : UInt8) : Except Fault TextBuffer := do
  let buffer ← if c = newline ∨ buffer.cols ≤ buffer.col then buffer.nextRow else pure buffer
  if c = newline then return buffer
  let written ← buffer.store buffer.row buffer.col c
  return { written with col := buffer.col + 1 }

def uiPrintRaw (buffer : TextBuffer) (text : Bytes) : Except Fault TextBuffer :=
  if 0 < buffer.rows ∧ 0 < buffer.cols then do
    let buffer ← (cString text).foldlM printByte buffer
    buffer.store buffer.row buffer.col 0
  else pure buffer

/-! ## Drawing -/

def textLine (buffer : TextBuffer) (row : Nat) : Except Fault Bytes :=
  if row < maxRows then rowString .textAccess (buffer.text row) else .error .textAccess

/-- The rows of the overlay from top to bottom, without a menu. -/
def drawnRows (buffer : TextBuffer) : Except Fault (List Bytes) :=
  (List.range buffer.rows).mapM fun i => buffer.textLine ((i + buffer.top) % buffer.rows)

end TextBuffer

/-! ## The lines in the rows -/

/-- A row holds a line as a string that ends inside the row. -/
structure HoldsLine (cells : Nat → UInt8) (letters : Bytes) : Prop where
  nonzero : ∀ c ∈ letters, c ≠ 0
  short : letters.length < maxCols
  letter : ∀ j (hj : j < letters.length), cells j = letters[j]
  ended : cells letters.length = 0

/-- What is behind the end of the line does not matter. -/
theorem HoldsLine.rowString_eq
    {row : Nat → UInt8} {letters : Bytes} (hholds : HoldsLine row letters) (outside : Fault) :
    rowString outside row = .ok letters := by
  have hcells : ∃ rest, rowCells row = letters ++ 0 :: rest := by
    obtain ⟨behind, hbehind⟩ := Nat.exists_eq_add_of_lt hholds.short
    have hletters : (List.range letters.length).map row = letters := by
      refine List.ext_getElem (by simp) fun j hj _ => ?_
      rw [List.getElem_map, List.getElem_range]
      exact hholds.letter j _
    rw [rowCells, hbehind, Nat.add_assoc, List.range_add, List.map_append, hletters,
      List.range_succ_eq_map]
    simp only [List.map_cons, Nat.add_zero, hholds.ended]
    exact ⟨_, rfl⟩
  obtain ⟨rest, hrest⟩ := hcells
  have hzero : 0 ∈ rowCells row := by
    rw [hrest]
    exact List.mem_append_right _ List.mem_cons_self
  rw [rowString, if_pos hzero, hrest, cString_append hholds.nonzero]

/-- The complete lines below the empty ones that the overlay starts with. -/
def padded (rows : Nat) (done : List Bytes) : List Bytes :=
  List.replicate rows [] ++ done

theorem length_padded (rows : Nat) (done : List Bytes) :
    (padded rows done).length = rows + done.length := by
  rw [padded, List.length_append, List.length_replicate]

/-- Two lines that are less than a screen apart are in different rows. -/
theorem mod_ne_mod {rows first second : Nat} (hlt : first < second)
    (hnear : second < rows + first) : second % rows ≠ first % rows := by
  intro heq
  have hzero : (second - first) % rows = 0 := Nat.sub_mod_eq_zero_of_mod_eq heq
  rw [Nat.mod_eq_of_lt (by omega)] at hzero
  omega

/-- The buffer with a byte behind the letters of the line that is written. -/
def TextBuffer.stored (buffer : TextBuffer) (c : UInt8) : TextBuffer :=
  { buffer with
    text := fun i j => if i = buffer.row ∧ j = buffer.col then c else buffer.text i j }

/-- The rows in use hold the last of the complete lines, and the row of the cursor has the letters
of the line that is written. -/
structure Writes (buffer : TextBuffer) (done : List Bytes) (last : Bytes) : Prop where
  two_le_rows : 2 ≤ buffer.rows
  rows_le : buffer.rows ≤ maxRows
  one_le_cols : 1 ≤ buffer.cols
  cols_lt : buffer.cols < maxCols
  row_eq : buffer.row = done.length % buffer.rows
  top_eq : buffer.top = (done.length + 1) % buffer.rows
  col_eq : buffer.col = last.length
  nonzero : ∀ c ∈ last, c ≠ 0
  short : last.length ≤ buffer.cols
  letter : ∀ j (hj : j < last.length), buffer.text buffer.row j = last[j]
  earlier : ∀ k line, (padded buffer.rows done)[k]? = some line → done.length < k →
    HoldsLine (buffer.text (k % buffer.rows)) line

section Rows

variable {buffer : TextBuffer} {done : List Bytes} {last : Bytes}

theorem Writes.row_lt (hwrites : Writes buffer done last) : buffer.row < maxRows := by
  have hmod := Nat.mod_lt done.length (show 0 < buffer.rows by have := hwrites.two_le_rows; omega)
  have hrows := hwrites.rows_le
  rw [hwrites.row_eq]
  omega

/-- The cursor is on a cell of the array, even behind a full line. -/
theorem Writes.store_eq (hwrites : Writes buffer done last) (c : UInt8) :
    buffer.store buffer.row buffer.col c = .ok (buffer.stored c) := by
  have hshort := hwrites.short
  have hcols := hwrites.cols_lt
  have hcol : buffer.col < maxCols := by
    rw [hwrites.col_eq]
    omega
  exact if_pos ⟨hwrites.row_lt, hcol⟩

/-- The row of a complete line is not the one that is written. -/
theorem Writes.row_ne (hwrites : Writes buffer done last) {k : Nat} {line : Bytes}
    (hline : (padded buffer.rows done)[k]? = some line) (hk : done.length < k) :
    k % buffer.rows ≠ buffer.row := by
  have hlt := (List.getElem?_eq_some_iff.mp hline).1
  rw [length_padded] at hlt
  rw [hwrites.row_eq]
  exact mod_ne_mod hk hlt

theorem stored_row_ne {row : Nat} (hrow : row ≠ buffer.row) (c : UInt8) :
    (buffer.stored c).text row = buffer.text row :=
  funext fun _ => if_neg fun hand => hrow hand.1

theorem stored_before {j : Nat} (hj : j < buffer.col) (row : Nat) (c : UInt8) :
    (buffer.stored c).text row j = buffer.text row j :=
  if_neg fun hand => hj.ne hand.2

theorem stored_cursor (buffer : TextBuffer) (c : UInt8) :
    (buffer.stored c).text buffer.row buffer.col = c :=
  if_pos ⟨rfl, rfl⟩

theorem Writes.stored (hwrites : Writes buffer done last) (c : UInt8) :
    Writes (buffer.stored c) done last :=
  { hwrites with
    letter := by
      intro j hj
      have hbefore : j < buffer.col := by
        rw [hwrites.col_eq]
        exact hj
      exact (stored_before hbefore _ c).trans (hwrites.letter j hj)
    earlier := by
      intro k line hline hk
      have hrow := hwrites.row_ne hline hk
      change HoldsLine ((buffer.stored c).text (k % buffer.rows)) line
      rw [stored_row_ne hrow]
      exact hwrites.earlier k line hline hk }

/-- A line with a zero behind it is held by its row. -/
theorem Writes.holdsLast (hwrites : Writes buffer done last)
    (hended : buffer.text buffer.row buffer.col = 0) :
    HoldsLine (buffer.text buffer.row) last where
  nonzero := hwrites.nonzero
  short := hwrites.short.trans_lt hwrites.cols_lt
  letter := hwrites.letter
  ended := by rw [← hwrites.col_eq, hended]

/-- All lines from the one after the top of the screen on, with the one that is written. -/
theorem Writes.holdsLine (hwrites : Writes buffer done last)
    (hended : buffer.text buffer.row buffer.col = 0) {k : Nat} {line : Bytes}
    (hline : (padded buffer.rows (done ++ [last]))[k]? = some line) (hk : done.length < k) :
    HoldsLine (buffer.text (k % buffer.rows)) line := by
  rw [padded, ← List.append_assoc, ← padded, List.getElem?_append] at hline
  split at hline
  · exact hwrites.earlier k line hline hk
  · rename_i hold
    obtain ⟨hnew, hlast⟩ := List.getElem?_eq_some_iff.mp hline
    rw [List.getElem_singleton] at hlast
    have hcurrent : k = buffer.rows + done.length := by
      rw [List.length_singleton] at hnew
      rw [length_padded] at hold hnew
      omega
    rw [← hlast, hcurrent, Nat.add_mod_left, ← hwrites.row_eq]
    exact hwrites.holdsLast hended

/-- A letter that has room. -/
theorem Writes.putLetter (hwrites : Writes buffer done last) {c : UInt8} (hc : c ≠ 0)
    (hroom : last.length < buffer.cols) :
    Writes { buffer.stored c with col := buffer.col + 1 } done (last ++ [c]) :=
  { hwrites.stored c with
    col_eq := by
      rw [List.length_append, hwrites.col_eq]
      rfl
    nonzero := by
      intro byte hbyte
      rcases List.mem_append.mp hbyte with hbyte | hbyte
      · exact hwrites.nonzero byte hbyte
      · rw [List.mem_singleton.mp hbyte]
        exact hc
    short := by
      rw [List.length_append]
      exact hroom
    letter := by
      intro j hj
      rw [List.getElem_append]
      split
      · rename_i hold
        exact (hwrites.stored c).letter j hold
      · rename_i hnew
        have hcol : j = buffer.col := by
          rw [List.length_append, List.length_singleton] at hj
          rw [hwrites.col_eq]
          omega
        rw [List.getElem_singleton, hcol]
        exact stored_cursor buffer c }

/-- The cursor goes to the row after it, which is the top row, and the top row goes on. -/
theorem Writes.nextRow (hwrites : Writes buffer done last) :
    ∃ next, buffer.nextRow = .ok next ∧ Writes next (done ++ [last]) [] ∧
      next.rows = buffer.rows ∧ next.cols = buffer.cols := by
  have hrow : (buffer.row + 1) % buffer.rows = (done.length + 1) % buffer.rows := by
    rw [hwrites.row_eq, Nat.mod_add_mod]
  have htop : (buffer.row + 1) % buffer.rows = buffer.top := by
    rw [hrow, hwrites.top_eq]
  have hstored := hwrites.stored 0
  have hnext : buffer.nextRow = .ok { buffer.stored 0 with
      col := 0
      row := (buffer.row + 1) % buffer.rows
      top := (buffer.top + 1) % buffer.rows } := by
    rw [TextBuffer.nextRow, hwrites.store_eq]
    change Except.ok { buffer.stored 0 with
      col := 0
      row := (buffer.row + 1) % buffer.rows
      top := if (buffer.row + 1) % buffer.rows = buffer.top then (buffer.top + 1) % buffer.rows
        else buffer.top } = _
    rw [if_pos htop]
  have hlength : (done ++ [last]).length = done.length + 1 := List.length_append
  refine ⟨_, hnext, ?_, rfl, rfl⟩
  exact
    { hstored with
      row_eq := by
        rw [hlength]
        exact hrow
      top_eq := by
        rw [hlength]
        change (buffer.top + 1) % buffer.rows = _
        rw [hwrites.top_eq, Nat.mod_add_mod]
        rfl
      col_eq := rfl
      nonzero := fun _ => nofun
      short := Nat.zero_le _
      letter := fun _ => nofun
      earlier := by
        intro k line hline hk
        rw [hlength] at hk
        exact hstored.holdsLine (stored_cursor buffer 0) hline (by omega) }

end Rows

/-! ## Output -/

section Output

variable {rows cols : Nat} {buffer : TextBuffer} {printed : Bytes}

/-- The buffer of a screen after an output. -/
structure Shows (rows cols : Nat) (printed : Bytes) (buffer : TextBuffer) : Prop where
  rows_eq : buffer.rows = rows
  cols_eq : buffer.cols = cols
  lines : ∃ done last, wrappedLines cols newline printed = done ++ [last] ∧
    Writes buffer done last

/-- One byte of an output. -/
theorem Shows.printByte (hshows : Shows rows cols printed buffer) {c : UInt8} (hc : c ≠ 0) :
    ∃ next, buffer.printByte c = .ok next ∧ Shows rows cols (printed ++ [c]) next := by
  obtain ⟨hrows, hcols, done, last, hlines, hwrites⟩ := hshows
  obtain ⟨done', last', hlines', -, hconcat⟩ :=
    wrappedLines_concat (hcols ▸ hwrites.one_le_cols) newline printed
  obtain ⟨hdone, hlast⟩ := List.append_inj' (hlines.symm.trans hlines') rfl
  cases hdone
  cases hlast
  have hnew := hconcat c
  obtain ⟨below, hbelow, hbelowWrites, hbelowRows, hbelowCols⟩ := hwrites.nextRow
  by_cases hnewline : c = newline
  · rw [if_pos hnewline] at hnew
    refine ⟨below, ?_, hbelowRows.trans hrows, hbelowCols.trans hcols, done ++ [last], [], ?_,
      hbelowWrites⟩
    · rw [TextBuffer.printByte, if_pos (.inl hnewline), hbelow]
      exact if_pos hnewline
    · rw [hnew, List.append_assoc]
      rfl
  · rw [if_neg hnewline] at hnew
    by_cases hroom : last.length < cols
    · rw [if_pos hroom] at hnew
      have hkept : ¬(c = newline ∨ buffer.cols ≤ buffer.col) := by
        rw [hwrites.col_eq, hcols]
        rintro (heq | hfull)
        · exact hnewline heq
        · omega
      refine ⟨{ buffer.stored c with col := buffer.col + 1 }, ?_, hrows, hcols, done, last ++ [c],
        hnew, hwrites.putLetter hc (hcols ▸ hroom)⟩
      rw [TextBuffer.printByte, if_neg hkept]
      change (if c = newline then _ else _) = _
      rw [if_neg hnewline, hwrites.store_eq]
      rfl
    · rw [if_neg hroom] at hnew
      have hfull : buffer.cols ≤ buffer.col := by
        rw [hwrites.col_eq, hcols]
        exact not_lt.mp hroom
      have hempty : ([] : Bytes).length < below.cols := hbelowWrites.one_le_cols
      refine ⟨{ below.stored c with col := below.col + 1 }, ?_, hbelowRows.trans hrows,
        hbelowCols.trans hcols, done ++ [last], [c], ?_, hbelowWrites.putLetter hc hempty⟩
      · rw [TextBuffer.printByte, if_pos (.inr hfull), hbelow]
        change (if c = newline then _ else _) = _
        rw [if_neg hnewline, hbelowWrites.store_eq]
        rfl
      · rw [hnew, List.append_assoc]
        rfl

theorem Shows.printBytes (hshows : Shows rows cols printed buffer) {text : Bytes}
    (htext : ∀ c ∈ text, c ≠ 0) :
    ∃ next, text.foldlM TextBuffer.printByte buffer = .ok next ∧
      Shows rows cols (printed ++ text) next := by
  induction text generalizing buffer printed with
  | nil => exact ⟨buffer, rfl, by rwa [List.append_nil]⟩
  | cons c text ih =>
      obtain ⟨between, hbetween, hfirst⟩ := hshows.printByte (htext c List.mem_cons_self)
      obtain ⟨next, hnext, hend⟩ := ih hfirst fun byte hbyte =>
        htext byte (List.mem_cons_of_mem _ hbyte)
      refine ⟨next, by rw [foldlM_ok_cons hbetween, hnext], ?_⟩
      rwa [List.append_assoc] at hend

/-- Between two calls the line that is written has its end. -/
structure Ready (rows cols : Nat) (printed : Bytes) (buffer : TextBuffer) : Prop
    extends Shows rows cols printed buffer where
  ended : buffer.text buffer.row buffer.col = 0

theorem Ready.uiPrintRaw (hready : Ready rows cols printed buffer) (text : Bytes) :
    ∃ next, buffer.uiPrintRaw text = .ok next ∧
      Ready rows cols (printed ++ cString text) next := by
  obtain ⟨done, last, -, hwrites⟩ := hready.lines
  have hused : 0 < buffer.rows ∧ 0 < buffer.cols :=
    ⟨lt_of_lt_of_le (by omega) hwrites.two_le_rows, hwrites.one_le_cols⟩
  obtain ⟨next, hnext, hshows⟩ := hready.toShows.printBytes (cString_ne_zero text)
  obtain ⟨done', last', hlines, hwrites'⟩ := hshows.lines
  refine ⟨next.stored 0, ?_, ⟨hshows.rows_eq, hshows.cols_eq, done', last', hlines,
    hwrites'.stored 0⟩, stored_cursor next 0⟩
  rw [TextBuffer.uiPrintRaw, if_pos hused, hnext]
  exact hwrites'.store_eq 0

theorem Ready.prints (hready : Ready rows cols printed buffer) (texts : List Bytes) :
    ∃ next, texts.foldlM TextBuffer.uiPrintRaw buffer = .ok next ∧
      Ready rows cols (printed ++ (texts.map cString).flatten) next := by
  induction texts generalizing buffer printed with
  | nil =>
      refine ⟨buffer, rfl, ?_⟩
      change Ready rows cols (printed ++ []) buffer
      rwa [List.append_nil]
  | cons text texts ih =>
      obtain ⟨between, hbetween, hfirst⟩ := hready.uiPrintRaw text
      obtain ⟨next, hnext, hend⟩ := ih hfirst
      refine ⟨next, by rw [foldlM_ok_cons hbetween, hnext], ?_⟩
      rwa [List.append_assoc] at hend

/-- Nothing is written yet. -/
theorem ready_uiInit (fbWidth fbHeight : Nat)
    (hrows : 2 ≤ (TextBuffer.initial.uiInit fbWidth fbHeight).rows)
    (hcols : 1 ≤ (TextBuffer.initial.uiInit fbWidth fbHeight).cols) :
    Ready (TextBuffer.initial.uiInit fbWidth fbHeight).rows
      (TextBuffer.initial.uiInit fbWidth fbHeight).cols []
      (TextBuffer.initial.uiInit fbWidth fbHeight) where
  rows_eq := rfl
  cols_eq := rfl
  ended := rfl
  lines := by
    refine ⟨[], [], wrappedLines_nil _ _, ?_⟩
    exact
      { two_le_rows := hrows
        rows_le := Nat.min_le_right _ _
        one_le_cols := hcols
        cols_lt := Nat.lt_of_le_of_lt (Nat.min_le_right _ _) (by decide)
        row_eq := (Nat.zero_mod _).symm
        top_eq := (Nat.mod_eq_of_lt hrows).symm
        col_eq := rfl
        nonzero := fun _ => nofun
        short := Nat.zero_le _
        letter := fun _ => nofun
        earlier := by
          intro k line hline _
          rw [padded, List.append_nil] at hline
          have hempty : line = [] := List.eq_of_mem_replicate (List.mem_of_getElem? hline)
          rw [hempty]
          exact ⟨fun _ => nofun, by decide, fun _ => nofun, rfl⟩ }

end Output

/-! ## What is drawn -/

section Drawn

variable {buffer : TextBuffer} {done : List Bytes} {last : Bytes}

/-- The drawing reads as many lines as the screen has, up to the one that is written. -/
theorem Writes.drawnRows_eq (hwrites : Writes buffer done last)
    (hended : buffer.text buffer.row buffer.col = 0) :
    buffer.drawnRows = .ok ((padded buffer.rows (done ++ [last])).rtake buffer.rows) := by
  have hlength : (padded buffer.rows (done ++ [last])).length =
      buffer.rows + (done.length + 1) := by
    rw [length_padded, List.length_append]
    rfl
  have hpositive : 0 < buffer.rows := lt_of_lt_of_le (by omega) hwrites.two_le_rows
  have hrows : ((padded buffer.rows (done ++ [last])).drop (done.length + 1)).length =
      buffer.rows := by
    rw [List.length_drop, hlength, Nat.add_sub_cancel_right]
  have hrange : (List.range buffer.rows).mapM
      (fun i => buffer.textLine ((i + buffer.top) % buffer.rows)) =
        .ok ((padded buffer.rows (done ++ [last])).drop (done.length + 1)) := by
    rw [← @mapM_range_eq_ok _ _ _ ((padded buffer.rows (done ++ [last])).drop (done.length + 1)),
      hrows]
    intro i hi
    have hk : (i + buffer.top) % buffer.rows = (done.length + 1 + i) % buffer.rows := by
      rw [hwrites.top_eq, Nat.add_mod_mod, Nat.add_comm]
    have hinside : (done.length + 1 + i) % buffer.rows < maxRows :=
      (Nat.mod_lt _ hpositive).trans_le hwrites.rows_le
    rw [List.getElem_drop, hk, TextBuffer.textLine, if_pos hinside]
    exact (hwrites.holdsLine hended (List.getElem?_eq_getElem _) (by omega)).rowString_eq _
  rw [TextBuffer.drawnRows, List.rtake, hlength, Nat.add_sub_cancel_left]
  exact hrange

end Drawn

/-- The overlay shows the last lines of the output, under empty lines as long as there are fewer
lines than rows. -/
theorem overlay_shows_last_lines (fbWidth fbHeight : Nat)
    (hrows : 2 ≤ (TextBuffer.initial.uiInit fbWidth fbHeight).rows)
    (hcols : 1 ≤ (TextBuffer.initial.uiInit fbWidth fbHeight).cols) (texts : List Bytes) :
    let start := TextBuffer.initial.uiInit fbWidth fbHeight
    ∃ buffer, texts.foldlM TextBuffer.uiPrintRaw start = .ok buffer ∧
      buffer.drawnRows = .ok ((List.replicate start.rows [] ++
        wrappedLines start.cols newline (texts.map cString).flatten).rtake start.rows) := by
  obtain ⟨buffer, hbuffer, hready⟩ := (ready_uiInit fbWidth fbHeight hrows hcols).prints texts
  obtain ⟨done, last, hlines, hwrites⟩ := hready.lines
  refine ⟨buffer, hbuffer, ?_⟩
  rw [List.nil_append] at hlines
  rw [hwrites.drawnRows_eq hready.ended, hready.rows_eq, hlines, padded]

/-- A screen of two rows and three columns. -/
theorem overlay_shows_last_lines_small :
    ∃ buffer, [ascii "abc\nde", ascii "fgh"].foldlM TextBuffer.uiPrintRaw
        (TextBuffer.initial.uiInit 30 40) = .ok buffer ∧
      buffer.drawnRows = .ok ((List.replicate 2 [] ++
        wrappedLines 3 newline (ascii "abc\ndefgh")).rtake 2) :=
  overlay_shows_last_lines 30 40 (by decide) (by decide) [ascii "abc\nde", ascii "fgh"]

end OpenRecovery.Overlay
