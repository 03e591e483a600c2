import OpenRecovery.Menu
import OpenRecovery.TextOverlay
import Mathlib

/-!
# The window of a menu

The menu of `ui.c` has rows for the headers and the items, of which a window is drawn.  A start
places the window by the selection alone, a selection moves it only as far as it has to.
-/

namespace OpenRecovery.Overlay

open Effects

/-! ## State -/

/-- `MENU_MAX_ROWS`. -/
def menuMaxRows : Int := 100

/-- `MENU_MAX_VISIBLE_ROWS`. -/
def menuMaxVisibleRows : Int := 28

structure MenuWindow where
  menu : Nat → Nat → UInt8
  shown : Bool
  top : Int
  items : Int
  itemTop : Int
  itemsScreen : Int
  sel : Int
  titleLength : Int

/-- The static variables before the first menu. -/
def MenuWindow.initial : MenuWindow where
  menu := fun _ _ => 0
  shown := false
  top := 0
  items := 0
  itemTop := 0
  itemsScreen := 0
  sel := 0
  titleLength := 0

/-- The row after `strncpy` of as many bytes as the screen has columns, and the zero behind
them. -/
def copiedRow (cols : Nat) (text : Bytes) (row : Nat → UInt8) : Nat → UInt8 :=
  fun j => if j < cols then (cString text).getD j 0 else if j = cols then 0 else row j

/-- The texts before the terminator go to the rows of the menu, as long as it has rows. -/
def copyRows (cols : Nat) : (row : Nat) → (texts : List Bytes) → MenuWindow →
    Except Fault (MenuWindow × Nat)
  | row, [], window => .ok (window, row)
  | row, text :: texts, window =>
      if row < menuMaxRows then
        if cols < maxCols then
          copyRows cols (row + 1) texts
            { window with
              menu := fun i => if i = row then copiedRow cols text (window.menu i)
                else window.menu i }
        else .error .menuAccess
      else .ok (window, row)

/-- The counters of a menu with the rows of the headers before `top` and those of the items
before `behind`. -/
def placeWindow (top behind : Nat) (startSel : Int) (window : MenuWindow) : MenuWindow :=
  let count : Int := behind - top
  let visible := menuMaxVisibleRows - top
  let screen := if count < visible then count else visible
  { window with
    top := top
    items := count
    itemsScreen := screen
    shown := true
    sel := startSel
    itemTop := if startSel ≥ screen then startSel - screen + 1 else 0 }

def uiStartMenu (buffer : TextBuffer) (headers items : List Bytes) (titleLength startSel : Int)
    (window : MenuWindow) : Except Fault MenuWindow :=
  if 0 < buffer.rows ∧ 0 < buffer.cols then do
    let (window, top) ← copyRows buffer.cols 0 headers { window with titleLength := titleLength }
    let (window, behind) ← copyRows buffer.cols top items window
    return placeWindow top behind startSel window
  else pure { window with titleLength := titleLength }

/-- The window after the selection, and what the caller is told. -/
def uiMenuSelect (window : MenuWindow) (sel : Int) : MenuWindow × Int :=
  if window.shown then
    let sel := if sel < 0 then 0 else sel
    let sel := if sel ≥ window.items then window.items - 1 else sel
    let itemTop :=
      if sel = window.sel then window.itemTop
      else if sel < window.itemTop then sel
      else if sel ≥ window.itemTop + window.itemsScreen then sel - window.itemsScreen + 1
      else window.itemTop
    ({ window with sel := sel, itemTop := itemTop }, sel)
  else (window, sel)

/-! ## Drawing -/

inductive LineColor where
  | title
  | menu
  | menuSel
  deriving DecidableEq

/-- A text line on the screen. -/
structure MenuLine where
  row : Int
  text : Bytes
  color : LineColor
  deriving DecidableEq

namespace MenuWindow

def lineAt (window : MenuWindow) (row index : Int) (color : LineColor) : Except Fault MenuLine :=
  if 0 ≤ index ∧ index < menuMaxRows then do
    let text ← rowString .menuAccess (window.menu index.toNat)
    return ⟨row, text, color⟩
  else .error .menuAccess

/-- A loop of the drawing from a row to the one before a limit. -/
def linesFrom (first limit : Int) (draw : Int → Except Fault MenuLine) :
    Except Fault (List MenuLine) :=
  (List.range (limit - first).toNat).mapM fun (k : Nat) => draw (first + k)

def itemColor (window : MenuWindow) (index : Int) : LineColor :=
  if index = window.top + window.sel then .menuSel else .menu

/-- The items from the row below the headers on, shifted if they are more than the window has. -/
def drawnItems (window : MenuWindow) (below : Int) : Except Fault (List MenuLine) :=
  if window.items ≠ window.itemsScreen then
    linesFrom below (window.top + window.itemsScreen) fun i =>
      window.lineAt i (i + window.itemTop) (window.itemColor (i + window.itemTop))
  else
    linesFrom below (window.top + window.items) fun i => window.lineAt i i (window.itemColor i)

/-- The text lines of the menu that `draw_screen_locked` draws. -/
def drawn (window : MenuWindow) : Except Fault (List MenuLine) :=
  if window.shown then do
    let title ← linesFrom 0 window.titleLength fun i => window.lineAt i i .title
    let below := max 0 window.titleLength
    let headers ← linesFrom below window.top fun i => window.lineAt i i .menu
    let items ← window.drawnItems (max below window.top)
    return title ++ headers ++ items
  else return []

end MenuWindow

/-! ## Rows of texts -/

/-- What a row of the menu has of a text. -/
def rowText (cols : Nat) (text : Bytes) : Bytes :=
  (cString text).take cols

theorem holdsLine_copiedRow {cols : Nat} (hcols : cols < maxCols) (text : Bytes)
    (row : Nat → UInt8) : HoldsLine (copiedRow cols text row) (rowText cols text) where
  nonzero := fun c hc => cString_ne_zero text c (List.mem_of_mem_take hc)
  short := (List.length_take_le _ _).trans_lt hcols
  letter := by
    intro j hj
    have hlength : (rowText cols text).length = min cols (cString text).length :=
      List.length_take
    have hcol : j < cols := by omega
    have htext : j < (cString text).length := by omega
    rw [copiedRow, if_pos hcol, List.getD_eq_getElem _ _ htext]
    exact List.getElem_take.symm
  ended := by
    have hlength : (rowText cols text).length = min cols (cString text).length :=
      List.length_take
    rw [copiedRow]
    split
    · exact List.getD_eq_default _ _ (by omega)
    · exact if_pos (by omega)

/-- Texts that have place all go to their rows. -/
theorem copyRows_eq {cols : Nat} (hcols : cols < maxCols) {row : Nat} {texts : List Bytes}
    (hplace : row + texts.length ≤ menuMaxRows) (window : MenuWindow) :
    ∃ menu, copyRows cols row texts window =
        .ok ({ window with menu := menu }, row + texts.length) ∧
      (∀ k, k < row → menu k = window.menu k) ∧
      ∀ k text, texts[k]? = some text → HoldsLine (menu (row + k)) (rowText cols text) := by
  induction texts generalizing row window with
  | nil => exact ⟨window.menu, rfl, fun _ _ => rfl, nofun⟩
  | cons text texts ih =>
      rw [List.length_cons] at hplace
      obtain ⟨menu, hmenu, hbefore, htexts⟩ := @ih (row + 1) (by omega)
        { window with
          menu := fun i => if i = row then copiedRow cols text (window.menu i)
            else window.menu i }
      refine ⟨menu, ?_, fun k hk => ?_, fun k line hline => ?_⟩
      · rw [copyRows, if_pos (by omega), if_pos hcols, hmenu, List.length_cons, Nat.add_assoc,
          Nat.add_comm 1]
      · rw [hbefore k (by omega)]
        exact if_neg hk.ne
      · cases k with
        | zero =>
            cases hline
            rw [Nat.add_zero, hbefore row (Nat.lt_succ_self row)]
            dsimp only
            rw [if_pos rfl]
            exact holdsLine_copiedRow hcols text _
        | succ k =>
            rw [← Nat.add_assoc, Nat.add_right_comm]
            exact htexts k line hline

/-! ## The window shows the selection -/

section Showing

variable {cols : Nat} {headers items : List Bytes} {titleLength : Int} {window : MenuWindow}

/-- A menu is shown, with its selection inside the window and the window inside the items. -/
structure ShowsMenu (cols : Nat) (headers items : List Bytes) (titleLength : Int)
    (window : MenuWindow) : Prop where
  shown : window.shown = true
  title_eq : window.titleLength = titleLength
  top_eq : window.top = headers.length
  items_eq : window.items = items.length
  itemTop_nonneg : 0 ≤ window.itemTop
  itemTop_le_sel : window.itemTop ≤ window.sel
  sel_lt : window.sel < window.itemTop + window.itemsScreen
  window_le : window.itemTop + window.itemsScreen ≤ window.items
  rows_le : headers.length + items.length ≤ menuMaxRows
  rows : ∀ k text, (headers ++ items)[k]? = some text →
    HoldsLine (window.menu k) (rowText cols text)

/-- The rule of the start: the selection is in the last row unless the window is at the top. -/
theorem showsMenu_uiStartMenu {buffer : TextBuffer} (hbuffer : 0 < buffer.rows ∧ 0 < buffer.cols)
    (hcols : buffer.cols < maxCols) (hheaders : headers.length < menuMaxVisibleRows)
    (hrows : headers.length + items.length ≤ menuMaxRows) {startSel : Int}
    (hstart : 0 ≤ startSel ∧ startSel < items.length) (titleLength : Int) (window : MenuWindow) :
    ∃ started, uiStartMenu buffer headers items titleLength startSel window = .ok started ∧
      ShowsMenu buffer.cols headers items titleLength started := by
  obtain ⟨first, hfirst, -, hheaderRows⟩ := @copyRows_eq _ hcols 0 headers
    (by omega) { window with titleLength := titleLength }
  obtain ⟨menu, hmenu, hkept, hitemRows⟩ := @copyRows_eq _ hcols headers.length items
    (by omega) { window with titleLength := titleLength, menu := first }
  rw [Nat.zero_add] at hfirst
  refine ⟨placeWindow headers.length (headers.length + items.length) startSel
    { window with titleLength := titleLength, menu := menu }, ?_, ?_⟩
  · rw [uiStartMenu, if_pos hbuffer, hfirst]
    dsimp only [bind, Except.bind]
    rw [hmenu]
    rfl
  · have hcount : ((headers.length + items.length : Nat) : Int) - headers.length =
        items.length := by
      omega
    rw [placeWindow]
    simp only [hcount]
    exact
      { shown := rfl
        title_eq := rfl
        top_eq := rfl
        items_eq := rfl
        itemTop_nonneg := by
          dsimp only
          split_ifs <;> omega
        itemTop_le_sel := by
          dsimp only
          split_ifs <;> omega
        sel_lt := by
          dsimp only
          split_ifs <;> omega
        window_le := by
          dsimp only
          split_ifs <;> omega
        rows_le := hrows
        rows := by
          intro k text htext
          rw [List.getElem?_append] at htext
          split at htext
          · rename_i hheader
            change HoldsLine (menu k) _
            rw [hkept k hheader]
            have hrow := hheaderRows k text htext
            rwa [Nat.zero_add] at hrow
          · rename_i hitem
            have hrow := hitemRows (k - headers.length) text htext
            rwa [Nat.add_sub_cancel' (not_lt.mp hitem)] at hrow }

/-- The rule of a selection: the window moves only as far as it has to. -/
theorem ShowsMenu.uiMenuSelect (hshows : ShowsMenu cols headers items titleLength window)
    (sel : Int) : ShowsMenu cols headers items titleLength (uiMenuSelect window sel).1 := by
  have hnonneg := hshows.itemTop_nonneg
  have hle := hshows.itemTop_le_sel
  have hlt := hshows.sel_lt
  have hwindow := hshows.window_le
  rw [Overlay.uiMenuSelect, if_pos hshows.shown]
  exact
    { hshows with
      itemTop_nonneg := by
        dsimp only
        split_ifs <;> omega
      itemTop_le_sel := by
        dsimp only
        split_ifs <;> omega
      sel_lt := by
        dsimp only
        split_ifs <;> omega
      window_le := by
        dsimp only
        split_ifs <;> omega }

theorem ShowsMenu.selects (hshows : ShowsMenu cols headers items titleLength window)
    (sels : List Int) :
    ShowsMenu cols headers items titleLength
      (sels.foldl (fun window sel => (Overlay.uiMenuSelect window sel).1) window) := by
  induction sels generalizing window with
  | nil => exact hshows
  | cons sel sels ih => exact ih (hshows.uiMenuSelect sel)

theorem uiMenuSelect_returns (hshown : window.shown = true) (sel : Int) :
    (uiMenuSelect window sel).2 = (uiMenuSelect window sel).1.sel := by
  rw [uiMenuSelect, if_pos hshown]

/-- What the keys of a shown menu are told is what their loop goes on with. -/
theorem ShowsMenu.uiMenuSelect_loop
    (hshows : ShowsMenu cols headers items titleLength window) (sel : Int) :
    (Overlay.uiMenuSelect window sel).2 = Menus.uiMenuSelect items.length sel := by
  rw [Overlay.uiMenuSelect, if_pos hshows.shown, hshows.items_eq]
  rfl

end Showing

/-! ## The text lines of the window -/

/-- The headers, of which the first are the title. -/
def headerLines (cols : Nat) (headers : List Bytes) (titleLength : Int) : List MenuLine :=
  headers.mapIdx fun i text =>
    ⟨i, rowText cols text, if (i : Int) < titleLength then .title else .menu⟩

/-- The items of the window below the headers, with the selected one marked. -/
def itemLines (cols : Nat) (headers items : List Bytes) (itemTop itemsScreen sel : Int) :
    List MenuLine :=
  ((items.drop itemTop.toNat).take itemsScreen.toNat).mapIdx fun i text =>
    ⟨headers.length + i, rowText cols text, if itemTop + i = sel then .menuSel else .menu⟩

section Drawing

variable {cols : Nat} {headers items : List Bytes} {titleLength : Int} {window : MenuWindow}

theorem linesFrom_eq {first limit : Int} {draw : Int → Except Fault MenuLine}
    {lines : List MenuLine} (hlength : (limit - first).toNat = lines.length)
    (hdraw : ∀ (k : Nat) (hk : k < lines.length), draw (first + k) = .ok lines[k]) :
    MenuWindow.linesFrom first limit draw = .ok lines := by
  rw [MenuWindow.linesFrom, hlength]
  exact mapM_range_eq_ok hdraw

/-- A row that a header or an item was copied to. -/
theorem ShowsMenu.lineAt_eq (hshows : ShowsMenu cols headers items titleLength window) {k : Nat}
    {text : Bytes} (htext : (headers ++ items)[k]? = some text) {index : Int} (hindex : index = k)
    (row : Int) (color : LineColor) :
    window.lineAt row index color = .ok ⟨row, rowText cols text, color⟩ := by
  have hrows := hshows.rows_le
  have hlt := (List.getElem?_eq_some_iff.mp htext).1
  rw [List.length_append] at hlt
  have hinside : 0 ≤ index ∧ index < menuMaxRows := by omega
  rw [MenuWindow.lineAt, if_pos hinside, hindex, Int.toNat_natCast,
    (hshows.rows k text htext).rowString_eq]
  rfl

theorem ShowsMenu.title_drawn (hshows : ShowsMenu cols headers items titleLength window)
    (htitle : titleLength ≤ headers.length) :
    MenuWindow.linesFrom 0 window.titleLength (fun i => window.lineAt i i .title) =
      .ok ((headerLines cols headers titleLength).take titleLength.toNat) := by
  have hlength : (headerLines cols headers titleLength).length = headers.length :=
    List.length_mapIdx
  refine linesFrom_eq ?_ fun k hk => ?_
  · rw [hshows.title_eq, List.length_take, hlength]
    omega
  · rw [List.length_take, hlength] at hk
    have hheader : k < headers.length := by omega
    have htext : (headers ++ items)[k]? = some headers[k] := by
      rw [List.getElem?_append_left hheader, List.getElem?_eq_getElem hheader]
    rw [hshows.lineAt_eq htext (Int.zero_add _), List.getElem_take]
    simp only [headerLines, List.getElem_mapIdx]
    rw [if_pos (by omega), Int.zero_add]

theorem ShowsMenu.headers_drawn (hshows : ShowsMenu cols headers items titleLength window)
    (htitle : titleLength ≤ headers.length) :
    MenuWindow.linesFrom (max 0 window.titleLength) window.top
        (fun i => window.lineAt i i .menu) =
      .ok ((headerLines cols headers titleLength).drop titleLength.toNat) := by
  have hlength : (headerLines cols headers titleLength).length = headers.length :=
    List.length_mapIdx
  refine linesFrom_eq ?_ fun k hk => ?_
  · rw [hshows.title_eq, hshows.top_eq, List.length_drop, hlength]
    omega
  · rw [List.length_drop, hlength] at hk
    have hheader : titleLength.toNat + k < headers.length := by omega
    have htext : (headers ++ items)[titleLength.toNat + k]? = some headers[titleLength.toNat + k] := by
      rw [List.getElem?_append_left hheader, List.getElem?_eq_getElem hheader]
    have hrow : max 0 window.titleLength + (k : Int) = (titleLength.toNat + k : Nat) := by
      rw [hshows.title_eq]
      omega
    rw [hshows.lineAt_eq htext hrow, List.getElem_drop]
    simp only [headerLines, List.getElem_mapIdx]
    rw [if_neg (by omega), hrow]

/-- The loop over the items of a menu that is longer than its window. -/
theorem ShowsMenu.window_drawn (hshows : ShowsMenu cols headers items titleLength window) :
    MenuWindow.linesFrom window.top (window.top + window.itemsScreen)
        (fun i => window.lineAt i (i + window.itemTop) (window.itemColor (i + window.itemTop))) =
      .ok (itemLines cols headers items window.itemTop window.itemsScreen window.sel) := by
  have hnonneg := hshows.itemTop_nonneg
  have hle := hshows.itemTop_le_sel
  have hlt := hshows.sel_lt
  have hwindow := hshows.window_le
  have hitems := hshows.items_eq
  have htop := hshows.top_eq
  have hlength : (itemLines cols headers items window.itemTop window.itemsScreen window.sel).length =
      window.itemsScreen.toNat := by
    rw [itemLines, List.length_mapIdx, List.length_take, List.length_drop]
    omega
  refine linesFrom_eq ?_ fun k hk => ?_
  · rw [hlength, show window.top + window.itemsScreen - window.top = window.itemsScreen by omega]
  · rw [hlength] at hk
    have hitem : window.itemTop.toNat + k < items.length := by omega
    have htext : (headers ++ items)[headers.length + (window.itemTop.toNat + k)]? =
        some items[window.itemTop.toNat + k] := by
      rw [List.getElem?_append_right (Nat.le_add_right _ _), Nat.add_sub_cancel_left,
        List.getElem?_eq_getElem hitem]
    have hrow : window.top + (k : Int) + window.itemTop =
        (headers.length + (window.itemTop.toNat + k) : Nat) := by
      omega
    have hcolor : window.itemColor (window.top + k + window.itemTop) =
        if window.itemTop + k = window.sel then .menuSel else .menu := by
      rw [MenuWindow.itemColor]
      exact if_congr (by omega) rfl rfl
    rw [hcolor, hshows.lineAt_eq htext hrow]
    simp only [itemLines, List.getElem_mapIdx, List.getElem_take, List.getElem_drop, htop]

/-- Without a shift the other loop draws the same. -/
theorem ShowsMenu.items_drawn (hshows : ShowsMenu cols headers items titleLength window) :
    window.drawnItems window.top =
      .ok (itemLines cols headers items window.itemTop window.itemsScreen window.sel) := by
  have hdrawn := hshows.window_drawn
  rw [MenuWindow.drawnItems]
  split
  · exact hdrawn
  · rename_i hall
    have hnonneg := hshows.itemTop_nonneg
    have hwindow := hshows.window_le
    have hunmoved : window.itemTop = 0 := by omega
    rw [← not_not.mp hall, hunmoved] at hdrawn
    rw [← not_not.mp hall, hunmoved]
    simpa only [Int.add_zero] using hdrawn

/-- The lines drawn are the headers and the items of the window. -/
theorem ShowsMenu.drawn_eq (hshows : ShowsMenu cols headers items titleLength window)
    (htitle : titleLength ≤ headers.length) :
    window.drawn = .ok (headerLines cols headers titleLength ++
      itemLines cols headers items window.itemTop window.itemsScreen window.sel) := by
  have hbelow : max (max 0 window.titleLength) window.top = window.top := by
    rw [hshows.title_eq, hshows.top_eq]
    omega
  rw [MenuWindow.drawn, if_pos hshows.shown]
  dsimp only
  rw [hbelow, hshows.title_drawn htitle, hshows.headers_drawn htitle, hshows.items_drawn]
  change Except.ok (_ ++ _ ++ _) = _
  rw [List.take_append_drop]

end Drawing

/-- `prepend_title`: the headers below the lines of the title, and how many these are. -/
def prependTitle (title headers : List Bytes) : List Bytes × Int :=
  (title ++ headers, title.length)

/-- The title that a menu is started with is a part of its headers. -/
theorem prependTitle_le (title headers : List Bytes) :
    (prependTitle title headers).2 ≤ (prependTitle title headers).1.length := by
  rw [prependTitle, List.length_append]
  omega

/-- After a start and any selections the selection is in the window and the window in the
items, each call tells the caller the selection, and what is drawn are the headers and the
items of the window, all of them copied by the start.  `title_length` counts the first of the
headers. -/
theorem menu_shows_selection (fbWidth fbHeight : Nat)
    (hscreen : 0 < (TextBuffer.initial.uiInit fbWidth fbHeight).rows ∧
      0 < (TextBuffer.initial.uiInit fbWidth fbHeight).cols)
    (window : MenuWindow) (headers items : List Bytes) (titleLength startSel : Int)
    (hheaders : headers.length < menuMaxVisibleRows)
    (hrows : headers.length + items.length ≤ menuMaxRows) (htitle : titleLength ≤ headers.length)
    (hstart : 0 ≤ startSel ∧ startSel < items.length) (sels : List Int) :
    let buffer := TextBuffer.initial.uiInit fbWidth fbHeight
    ∃ started last, uiStartMenu buffer headers items titleLength startSel window = .ok started ∧
      last = sels.foldl (fun window sel => (uiMenuSelect window sel).1) started ∧
      0 ≤ last.itemTop ∧ last.itemTop ≤ last.sel ∧ last.sel < last.itemTop + last.itemsScreen ∧
      last.itemTop + last.itemsScreen ≤ last.items ∧
      (∀ sel, (uiMenuSelect last sel).2 = (uiMenuSelect last sel).1.sel) ∧
      last.drawn = .ok (headerLines buffer.cols headers titleLength ++
        itemLines buffer.cols headers items last.itemTop last.itemsScreen last.sel) := by
  have hcols : (TextBuffer.initial.uiInit fbWidth fbHeight).cols < maxCols :=
    Nat.lt_of_le_of_lt (Nat.min_le_right _ _) (by decide)
  obtain ⟨started, hstarted, hshows⟩ :=
    showsMenu_uiStartMenu hscreen hcols hheaders hrows hstart titleLength window
  have hlast := hshows.selects sels
  exact ⟨started, _, hstarted, rfl, hlast.itemTop_nonneg, hlast.itemTop_le_sel, hlast.sel_lt,
    hlast.window_le, uiMenuSelect_returns hlast.shown, hlast.drawn_eq htitle⟩

/-- Three items, of which the last is selected first and then, as far as there are items, the one
above the first. -/
theorem menu_shows_selection_small :
    let headers := (prependTitle [ascii "Title"] [[]]).1
    let items := [ascii "a", ascii "b", ascii "c"]
    ∃ started last, uiStartMenu (TextBuffer.initial.uiInit 854 480) headers items 1 2 .initial =
        .ok started ∧
      last = [3, -1].foldl (fun window sel => (uiMenuSelect window sel).1) started ∧
      0 ≤ last.itemTop ∧ last.itemTop ≤ last.sel ∧ last.sel < last.itemTop + last.itemsScreen ∧
      last.itemTop + last.itemsScreen ≤ last.items ∧
      (∀ sel, (uiMenuSelect last sel).2 = (uiMenuSelect last sel).1.sel) ∧
      last.drawn = .ok (headerLines 63 headers 1 ++
        itemLines 63 headers items last.itemTop last.itemsScreen last.sel) :=
  menu_shows_selection 854 480 (by decide) .initial (prependTitle [ascii "Title"] [[]]).1
    [ascii "a", ascii "b", ascii "c"] 1 2 (by decide) (by decide) (prependTitle_le _ _) (by decide)
    [3, -1]

end OpenRecovery.Overlay
