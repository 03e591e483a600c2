import OpenRecovery.RecoveryArgs
import Mathlib

/-!
# Menus

A menu file is read line by line into the items of the menu on display.  The keys move a
selection over the items that can be selected, until one of them is chosen.
-/

namespace OpenRecovery.Menus

open Effects

/-! ## Menu files -/

def maxMenuItems : Nat := 50

/-- An item of the menu on display. -/
structure MenuItem where
  text : Bytes
  action : Bytes
  target : Option Bytes
  tag : UInt8
  selectable : UInt8
  deriving DecidableEq

structure Menu where
  headers : List Bytes
  items : List MenuItem
  deriving DecidableEq

/-- What a menu needs to know of the rest of the recovery: the tags that are set and the
columns of the screen. -/
structure MenuEnv where
  tagIsSet : Bytes → Bool
  numColumns : Nat

def colon : UInt8 := 58

def dash : UInt8 := 45

def quote : UInt8 := 34

def slash : UInt8 := 47

def isColon (byte : UInt8) : Bool :=
  byte = colon

/-- The bytes before the last ones that are to be cut off. -/
def trimEnd (drop : UInt8 → Bool) (text : Bytes) : Bytes :=
  (text.reverse.dropWhile drop).reverse

/-- The path of a script: those without a directory are in `/bin`. -/
def scriptTarget (script : Bytes) : Bytes :=
  match script with
  | first :: rest =>
      if first = slash ∨ first = quote ∧ rest.head? = some slash then script
      else if first = quote then ascii "\"/bin/" ++ rest
      else ascii "/bin/" ++ script
  | [] => ascii "/bin/"

/-- The text of a break line.  One that is only a star has no terminator in the source. -/
def breakText (numColumns : Nat) (name : Bytes) : Bytes :=
  if name = ascii "*" then List.replicate numColumns dash
  else
    let length := min name.length (numColumns - 4)
    let left := (numColumns - length - 2) / 2
    List.replicate left dash ++ 32 :: name.take length ++
      32 :: List.replicate (numColumns - left - length - 2) dash

/-- What `create_menu` stores for a line with a name, an action and a target. -/
def makeItem (env : MenuEnv) (name action target : Bytes) : MenuItem :=
  if action = ascii "shell" then
    ⟨name, action, some (scriptTarget target), 0xFF, 1⟩
  else if action = ascii "tag" then
    let path := ascii "/tags/." ++ target
    if env.tagIsSet path then ⟨ascii "[X] " ++ name, action, some path, 1, 1⟩
    else ⟨ascii "[ ] " ++ name, action, some path, 0, 1⟩
  else if action = ascii "break" then
    ⟨breakText env.numColumns name, action, if name = ascii "*" then none else some (ascii "*"),
      0xFF, 0⟩
  else if action = ascii "label" then ⟨name, action, some target, 0xFF, 0⟩
  else ⟨name, action, some target, 0xFF, 1⟩

/-- The item of a line `name:action:target`, if it is one. -/
def menuItem (env : MenuEnv) (line : Bytes) : Option MenuItem :=
  if colon ∉ line then none
  else
    match strtok isColon [] (line ++ [0]) with
    | none => none
    | some (name, passed, rest) =>
        match strtok isColon passed rest with
        | none => none
        | some (action, passed, rest) =>
            match strtok isNewline passed rest with
            | none => none
            | some (target, _, _) =>
                some (makeItem env name action
                  (trimEnd (fun byte => byte = 32 ∨ byte = carriageReturn) target))

/-- The loop of `create_menu`; without headers the title is still to come. -/
def readMenu (env : MenuEnv) : (fuel : Nat) → (data : Bytes) → (headers : Option (List Bytes)) →
    (items : List MenuItem) → Menu
  | 0, _, headers, items => ⟨headers.getD [], items⟩
  | fuel + 1, data, headers, items =>
      if items.length < maxMenuItems then
        let window := fgets data
        if window = [] then ⟨headers.getD [], items⟩
        else
          let line := cString window
          let rest := data.drop window.length
          if line = [] ∨ line.head? = some 35 then readMenu env fuel rest headers items
          else
            match headers with
            | none =>
                let title := trimEnd
                  (fun byte => byte = 32 ∨ byte = carriageReturn ∨ byte = newline) line
                readMenu env fuel rest (some [title, []]) items
            | some _ =>
                match menuItem env line with
                | none => readMenu env fuel rest headers items
                | some item => readMenu env fuel rest headers (items ++ [item])
      else ⟨headers.getD [], items⟩

/-- The menu that `create_menu` makes of a file it could open. -/
def createMenu (env : MenuEnv) (data : Bytes) : Menu :=
  readMenu env data.length data none []

/-! ## Selection -/

inductive Key where
  | down
  | volumeDown
  | up
  | volumeUp
  | center
  | camera
  | enter
  | other
  deriving DecidableEq

def noAction : Int := -1

def highlightUp : Int := -2

def highlightDown : Int := -3

def selectItem : Int := -4

/-- `device_handle_key` of the default recovery interface. -/
def deviceHandleKey (key : Key) (visible : Bool) : Int :=
  if visible then
    match key with
    | .down | .volumeDown => highlightDown
    | .up | .volumeUp => highlightUp
    | .center | .camera | .enter => selectItem
    | .other => noAction
  else noAction

/-- The search for the terminator of the items, which a full table does not have. -/
def numItems (items : List MenuItem) : Option Nat :=
  if items.length < maxMenuItems then some items.length else none

/-- An entry of `MENU_ITEMS_SELECTABLE`: those without an item are set as well. -/
def selectability (items : List MenuItem) (index : Int) : Option UInt8 :=
  if 0 ≤ index ∧ index < maxMenuItems then
    some ((items[index.toNat]?).elim 0xFF MenuItem.selectable)
  else none

/-- One round of the search for the item above. -/
def stepUp (count : Nat) (selected : Int) : Int :=
  if selected - 1 < 0 then count - 1 else selected - 1

def stepDown (count : Nat) (selected : Int) : Int :=
  if selected + 1 ≥ count then 0 else selected + 1

/-- The search loops, which only a selectable item ends. -/
def search (step : Int → Int) (items : List MenuItem) : (fuel : Nat) → (selected : Int) → Option Int
  | 0, _ => none
  | fuel + 1, selected => do
      let selectable ← selectability items (step selected)
      if selectable ≠ 0 then some (step selected) else search step items fuel (step selected)

/-- `ui_menu_select` while the menu is shown. -/
def uiMenuSelect (count : Nat) (sel : Int) : Int :=
  let sel := if sel < 0 then 0 else sel
  if sel ≥ count then count - 1 else sel

inductive Selection where
  | waiting (selected : Int)
  | chosen (item : Int)
  deriving DecidableEq

/-- The loop of `get_menu_selection` on the keys pressed so far, each with whether the text
is visible. -/
def selectionLoop (fuel : Nat) (items : List MenuItem) (count : Nat) (menuOnly : Bool) :
    (selected : Int) → List (Key × Bool) → Option Selection
  | selected, [] => some (.waiting selected)
  | selected, (key, visible) :: keys =>
      let action := deviceHandleKey key visible
      if action < 0 then
        if action = highlightUp then do
          let found ← search (stepUp count) items fuel selected
          selectionLoop fuel items count menuOnly (uiMenuSelect count found) keys
        else if action = highlightDown then do
          let found ← search (stepDown count) items fuel selected
          selectionLoop fuel items count menuOnly (uiMenuSelect count found) keys
        else if action = selectItem ∧ 0 ≤ selected then some (.chosen selected)
        else selectionLoop fuel items count menuOnly selected keys
      else if !menuOnly then some (.chosen action)
      else selectionLoop fuel items count menuOnly selected keys

/-- The selection a menu starts with. -/
def startSelection (count : Nat) (startSel : Int) : Int :=
  let sel := if startSel ≥ count then (count : Int) - 1 else startSel
  if sel < 0 then 0 else sel

def getMenuSelection (fuel : Nat) (items : List MenuItem) (startSel : Int) (menuOnly : Bool)
    (keys : List (Key × Bool)) : Option Selection := do
  let count ← numItems items
  selectionLoop fuel items count menuOnly (startSelection count startSel) keys

/-! ## Every key ends on an item that can be selected -/

/-- An item that can be selected. -/
def IsSelectable (items : List MenuItem) (index : Int) : Prop :=
  ∃ position item, index = (position : Nat) ∧ items[position]? = some item ∧ item.selectable ≠ 0

section Selecting

variable {items : List MenuItem}

theorem IsSelectable.range {index : Int} (hindex : IsSelectable items index) :
    0 ≤ index ∧ index < items.length := by
  obtain ⟨position, item, rfl, hitem, -⟩ := hindex
  have hlength := (List.getElem?_eq_some_iff.mp hitem).1
  omega

/-- In a menu with free entries the search looks at items only. -/
theorem selectability_item
    (hfree : items.length < maxMenuItems) {position : Nat} (hposition : position < items.length) :
    ∃ item, items[position]? = some item ∧
      selectability items position = some item.selectable := by
  refine ⟨items[position], List.getElem?_eq_getElem hposition, ?_⟩
  rw [selectability, if_pos (by omega), Int.toNat_natCast, List.getElem?_eq_getElem hposition]
  rfl

/-- A search that passes over all items one after the other ends on one that can be
selected. -/
theorem search_finds
    {step : Int → Int} (hfree : items.length < maxMenuItems)
    (hstep : ∀ index : Int, 0 ≤ index → index < items.length →
      0 ≤ step index ∧ step index < items.length)
    {index target : Int} (hindex : 0 ≤ index ∧ index < items.length)
    (htarget : IsSelectable items target) {rounds : Nat}
    (hreaches : step^[rounds + 1] index = target) :
    ∃ found, search step items (rounds + 1) index = some found ∧ IsSelectable items found := by
  induction rounds generalizing index with
  | zero =>
      obtain ⟨position, item, rfl, hitem, hselectable⟩ := htarget
      have hposition : position < items.length := (List.getElem?_eq_some_iff.mp hitem).1
      obtain ⟨found, hfound, hentry⟩ := selectability_item hfree hposition
      have hsame : found = item := Option.some.inj (hfound.symm.trans hitem)
      subst hsame
      have hnext : step index = (position : Int) := hreaches
      refine ⟨position, ?_, position, found, rfl, hitem, hselectable⟩
      rw [search, hnext, hentry]
      exact if_pos hselectable
  | succ rounds ih =>
      obtain ⟨hlow, hhigh⟩ := hstep index hindex.1 hindex.2
      obtain ⟨position, hposition⟩ := Int.eq_ofNat_of_zero_le hlow
      obtain ⟨item, hitem, hentry⟩ := selectability_item hfree
        (show position < items.length by omega)
      rw [← hposition] at hentry
      by_cases hselectable : item.selectable ≠ 0
      · refine ⟨step index, ?_, position, item, hposition, hitem, hselectable⟩
        rw [search, hentry]
        exact if_pos hselectable
      · obtain ⟨found, hfound, hgood⟩ := ih ⟨hlow, hhigh⟩
          (by rw [← hreaches]; exact (Function.iterate_succ_apply step (rounds + 1) index).symm)
        refine ⟨found, ?_, hgood⟩
        rw [search, hentry]
        exact (if_neg hselectable).trans hfound

theorem stepDown_range {count : Nat} {index : Int} (hlow : 0 ≤ index) (_ : index < count) :
    0 ≤ stepDown count index ∧ stepDown count index < count := by
  rw [stepDown]
  split_ifs <;> omega

theorem stepUp_range {count : Nat} {index : Int} (_ : 0 ≤ index) (hhigh : index < count) :
    0 ≤ stepUp count index ∧ stepUp count index < count := by
  rw [stepUp]
  split_ifs <;> omega

/-- Going down over the end comes to every item, at the latest to the one it began with. -/
theorem stepDown_iterate {count : Nat} {index : Int} (hhigh : index < count)
    {rounds : Nat} (hrounds : rounds ≤ count) :
    (stepDown count)^[rounds] index =
      if index + rounds < count then index + rounds else index + rounds - count := by
  induction rounds with
  | zero => rw [Function.iterate_zero, id, if_pos (by omega), Int.natCast_zero, Int.add_zero]
  | succ rounds ih =>
      rw [Function.iterate_succ_apply', ih (by omega), stepDown]
      split_ifs <;> omega

theorem stepUp_iterate {count : Nat} {index : Int} (hlow : 0 ≤ index)
    {rounds : Nat} (hrounds : rounds ≤ count) :
    (stepUp count)^[rounds] index =
      if 0 ≤ index - rounds then index - rounds else index - rounds + count := by
  induction rounds with
  | zero => rw [Function.iterate_zero, id, if_pos (by omega), Int.natCast_zero, Int.sub_zero]
  | succ rounds ih =>
      rw [Function.iterate_succ_apply', ih (by omega), stepUp]
      split_ifs <;> omega

/-- From an item that can be selected both searches end within one round over the items. -/
theorem search_down (hfree : items.length < maxMenuItems) {index : Int}
    (hindex : IsSelectable items index) :
    ∃ found, search (stepDown items.length) items items.length index = some found ∧
      IsSelectable items found := by
  obtain ⟨hlow, hhigh⟩ := hindex.range
  obtain ⟨rounds, hrounds⟩ : ∃ rounds, items.length = rounds + 1 :=
    ⟨items.length - 1, by omega⟩
  have hback : (stepDown items.length)^[rounds + 1] index = index := by
    rw [stepDown_iterate hhigh (by omega), if_neg (by omega)]
    omega
  have hfound := search_finds hfree (fun _ => stepDown_range) ⟨hlow, hhigh⟩ hindex hback
  rwa [← hrounds] at hfound

theorem search_up (hfree : items.length < maxMenuItems) {index : Int}
    (hindex : IsSelectable items index) :
    ∃ found, search (stepUp items.length) items items.length index = some found ∧
      IsSelectable items found := by
  obtain ⟨hlow, hhigh⟩ := hindex.range
  obtain ⟨rounds, hrounds⟩ : ∃ rounds, items.length = rounds + 1 :=
    ⟨items.length - 1, by omega⟩
  have hback : (stepUp items.length)^[rounds + 1] index = index := by
    rw [stepUp_iterate hlow (by omega), if_neg (by omega)]
    omega
  have hfound := search_finds hfree (fun _ => stepUp_range) ⟨hlow, hhigh⟩ hindex hback
  rwa [← hrounds] at hfound

theorem uiMenuSelect_item {index : Int} (hindex : IsSelectable items index) :
    uiMenuSelect items.length index = index := by
  obtain ⟨hlow, hhigh⟩ := hindex.range
  rw [uiMenuSelect]
  simp only [if_neg (show ¬ index < 0 by omega), if_neg (show ¬ index ≥ items.length by omega)]

theorem deviceHandleKey_neg (key : Key) (visible : Bool) : deviceHandleKey key visible < 0 := by
  cases key <;> cases visible <;> decide

/-- The keys keep the selection on items that can be selected. -/
theorem selectionLoop_selectable (hfree : items.length < maxMenuItems) (menuOnly : Bool)
    {selected : Int} (hselected : IsSelectable items selected) (keys : List (Key × Bool)) :
    ∃ result, selectionLoop items.length items items.length menuOnly selected keys = some result ∧
      ∀ item, result = .chosen item → IsSelectable items item := by
  induction keys generalizing selected with
  | nil => exact ⟨.waiting selected, rfl, nofun⟩
  | cons press keys ih =>
      rw [selectionLoop]
      simp only [if_pos (deviceHandleKey_neg press.1 press.2)]
      by_cases hup : deviceHandleKey press.1 press.2 = highlightUp
      · obtain ⟨found, hfound, hgood⟩ := search_up hfree hselected
        obtain ⟨result, hresult, hchosen⟩ := ih hgood
        refine ⟨result, ?_, hchosen⟩
        rw [if_pos hup, hfound, ← hresult, ← uiMenuSelect_item hgood]
        simp only [Option.bind_eq_bind, Option.bind_some, uiMenuSelect_item hgood]
      by_cases hdown : deviceHandleKey press.1 press.2 = highlightDown
      · obtain ⟨found, hfound, hgood⟩ := search_down hfree hselected
        obtain ⟨result, hresult, hchosen⟩ := ih hgood
        refine ⟨result, ?_, hchosen⟩
        rw [if_neg hup, if_pos hdown, hfound, ← hresult]
        simp only [Option.bind_eq_bind, Option.bind_some, uiMenuSelect_item hgood]
      rw [if_neg hup, if_neg hdown]
      by_cases hselect : deviceHandleKey press.1 press.2 = selectItem ∧ 0 ≤ selected
      · refine ⟨.chosen selected, if_pos hselect, ?_⟩
        rintro item ⟨⟩
        exact hselected
      · rw [if_neg hselect]
        exact ih hselected

/-- Selecting always ends on an item that can be selected exactly if the menu does so at its
start and leaves an entry of the table free. -/
theorem getMenuSelection_selectable_iff (startSel : Int) (menuOnly : Bool) :
    (∀ keys, ∃ fuel result,
      getMenuSelection fuel items startSel menuOnly keys = some result ∧
        ∀ item, result = .chosen item → IsSelectable items item) ↔
      items.length < maxMenuItems ∧ IsSelectable items (startSelection items.length startSel) := by
  constructor
  · intro hkeys
    obtain ⟨fuel, result, hresult, hchosen⟩ := hkeys [(.enter, true)]
    rw [getMenuSelection, numItems] at hresult
    by_cases hfree : items.length < maxMenuItems
    · have hstart : 0 ≤ startSelection items.length startSel := by
        rw [startSelection]
        split_ifs <;> omega
      have henter : selectionLoop fuel items items.length menuOnly
          (startSelection items.length startSel) [(.enter, true)] =
            some (.chosen (startSelection items.length startSel)) := by
        rw [selectionLoop]
        simp only [if_pos (deviceHandleKey_neg .enter true)]
        rw [if_neg (by decide), if_neg (by decide), if_pos ⟨rfl, hstart⟩]
      rw [if_pos hfree] at hresult
      exact ⟨hfree, hchosen _ (Option.some.inj (hresult.symm.trans henter))⟩
    · rw [if_neg hfree] at hresult
      cases hresult
  · rintro ⟨hfree, hstart⟩ keys
    obtain ⟨result, hresult, hchosen⟩ := selectionLoop_selectable hfree menuOnly hstart keys
    refine ⟨items.length, result, ?_, hchosen⟩
    rw [getMenuSelection, numItems, if_pos hfree]
    exact hresult

end Selecting

/-! ## Items of a menu file -/

/-- Labels and breaks are the items that cannot be selected. -/
theorem makeItem_selectable (env : MenuEnv) (name action target : Bytes) :
    (makeItem env name action target).action = action ∧
      ((makeItem env name action target).selectable = 0 ↔
        action = ascii "break" ∨ action = ascii "label") := by
  rw [makeItem]
  by_cases hshell : action = ascii "shell"
  · rw [if_pos hshell]
    subst hshell
    exact ⟨rfl, iff_of_false (show (1 : UInt8) ≠ 0 by decide) (by decide)⟩
  rw [if_neg hshell]
  by_cases htag : action = ascii "tag"
  · rw [if_pos htag]
    subst htag
    dsimp only
    split_ifs
    · exact ⟨rfl, iff_of_false (show (1 : UInt8) ≠ 0 by decide) (by decide)⟩
    · exact ⟨rfl, iff_of_false (show (1 : UInt8) ≠ 0 by decide) (by decide)⟩
  rw [if_neg htag]
  by_cases hbreak : action = ascii "break"
  · rw [if_pos hbreak]
    exact ⟨rfl, iff_of_true rfl (.inl hbreak)⟩
  rw [if_neg hbreak]
  by_cases hlabel : action = ascii "label"
  · rw [if_pos hlabel]
    exact ⟨rfl, iff_of_true rfl (.inr hlabel)⟩
  · rw [if_neg hlabel]
    exact ⟨rfl, iff_of_false (show (1 : UInt8) ≠ 0 by decide) (not_or.mpr ⟨hbreak, hlabel⟩)⟩

/-- What holds of every item the loop stores holds of the items of the menu. -/
theorem readMenu_items (env : MenuEnv) (good : MenuItem → Prop)
    (hmake : ∀ name action target, good (makeItem env name action target)) {fuel : Nat}
    {data : Bytes} {headers : Option (List Bytes)} {items : List MenuItem}
    (hitems : ∀ item ∈ items, good item) (hcount : items.length ≤ maxMenuItems) :
    (∀ item ∈ (readMenu env fuel data headers items).items, good item) ∧
      (readMenu env fuel data headers items).items.length ≤ maxMenuItems := by
  induction fuel generalizing data headers items with
  | zero => exact ⟨hitems, hcount⟩
  | succ fuel ih =>
      rw [readMenu]
      by_cases hfree : items.length < maxMenuItems
      · rw [if_pos hfree]
        dsimp only
        split_ifs
        · exact ⟨hitems, hcount⟩
        · exact ih hitems hcount
        · cases headers with
          | none => exact ih hitems hcount
          | some headers =>
              cases hitem : menuItem env (cString (fgets data)) with
              | none => exact ih hitems hcount
              | some item =>
                  have hgood : good item := by
                    rw [menuItem] at hitem
                    split_ifs at hitem
                    split at hitem
                    · cases hitem
                    · split at hitem
                      · cases hitem
                      · split at hitem
                        · cases hitem
                        · cases hitem
                          exact hmake _ _ _
                  refine ih ?_ ?_
                  · intro other hother
                    rcases List.mem_append.mp hother with hold | hnew
                    · exact hitems other hold
                    · rw [List.mem_singleton.mp hnew]
                      exact hgood
                  · rw [List.length_append, List.length_singleton]
                    exact hfree
      · rw [if_neg hfree]
        exact ⟨hitems, hcount⟩

/-- What is executed is neither a label nor a break. -/
theorem createMenu_selectable (env : MenuEnv) (data : Bytes) :
    ∀ item ∈ (createMenu env data).items, item.selectable = 0 ↔
      item.action = ascii "break" ∨ item.action = ascii "label" := by
  refine (readMenu_items env _ ?_ (List.forall_mem_nil _) (Nat.zero_le _)).1
  intro name action target
  obtain ⟨haction, hselectable⟩ := makeItem_selectable env name action target
  rwa [haction]

/-- Navigation in the menu of a file ends on items that can be selected exactly if the file
has such an item at the start and at most 49 items. -/
theorem createMenu_navigation_iff (env : MenuEnv) (data : Bytes) (startSel : Int)
    (menuOnly : Bool) :
    (∀ keys, ∃ fuel result,
      getMenuSelection fuel (createMenu env data).items startSel menuOnly keys = some result ∧
        ∀ item, result = .chosen item → IsSelectable (createMenu env data).items item) ↔
      (createMenu env data).items.length < maxMenuItems ∧
        IsSelectable (createMenu env data).items
          (startSelection (createMenu env data).items.length startSel) :=
  getMenuSelection_selectable_iff startSel menuOnly

/-- A menu that begins with a label. -/
theorem label_chosen :
    (createMenu ⟨fun _ => false, 48⟩ (ascii "Title\nFiles:label:*\nReboot:reboot:*\n")).items.map
        (fun item => (item.action, item.selectable)) =
      [(ascii "label", 0), (ascii "reboot", 1)] ∧
    getMenuSelection 50
      (createMenu ⟨fun _ => false, 48⟩ (ascii "Title\nFiles:label:*\nReboot:reboot:*\n")).items 0
        false [(.enter, true)] = some (.chosen 0) := by
  decide

end OpenRecovery.Menus
