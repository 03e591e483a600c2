import OpenRecovery.ArgsRestart
import OpenRecovery.CheckedBuffers
import OpenRecovery.FallibleRuns
import OpenRecovery.Menu
import Mathlib

/-!
# The tables of a menu

`create_menu` fills four tables with strings it allocates.  A byte of an allocated string that
is not written is unknown, and a write behind the string is a fault.
-/

namespace OpenRecovery.Menus

open Effects

/-! ## Strings -/

/-- The bytes of an allocated string, without those that are not written. -/
abbrev Block := List (Option UInt8)

/-- A write outside an allocated string. -/
inductive TableFault where
  | stringWrite
  deriving DecidableEq

def Block.malloc (size : Nat) : Block :=
  List.replicate size none

def Block.write (block : Block) (start : Nat) (text : Bytes) : Except TableFault Block :=
  storeAll .stringWrite block start (text.map some)

/-- `malloc` of a size and `strcpy` or `sprintf` of a text. -/
def Block.make (size : Nat) (text : Bytes) : Except TableFault Block :=
  (Block.malloc size).write 0 (text ++ [0])

/-- The block of a text and its terminator. -/
def Block.ofText (text : Bytes) : Block :=
  (text ++ [0]).map some

/-! ## Tables -/

/-- `MENU_HEADERS`, `MENU_ITEMS` and the tables beside it. -/
structure MenuTables where
  headers : Nat → Option Block
  items : Nat → Option Block
  tags : Nat → UInt8
  actions : Nat → Option Block
  targets : Nat → Option Block
  selectable : Nat → UInt8

namespace MenuTables

/-- The tables after `delete_menu`. -/
def empty : MenuTables where
  headers := fun _ => none
  items := fun _ => none
  tags := fun _ => 0xFF
  actions := fun _ => none
  targets := fun _ => none
  selectable := fun _ => 0xFF

def setHeader (tables : MenuTables) (idx : Nat) (block : Option Block) : MenuTables :=
  { tables with headers := Function.update tables.headers idx block }

def setItem (tables : MenuTables) (idx : Nat) (block : Option Block) : MenuTables :=
  { tables with items := Function.update tables.items idx block }

def setTag (tables : MenuTables) (idx : Nat) (tag : UInt8) : MenuTables :=
  { tables with tags := Function.update tables.tags idx tag }

def setAction (tables : MenuTables) (idx : Nat) (block : Option Block) : MenuTables :=
  { tables with actions := Function.update tables.actions idx block }

def setTarget (tables : MenuTables) (idx : Nat) (block : Option Block) : MenuTables :=
  { tables with targets := Function.update tables.targets idx block }

def setSelectable (tables : MenuTables) (idx : Nat) (selectable : UInt8) : MenuTables :=
  { tables with selectable := Function.update tables.selectable idx selectable }

end MenuTables

/-- The target of a script; one with a directory is copied as it is. -/
def shellTarget (target : Bytes) : Except TableFault Block :=
  if target.head? = some slash ∨ target.head? = some quote ∧ target[1]? = some slash then
    Block.make (target.length + 1) target
  else if target.head? = some quote then
    Block.make ((ascii "/bin").length + target.length + 2) (ascii "\"/bin/" ++ target.drop 1)
  else Block.make ((ascii "/bin").length + target.length + 2) (ascii "/bin/" ++ target)

/-- The line of a break item that is only a star. -/
def fullBreak (numColumns : Nat) : Except TableFault Block :=
  (Block.malloc (numColumns + 1)).write 0 (List.replicate numColumns dash)

/-- The line of a break item with a text, which is written from the left to the right. -/
def namedBreak (numColumns : Nat) (name : Bytes) : Except TableFault Block := do
  let len := if name.length > numColumns - 4 then numColumns - 4 else name.length
  let left := (numColumns - len - 2) / 2
  let block ← (Block.malloc (numColumns + 1)).write 0 (List.replicate left dash)
  let block ← block.write left [32]
  let block ← block.write (left + 1) (name.take len)
  let block ← block.write (left + 1 + len) [32]
  let block ← block.write (left + len + 2) (List.replicate (numColumns - (left + len + 2)) dash)
  block.write numColumns [0]

/-- What is stored for a line that has all three parts. -/
def storeParts (env : MenuEnv) (tables : MenuTables) (idx : Nat) (name action target : Bytes) :
    Except TableFault MenuTables := do
  let tables := tables.setSelectable idx 1
  if action = ascii "shell" then
    let block ← shellTarget target
    return tables.setTarget idx block
  else if action = ascii "tag" then
    let path := ascii "/tags/." ++ target
    let block ← Block.make ((ascii "/tags").length + target.length + 3) path
    let tables := (tables.setTarget idx block).setTag idx (if env.tagIsSet path then 1 else 0)
    let item ← Block.make (name.length + 5)
      ((if env.tagIsSet path then ascii "[X] " else ascii "[ ] ") ++ name)
    return tables.setItem idx item
  else if action = ascii "break" then
    let tables := tables.setSelectable idx 0
    if name = ascii "*" then
      let item ← fullBreak env.numColumns
      return tables.setItem idx item
    else
      let item ← namedBreak env.numColumns name
      let block ← Block.make 2 (ascii "*")
      return (tables.setItem idx item).setTarget idx block
  else
    let block ← Block.make (target.length + 1) target
    let tables := tables.setTarget idx block
    return if action = ascii "label" then tables.setSelectable idx 0 else tables

/-- A line after the title: the entries are taken back if a part is missing. -/
def readItem (env : MenuEnv) (tables : MenuTables) (idx : Nat) (line : Bytes) :
    Except TableFault (MenuTables × Nat) :=
  if colon ∉ line then .ok (tables, idx)
  else
    match strtok isColon [] (line ++ [0]) with
    | none => .ok (tables, idx)
    | some (name, passed, rest) => do
        let item ← Block.make (name.length + 1) name
        let tables := tables.setItem idx item
        match strtok isColon passed rest with
        | none => return (tables.setItem idx none, idx)
        | some (action, passed, rest) =>
            let block ← Block.make (action.length + 1) action
            let tables := tables.setAction idx block
            match strtok isNewline passed rest with
            | none => return ((tables.setItem idx none).setAction idx none, idx)
            | some (target, _, _) =>
                let target := trimEnd (fun byte => byte = 32 ∨ byte = carriageReturn) target
                let tables ← storeParts env tables idx name action target
                return (tables, idx + 1)

/-- The title of a menu and the empty header below it. -/
def readHeaders (tables : MenuTables) (line : Bytes) : Except TableFault MenuTables := do
  let title := trimEnd (fun byte => byte = 32 ∨ byte = carriageReturn ∨ byte = newline) line
  let first ← Block.make (title.length + 1) title
  let second ← Block.make 1 []
  return ((tables.setHeader 0 first).setHeader 1 second).setHeader 2 none

theorem drop_fgets_length {data : Bytes} (hline : fgets data ≠ []) :
    (data.drop (fgets data).length).length < data.length := by
  have hpos := List.length_pos_of_ne_nil hline
  have hdata : data ≠ [] := by
    rintro rfl
    exact hline rfl
  have := List.length_pos_of_ne_nil hdata
  rw [List.length_drop]
  omega

/-- What `fgets` returns one after the other. -/
def linesRead (data : Bytes) : List Bytes :=
  if _ : fgets data = [] then []
  else fgets data :: linesRead (data.drop (fgets data).length)
termination_by data.length
decreasing_by
  rename_i hend
  exact drop_fgets_length hend

def isSkipped (line : Bytes) : Bool :=
  line = [] ∨ line.head? = some 35

/-- The loop of `create_menu` over the lines. -/
def fillTables (env : MenuEnv) : (lines : List Bytes) → (readTitle : Bool) →
    (tables : MenuTables) → (idx : Nat) → Except TableFault MenuTables
  | [], _, tables, _ => .ok tables
  | line :: lines, readTitle, tables, idx =>
      if idx < maxMenuItems then
        if isSkipped (cString line) then fillTables env lines readTitle tables idx
        else if readTitle then do
          let tables ← readHeaders tables (cString line)
          fillTables env lines false tables idx
        else do
          let (tables, idx) ← readItem env tables idx (cString line)
          fillTables env lines false tables idx
      else .ok tables

/-- The tables that `create_menu` makes of a file it could open. -/
def createTables (env : MenuEnv) (data : Bytes) : Except TableFault MenuTables :=
  fillTables env (linesRead data) true .empty 0

/-! ## Allocated strings -/

theorem Block.write_eq {block : Block} {start : Nat} {text : Bytes}
    (hfits : start + text.length ≤ block.length) :
    block.write start text = .ok (overwrite block start (text.map some)) :=
  storeAll_eq _ (by rwa [List.length_map])

/-- A string that has exactly the size of its text and terminator. -/
theorem Block.make_eq {size : Nat} {text : Bytes} (hsize : text.length + 1 = size) :
    Block.make size text = .ok (Block.ofText text) := by
  have hlength : (Block.malloc size).length = (text ++ [0]).length := by
    rw [Block.malloc, List.length_replicate, List.length_append, ← hsize]
    rfl
  rw [Block.make, Block.write_eq (by omega), overwrite, List.length_map, List.take_zero,
    List.nil_append, Nat.zero_add, ← hlength, List.drop_length, List.append_nil]
  rfl

/-- A string of which the first bytes are written. -/
def Block.written (text : Bytes) (free : Nat) : Block :=
  text.map some ++ List.replicate free none

theorem Block.write_next {done text : Bytes} {start free rest : Nat}
    (hstart : start = done.length) (hfree : free = text.length + rest) :
    (Block.written done free).write start text = .ok (Block.written (done ++ text) rest) := by
  have hlength : (Block.written done free).length = done.length + free := by
    rw [Block.written, List.length_append, List.length_map, List.length_replicate]
  have hdone : (done.map (some : UInt8 → Option UInt8)).length = done.length :=
    List.length_map _
  rw [Block.write_eq (by omega), overwrite, Block.written, hstart, List.length_map,
    List.take_left' hdone, ← List.drop_drop, List.drop_left' hdone, List.drop_replicate,
    Block.written, List.map_append, hfree, Nat.add_sub_cancel_left]

theorem Block.write_first {text : Bytes} {free rest : Nat} (hfree : free = text.length + rest) :
    (Block.malloc free).write 0 text = .ok (Block.written text rest) :=
  @Block.write_next [] text 0 free rest rfl hfree

theorem shellTarget_eq (target : Bytes) :
    shellTarget target = .ok (Block.ofText (scriptTarget target)) := by
  cases target with
  | nil =>
      exact @Block.make_eq _ (ascii "/bin/") rfl
  | cons first rest =>
      have hhead : (first :: rest).head? = some slash ∨
          (first :: rest).head? = some quote ∧ (first :: rest)[1]? = some slash ↔
            first = slash ∨ first = quote ∧ rest.head? = some slash := by
        rw [List.head?_cons, Option.some_inj, Option.some_inj, List.getElem?_cons_succ,
          List.head?_eq_getElem?]
      rw [shellTarget, scriptTarget]
      by_cases hslash : first = slash ∨ first = quote ∧ rest.head? = some slash
      · rw [if_pos (hhead.mpr hslash), if_pos hslash, Block.make_eq rfl]
      · rw [if_neg (mt hhead.mp hslash), if_neg hslash, List.head?_cons]
        by_cases hquote : first = quote
        · rw [if_pos (congrArg some hquote), if_pos hquote, Block.make_eq]
          · rfl
          · rw [List.length_append, List.drop_one, List.tail_cons, List.length_cons]
            change 6 + rest.length + 1 = 4 + (rest.length + 1) + 2
            omega
        · rw [if_neg (mt Option.some.inj hquote), if_neg hquote, Block.make_eq]
          rw [List.length_append]
          change 5 + (first :: rest).length + 1 = 4 + (first :: rest).length + 2
          omega

theorem fullBreak_eq (numColumns : Nat) :
    fullBreak numColumns = .ok (Block.written (List.replicate numColumns dash) 1) :=
  Block.write_first (by rw [List.length_replicate])

/-- The line of a break with a text fills the columns. -/
theorem namedBreak_eq {numColumns : Nat} (hcolumns : 6 ≤ numColumns) {name : Bytes}
    (hname : name ≠ ascii "*") :
    namedBreak numColumns name = .ok (Block.ofText (breakText numColumns name)) ∧
      (breakText numColumns name).length = numColumns := by
  have hlen : (if name.length > numColumns - 4 then numColumns - 4 else name.length) =
      min name.length (numColumns - 4) := by
    split
    · omega
    · omega
  rw [namedBreak, breakText, if_neg hname, hlen]
  dsimp only
  obtain ⟨len, hlength⟩ : ∃ len, len = min name.length (numColumns - 4) := ⟨_, rfl⟩
  obtain ⟨left, hleft⟩ : ∃ left, left = (numColumns - len - 2) / 2 := ⟨_, rfl⟩
  obtain ⟨right, hright⟩ : ∃ right, right = numColumns - (left + len + 2) := ⟨_, rfl⟩
  have htake : (name.take len).length = len := List.length_take_of_le (by omega)
  have hfull : numColumns = left + len + 2 + right := by omega
  rw [← hlength, ← hleft, ← hright, show numColumns - left - len - 2 = right by omega]
  have hfirst : (Block.malloc (numColumns + 1)).write 0 (List.replicate left dash) =
      .ok (Block.written (List.replicate left dash) (len + right + 3)) :=
    Block.write_first (by rw [List.length_replicate]; omega)
  have hspace : (Block.written (List.replicate left dash) (len + right + 3)).write left [32] =
      .ok (Block.written (List.replicate left dash ++ [32]) (len + right + 2)) :=
    Block.write_next (by rw [List.length_replicate]) (by rw [List.length_singleton]; omega)
  have htext : (Block.written (List.replicate left dash ++ [32]) (len + right + 2)).write
        (left + 1) (name.take len) =
      .ok (Block.written (List.replicate left dash ++ [32] ++ name.take len) (right + 2)) :=
    Block.write_next (by rw [List.length_append, List.length_replicate]; rfl)
      (by rw [htake]; omega)
  have hlater : (Block.written (List.replicate left dash ++ [32] ++ name.take len)
        (right + 2)).write (left + 1 + len) [32] =
      .ok (Block.written (List.replicate left dash ++ [32] ++ name.take len ++ [32])
        (right + 1)) :=
    Block.write_next
      (by rw [List.length_append, List.length_append, List.length_replicate, htake]; rfl)
      (by rw [List.length_singleton]; omega)
  have hdashes : (Block.written (List.replicate left dash ++ [32] ++ name.take len ++ [32])
        (right + 1)).write (left + len + 2) (List.replicate right dash) =
      .ok (Block.written (List.replicate left dash ++ [32] ++ name.take len ++ [32] ++
        List.replicate right dash) 1) :=
    Block.write_next
      (by simp only [List.length_append, List.length_replicate, htake, List.length_singleton]
          omega)
      (by rw [List.length_replicate])
  have hall : (List.replicate left dash ++ [32] ++ name.take len ++ [32] ++
      List.replicate right dash).length = numColumns := by
    simp only [List.length_append, List.length_replicate, htake, List.length_singleton]
    omega
  have hend := @Block.write_next _ [0] _ _ 0 hall.symm rfl
  have hsame : List.replicate left dash ++ 32 :: name.take len ++ 32 :: List.replicate right dash =
      List.replicate left dash ++ [32] ++ name.take len ++ [32] ++ List.replicate right dash := by
    simp only [List.append_assoc, List.cons_append, List.nil_append]
  refine ⟨?_, by rw [hsame, hall]⟩
  simp only [bind, Except.bind, hfirst, hspace, htext, hlater, hdashes, hsame]
  refine hend.trans ?_
  rw [Block.written, List.replicate_zero, List.append_nil]
  rfl

/-! ## The entries of an item -/

/-- The parts of a line `name:action:target`. -/
structure ItemParts where
  name : Bytes
  action : Bytes
  target : Bytes

def ItemParts.item (env : MenuEnv) (parts : ItemParts) : MenuItem :=
  makeItem env parts.name parts.action parts.target

/-- A break that is only a star. -/
def ItemParts.IsFullBreak (parts : ItemParts) : Prop :=
  parts.action = ascii "break" ∧ parts.name = ascii "*"

instance (parts : ItemParts) : Decidable parts.IsFullBreak :=
  inferInstanceAs (Decidable (_ ∧ _))

/-- The entries at an index are those of an item; the line of a full break has no
terminator. -/
structure HasEntry (env : MenuEnv) (tables : MenuTables) (idx : Nat) (parts : ItemParts) :
    Prop where
  item : tables.items idx =
    if parts.IsFullBreak then some (Block.written (List.replicate env.numColumns dash) 1)
    else some (Block.ofText (parts.item env).text)
  tag : tables.tags idx = (parts.item env).tag
  action : tables.actions idx = some (Block.ofText parts.action)
  target : tables.targets idx = (parts.item env).target.map Block.ofText
  selectable : tables.selectable idx = (parts.item env).selectable

/-- The entries at an index are unused. -/
structure IsFree (tables : MenuTables) (idx : Nat) : Prop where
  item : tables.items idx = none
  tag : tables.tags idx = 0xFF
  action : tables.actions idx = none
  target : tables.targets idx = none
  selectable : tables.selectable idx = 0xFF

/-- The entries at the other indices stay. -/
structure SameElsewhere (tables tables' : MenuTables) (idx : Nat) : Prop where
  items : ∀ i, i ≠ idx → tables'.items i = tables.items i
  tags : ∀ i, i ≠ idx → tables'.tags i = tables.tags i
  actions : ∀ i, i ≠ idx → tables'.actions i = tables.actions i
  targets : ∀ i, i ≠ idx → tables'.targets i = tables.targets i
  selectable : ∀ i, i ≠ idx → tables'.selectable i = tables.selectable i

section Entries

variable {env : MenuEnv} {tables tables' : MenuTables} {idx : Nat} {parts : ItemParts}

theorem SameElsewhere.free {i : Nat} (hsame : SameElsewhere tables tables' idx) (hi : i ≠ idx)
    (hfree : IsFree tables i) : IsFree tables' i where
  item := (hsame.items i hi).trans hfree.item
  tag := (hsame.tags i hi).trans hfree.tag
  action := (hsame.actions i hi).trans hfree.action
  target := (hsame.targets i hi).trans hfree.target
  selectable := (hsame.selectable i hi).trans hfree.selectable

theorem SameElsewhere.entry {i : Nat} (hsame : SameElsewhere tables tables' idx) (hi : i ≠ idx)
    (hentry : HasEntry env tables i parts) : HasEntry env tables' i parts where
  item := (hsame.items i hi).trans hentry.item
  tag := (hsame.tags i hi).trans hentry.tag
  action := (hsame.actions i hi).trans hentry.action
  target := (hsame.targets i hi).trans hentry.target
  selectable := (hsame.selectable i hi).trans hentry.selectable

/-- The tables with entries of any values at an index. -/
def MenuTables.withEntry (tables : MenuTables) (idx : Nat) (item : Option Block) (tag : UInt8)
    (action target : Option Block) (selectable : UInt8) : MenuTables :=
  { tables with
    items := Function.update tables.items idx item
    tags := Function.update tables.tags idx tag
    actions := Function.update tables.actions idx action
    targets := Function.update tables.targets idx target
    selectable := Function.update tables.selectable idx selectable }

theorem sameElsewhere_withEntry (tables : MenuTables) (idx : Nat) (item : Option Block)
    (tag : UInt8) (action target : Option Block) (selectable : UInt8) :
    SameElsewhere tables (tables.withEntry idx item tag action target selectable) idx where
  items := fun _ hi => Function.update_of_ne hi _ _
  tags := fun _ hi => Function.update_of_ne hi _ _
  actions := fun _ hi => Function.update_of_ne hi _ _
  targets := fun _ hi => Function.update_of_ne hi _ _
  selectable := fun _ hi => Function.update_of_ne hi _ _

theorem hasEntry_withEntry (env : MenuEnv) (tables : MenuTables) (idx : Nat) (parts : ItemParts) :
    HasEntry env (tables.withEntry idx
      (if parts.IsFullBreak then some (Block.written (List.replicate env.numColumns dash) 1)
        else some (Block.ofText (parts.item env).text))
      (parts.item env).tag (some (Block.ofText parts.action))
      ((parts.item env).target.map Block.ofText) (parts.item env).selectable) idx parts where
  item := Function.update_self _ _ _
  tag := Function.update_self _ _ _
  action := Function.update_self _ _ _
  target := Function.update_self _ _ _
  selectable := Function.update_self _ _ _

/-- What is stored for the parts of a line are the entries of its item. -/
theorem storeParts_eq (hcolumns : 6 ≤ env.numColumns) (hfree : IsFree tables idx)
    (parts : ItemParts) :
    storeParts env
        ((tables.setItem idx (Block.ofText parts.name)).setAction idx (Block.ofText parts.action))
        idx parts.name parts.action parts.target =
      .ok (tables.withEntry idx
        (if parts.IsFullBreak then some (Block.written (List.replicate env.numColumns dash) 1)
          else some (Block.ofText (parts.item env).text))
        (parts.item env).tag (some (Block.ofText parts.action))
        ((parts.item env).target.map Block.ofText) (parts.item env).selectable) := by
  have htags : Function.update tables.tags idx 0xFF = tables.tags := by
    rw [← hfree.tag, Function.update_eq_self]
  have htargets : Function.update tables.targets idx none = tables.targets := by
    rw [← hfree.target, Function.update_eq_self]
  rw [storeParts]
  dsimp only
  by_cases hshell : parts.action = ascii "shell"
  · have hitem : parts.item env =
        ⟨parts.name, parts.action, some (scriptTarget parts.target), 0xFF, 1⟩ := if_pos hshell
    have hbreak : ¬parts.IsFullBreak := fun hfull => absurd (hshell.symm.trans hfull.1) (by decide)
    rw [if_pos hshell, shellTarget_eq, if_neg hbreak, hitem, MenuTables.withEntry]
    simp only [htags]
    rfl
  rw [if_neg hshell]
  by_cases htag : parts.action = ascii "tag"
  · have hbreak : ¬parts.IsFullBreak := fun hfull => absurd (htag.symm.trans hfull.1) (by decide)
    have hpath : (ascii "/tags/." ++ parts.target).length + 1 =
        (ascii "/tags").length + parts.target.length + 3 := by
      rw [List.length_append]
      change 7 + parts.target.length + 1 = 5 + parts.target.length + 3
      omega
    rw [if_pos htag, Block.make_eq hpath, if_neg hbreak, MenuTables.withEntry]
    by_cases hset : env.tagIsSet (ascii "/tags/." ++ parts.target) = true
    · have hitem : parts.item env = ⟨ascii "[X] " ++ parts.name, parts.action,
          some (ascii "/tags/." ++ parts.target), 1, 1⟩ :=
        (if_neg hshell).trans ((if_pos htag).trans (if_pos hset))
      have hname : (ascii "[X] " ++ parts.name).length + 1 = parts.name.length + 5 := by
        rw [List.length_append, Nat.add_comm _ parts.name.length]
        rfl
      rw [hitem]
      simp only [hset, if_true, Block.make_eq hname]
      refine congrArg Except.ok ?_
      simp only [MenuTables.setItem, MenuTables.setAction, MenuTables.setTarget, MenuTables.setTag,
        MenuTables.setSelectable, Function.update_idem]
      rfl
    · have hitem : parts.item env = ⟨ascii "[ ] " ++ parts.name, parts.action,
          some (ascii "/tags/." ++ parts.target), 0, 1⟩ :=
        (if_neg hshell).trans ((if_pos htag).trans (if_neg hset))
      have hname : (ascii "[ ] " ++ parts.name).length + 1 = parts.name.length + 5 := by
        rw [List.length_append, Nat.add_comm _ parts.name.length]
        rfl
      rw [hitem]
      simp only [hset, if_false, Bool.false_eq_true, Block.make_eq hname]
      refine congrArg Except.ok ?_
      simp only [MenuTables.setItem, MenuTables.setAction, MenuTables.setTarget, MenuTables.setTag,
        MenuTables.setSelectable, Function.update_idem]
      rfl
  rw [if_neg htag]
  by_cases hbreak : parts.action = ascii "break"
  · have hitem : parts.item env = ⟨breakText env.numColumns parts.name, parts.action,
        if parts.name = ascii "*" then none else some (ascii "*"), 0xFF, 0⟩ :=
      (if_neg hshell).trans ((if_neg htag).trans (if_pos hbreak))
    rw [if_pos hbreak, hitem, MenuTables.withEntry]
    by_cases hstar : parts.name = ascii "*"
    · rw [if_pos hstar, if_pos ⟨hbreak, hstar⟩, fullBreak_eq, if_pos hstar]
      refine congrArg Except.ok ?_
      simp only [MenuTables.setItem, MenuTables.setAction, MenuTables.setSelectable,
        Function.update_idem, htags, htargets, Option.map_none]
    · rw [if_neg hstar, if_neg fun hfull : parts.IsFullBreak => hstar hfull.2,
        (namedBreak_eq hcolumns hstar).1, if_neg hstar]
      refine congrArg Except.ok ?_
      simp only [MenuTables.setItem, MenuTables.setAction, MenuTables.setTarget,
        MenuTables.setSelectable, Function.update_idem, htags]
      rfl
  have hfull : ¬parts.IsFullBreak := fun hfull => hbreak hfull.1
  rw [if_neg hbreak, Block.make_eq rfl, if_neg hfull, MenuTables.withEntry]
  by_cases hlabel : parts.action = ascii "label"
  · have hitem : parts.item env = ⟨parts.name, parts.action, some parts.target, 0xFF, 0⟩ :=
      (if_neg hshell).trans ((if_neg htag).trans ((if_neg hbreak).trans (if_pos hlabel)))
    rw [hitem]
    refine congrArg Except.ok ?_
    simp only [if_pos hlabel, MenuTables.setItem, MenuTables.setAction, MenuTables.setTarget,
      MenuTables.setSelectable, Function.update_idem, htags]
    rfl
  · have hitem : parts.item env = ⟨parts.name, parts.action, some parts.target, 0xFF, 1⟩ :=
      (if_neg hshell).trans ((if_neg htag).trans ((if_neg hbreak).trans (if_neg hlabel)))
    rw [hitem]
    refine congrArg Except.ok ?_
    simp only [if_neg hlabel, MenuTables.setItem, MenuTables.setAction, MenuTables.setTarget,
      MenuTables.setSelectable, htags]
    rfl

end Entries

/-! ## The parts of a line -/

section Parts

variable {isDelim : UInt8 → Bool}

/-- The text before the next delimiter, after those that come first. -/
def firstToken (isDelim : UInt8 → Bool) (text : Bytes) : Bytes :=
  (text.dropWhile isDelim).takeWhile fun byte => !isDelim byte

/-- What is left behind the delimiter. -/
def afterToken (isDelim : UInt8 → Bool) (text : Bytes) : Bytes :=
  ((text.dropWhile isDelim).dropWhile fun byte => !isDelim byte).drop 1

theorem mem_of_mem_afterToken {byte : UInt8} {text : Bytes}
    (hbyte : byte ∈ afterToken isDelim text) : byte ∈ text :=
  (List.dropWhile_sublist _).mem ((List.dropWhile_sublist _).mem (List.mem_of_mem_drop hbyte))

/-- The parts of a line, of which none may be empty; those that come first may have further
colons before them. -/
def itemParts (line : Bytes) : Option ItemParts :=
  let rest := afterToken isColon line
  let target := firstToken isNewline (afterToken isColon rest)
  if firstToken isColon line = [] ∨ firstToken isColon rest = [] ∨ target = [] then none
  else some
    { name := firstToken isColon line
      action := firstToken isColon rest
      target := trimEnd (fun byte => byte = 32 ∨ byte = carriageReturn) target }

theorem firstToken_word {blanks word tail : Bytes} (hblanks : ∀ byte ∈ blanks, isDelim byte = true)
    (hword : IsToken isDelim word) (htail : ∀ byte ∈ tail.head?, isDelim byte = true) :
    firstToken isDelim (blanks ++ (word ++ tail)) = word ∧
      afterToken isDelim (blanks ++ (word ++ tail)) = tail.drop 1 := by
  have hclean : ∀ byte ∈ word, (!isDelim byte) = true := by
    intro byte hbyte
    rw [(hword.clean byte hbyte).1]
    rfl
  rw [firstToken, afterToken, List.dropWhile_append_of_pos hblanks, hword.dropWhile_append,
    List.takeWhile_append_of_pos hclean, List.dropWhile_append_of_pos hclean]
  cases tail with
  | nil => exact ⟨List.append_nil _, rfl⟩
  | cons byte tail =>
      have hbyte : ¬(!isDelim byte) = true := by
        rw [htail byte rfl]
        decide
      rw [List.takeWhile_cons_of_neg (p := fun byte => !isDelim byte) hbyte,
        List.dropWhile_cons_of_neg (p := fun byte => !isDelim byte) hbyte]
      exact ⟨List.append_nil _, rfl⟩

/-- What `strtok` returns of a string and leaves for the next call. -/
theorem strtok_string {text : Bytes} (hzero : isDelim 0 = false) (htext : ∀ byte ∈ text, byte ≠ 0)
    (passed : Bytes) :
    firstToken isDelim text = [] ∧ strtok isDelim passed (text ++ [0]) = none ∨
      firstToken isDelim text ≠ [] ∧ ∃ after, strtok isDelim passed (text ++ [0]) =
        some (firstToken isDelim text, after, afterToken isDelim text ++ [0]) := by
  rcases strtok_cases hzero htext passed [] with
    ⟨hblank, hnone⟩ | ⟨blanks, word, hword, hblanks, hsplit⟩
  · refine .inl ⟨?_, hnone⟩
    rw [firstToken, List.dropWhile_eq_nil_iff.mpr hblank]
    rfl
  · rcases hsplit with ⟨rfl, hend⟩ | ⟨delim, rest, rfl, hdelim, hmore⟩
    · obtain ⟨hfirst, hafter⟩ := @firstToken_word isDelim blanks word [] hblanks hword nofun
      rw [List.append_nil] at hfirst hafter
      rw [hfirst, hafter]
      exact .inr ⟨hword.nonempty, _, hend⟩
    · obtain ⟨hfirst, hafter⟩ := @firstToken_word isDelim blanks word (delim :: rest) hblanks hword
        fun byte hbyte => Option.some.inj hbyte ▸ hdelim
      rw [hfirst, hafter]
      exact .inr ⟨hword.nonempty, _, hmore⟩

theorem itemParts_no_colon {line : Bytes} (hline : colon ∉ line) : itemParts line = none := by
  have hclean : ∀ byte ∈ line, (!isColon byte) = true := by
    intro byte hbyte
    have hne : byte ≠ colon := fun heq => hline (heq ▸ hbyte)
    rw [isColon, decide_eq_false hne]
    rfl
  have hskip : line.dropWhile isColon = line := by
    cases line with
    | nil => rfl
    | cons byte line =>
        refine List.dropWhile_cons_of_neg ?_
        have hbyte := hclean byte List.mem_cons_self
        intro hcolon
        rw [hcolon] at hbyte
        exact absurd hbyte (by decide)
  have hafter : afterToken isColon line = [] := by
    rw [afterToken, hskip, List.dropWhile_eq_nil_iff.mpr hclean]
    rfl
  rw [itemParts, hafter]
  exact if_pos (.inr (.inl rfl))

end Parts

/-! ## Filling the tables -/

section Filling

variable {env : MenuEnv} {tables : MenuTables}

/-- The first entries are those of the items in order, and the others are unused. -/
structure Filled (env : MenuEnv) (parts : List ItemParts) (tables : MenuTables) : Prop where
  entry : ∀ i item, parts[i]? = some item → HasEntry env tables i item
  free : ∀ i, parts.length ≤ i → IsFree tables i

theorem filled_empty (env : MenuEnv) : Filled env [] .empty where
  entry := nofun
  free := fun _ _ => ⟨rfl, rfl, rfl, rfl, rfl⟩

/-- An entry is added behind the others. -/
theorem Filled.concat {parts : List ItemParts} (hfilled : Filled env parts tables)
    (item : ItemParts) {tables' : MenuTables} (hentry : HasEntry env tables' parts.length item)
    (hsame : SameElsewhere tables tables' parts.length) :
    Filled env (parts ++ [item]) tables' where
  entry := by
    intro i other hother
    rw [List.getElem?_append] at hother
    split at hother
    · rename_i hlt
      exact hsame.entry hlt.ne (hfilled.entry i other hother)
    · rename_i hge
      obtain ⟨hlt, hlast⟩ := List.getElem?_eq_some_iff.mp hother
      rw [List.getElem_singleton] at hlast
      have hi : i = parts.length := by
        rw [List.length_singleton] at hlt
        omega
      rw [← hlast, hi]
      exact hentry
  free := by
    intro i hi
    rw [List.length_append, List.length_singleton] at hi
    exact hsame.free (by omega) (hfilled.free i (by omega))

theorem MenuTables.setItem_undo {idx : Nat} (hfree : IsFree tables idx) (block : Block) :
    (tables.setItem idx (some block)).setItem idx none = tables := by
  rw [MenuTables.setItem, MenuTables.setItem, Function.update_idem, ← hfree.item,
    Function.update_eq_self]

theorem MenuTables.setAction_undo {idx : Nat} (hfree : IsFree tables idx) (item action : Block) :
    (((tables.setItem idx (some item)).setAction idx (some action)).setItem idx none).setAction
      idx none = tables := by
  simp only [MenuTables.setItem, MenuTables.setAction, Function.update_idem]
  rw [← hfree.item, Function.update_eq_self]
  conv_lhs => rw [hfree.item, ← hfree.action, Function.update_eq_self]

/-- One line: its entries are added, or what was stored of it is taken back. -/
theorem Filled.readItem {parts : List ItemParts} (hfilled : Filled env parts tables)
    (hcolumns : 6 ≤ env.numColumns) {line : Bytes} (hline : ∀ byte ∈ line, byte ≠ 0) :
    ∃ tables', Menus.readItem env tables parts.length line =
        .ok (tables', (parts ++ (itemParts line).toList).length) ∧
      Filled env (parts ++ (itemParts line).toList) tables' := by
  have hfree := hfilled.free parts.length le_rfl
  -- A line without all its parts leaves the tables as they were.
  have hnothing : itemParts line = none →
      Menus.readItem env tables parts.length line = .ok (tables, parts.length) →
      ∃ tables', Menus.readItem env tables parts.length line =
          .ok (tables', (parts ++ (itemParts line).toList).length) ∧
        Filled env (parts ++ (itemParts line).toList) tables' := by
    intro hnone hread
    rw [hnone, Option.toList_none, List.append_nil]
    exact ⟨tables, hread, hfilled⟩
  by_cases hcolon : colon ∉ line
  · exact hnothing (itemParts_no_colon hcolon) (by rw [Menus.readItem, if_pos hcolon])
  rcases @strtok_string isColon _ (by decide) hline [] with
    ⟨hname, hstrtok⟩ | ⟨hname, passed, hstrtok⟩
  · refine hnothing (if_pos (.inl hname)) ?_
    rw [Menus.readItem, if_neg hcolon, hstrtok]
  have hrest : ∀ byte ∈ afterToken isColon line, byte ≠ 0 :=
    fun byte hbyte => hline byte (mem_of_mem_afterToken hbyte)
  rcases @strtok_string isColon _ (by decide) hrest passed with
    ⟨haction, hstrtok'⟩ | ⟨haction, passed', hstrtok'⟩
  · refine hnothing (if_pos (.inr (.inl haction))) ?_
    rw [Menus.readItem, if_neg hcolon, hstrtok]
    dsimp only
    rw [Block.make_eq rfl, hstrtok']
    exact congrArg (fun tables => Except.ok (tables, parts.length))
      (MenuTables.setItem_undo hfree _)
  have hrest' : ∀ byte ∈ afterToken isColon (afterToken isColon line), byte ≠ 0 :=
    fun byte hbyte => hrest byte (mem_of_mem_afterToken hbyte)
  rcases @strtok_string isNewline _ (by decide) hrest' passed' with
    ⟨htarget, hstrtok''⟩ | ⟨htarget, passed'', hstrtok''⟩
  · refine hnothing (if_pos (.inr (.inr htarget))) ?_
    rw [Menus.readItem, if_neg hcolon, hstrtok]
    dsimp only
    rw [Block.make_eq rfl, hstrtok']
    dsimp only
    rw [Block.make_eq rfl, hstrtok'']
    exact congrArg (fun tables => Except.ok (tables, parts.length))
      (MenuTables.setAction_undo hfree _ _)
  · have hparts : itemParts line = some
        { name := firstToken isColon line
          action := firstToken isColon (afterToken isColon line)
          target := trimEnd (fun byte => byte = 32 ∨ byte = carriageReturn)
            (firstToken isNewline (afterToken isColon (afterToken isColon line))) } :=
      if_neg (by rintro (hnil | hnil | hnil); exacts [hname hnil, haction hnil, htarget hnil])
    rw [hparts, Option.toList_some]
    refine ⟨_, ?_, hfilled.concat _ (hasEntry_withEntry env tables _ _)
      (sameElsewhere_withEntry _ _ _ _ _ _ _)⟩
    rw [Menus.readItem, if_neg hcolon, hstrtok]
    dsimp only
    rw [Block.make_eq rfl, hstrtok']
    dsimp only
    rw [Block.make_eq rfl, hstrtok'', List.length_append]
    dsimp only [bind, Except.bind]
    rw [storeParts_eq hcolumns hfree
      { name := firstToken isColon line
        action := firstToken isColon (afterToken isColon line)
        target := trimEnd (fun byte => byte = 32 ∨ byte = carriageReturn)
          (firstToken isNewline (afterToken isColon (afterToken isColon line))) }]
    rfl

/-- The lines that are neither empty nor a comment. -/
def usedLines (lines : List Bytes) : List Bytes :=
  (lines.map cString).filter fun line => !isSkipped line

theorem usedLines_skipped {line : Bytes} (hskip : isSkipped (cString line) = true)
    (lines : List Bytes) : usedLines (line :: lines) = usedLines lines := by
  rw [usedLines, List.map_cons, List.filter_cons_of_neg (by rw [hskip]; decide)]
  rfl

theorem usedLines_used {line : Bytes} (hskip : isSkipped (cString line) ≠ true)
    (lines : List Bytes) : usedLines (line :: lines) = cString line :: usedLines lines := by
  rw [usedLines, List.map_cons,
    List.filter_cons_of_pos (by rw [Bool.eq_false_iff.mpr hskip]; decide)]
  rfl

/-- The lines after the title. -/
theorem Filled.fillTables (hcolumns : 6 ≤ env.numColumns) {parts : List ItemParts}
    (hfilled : Filled env parts tables) (hcount : parts.length ≤ maxMenuItems)
    (lines : List Bytes) :
    ∃ tables', Menus.fillTables env lines false tables parts.length = .ok tables' ∧
      Filled env ((parts ++ (usedLines lines).filterMap itemParts).take maxMenuItems) tables' := by
  induction lines generalizing parts tables with
  | nil =>
      refine ⟨tables, rfl, ?_⟩
      change Filled env ((parts ++ []).take maxMenuItems) tables
      rwa [List.append_nil, List.take_of_length_le hcount]
  | cons line lines ih =>
      rw [Menus.fillTables]
      by_cases hplace : parts.length < maxMenuItems
      · rw [if_pos hplace]
        by_cases hskip : isSkipped (cString line) = true
        · rw [if_pos hskip, usedLines_skipped hskip]
          exact ih hfilled hcount
        · rw [if_neg hskip, usedLines_used hskip]
          obtain ⟨next, hnext, hfilledNext⟩ := hfilled.readItem hcolumns (cString_ne_zero line)
          have hlength : (parts ++ (itemParts (cString line)).toList).length ≤ maxMenuItems := by
            rw [List.length_append]
            have := Option.length_toList_le (o := itemParts (cString line))
            omega
          obtain ⟨tables', htables', hend⟩ := ih hfilledNext hlength
          refine ⟨tables', ?_, ?_⟩
          · simp only [Bool.false_eq_true, if_false]
            rw [hnext]
            exact htables'
          · rw [List.append_assoc] at hend
            rw [List.filterMap_cons]
            cases hparts : itemParts (cString line) with
            | none =>
                rw [hparts] at hend
                exact hend
            | some item =>
                rw [hparts] at hend
                exact hend
      · rw [if_neg hplace]
        refine ⟨tables, rfl, ?_⟩
        rw [List.take_append_of_le_length (by omega), List.take_of_length_le hcount]
        exact hfilled

theorem Filled.readHeaders {parts : List ItemParts} (hfilled : Filled env parts tables)
    (line : Bytes) :
    ∃ tables', Menus.readHeaders tables line = .ok tables' ∧ Filled env parts tables' := by
  refine ⟨((tables.setHeader 0 (Block.ofText
      (trimEnd (fun byte => byte = 32 ∨ byte = carriageReturn ∨ byte = newline) line))).setHeader 1
    (Block.ofText [])).setHeader 2 none, ?_, ?_⟩
  · rw [Menus.readHeaders, Block.make_eq rfl, @Block.make_eq 1 [] rfl]
    rfl
  · exact
      { entry := fun i item hitem =>
          have hentry := hfilled.entry i item hitem
          ⟨hentry.item, hentry.tag, hentry.action, hentry.target, hentry.selectable⟩
        free := fun i hi =>
          have hfree := hfilled.free i hi
          ⟨hfree.item, hfree.tag, hfree.action, hfree.target, hfree.selectable⟩ }

end Filling

/-- The parts of the valid lines after the title, in the order of the file. -/
def fileParts (data : Bytes) : List ItemParts :=
  (usedLines (linesRead data)).tail.filterMap itemParts

/-- No write is outside a string, and the tables have the entries of the first valid lines. -/
theorem createTables_filled {env : MenuEnv} (hcolumns : 6 ≤ env.numColumns) (data : Bytes) :
    ∃ tables, createTables env data = .ok tables ∧
      Filled env ((fileParts data).take maxMenuItems) tables := by
  rw [createTables, fileParts]
  generalize linesRead data = lines
  induction lines with
  | nil => exact ⟨.empty, rfl, filled_empty env⟩
  | cons line lines ih =>
      rw [fillTables, if_pos (by decide)]
      by_cases hskip : isSkipped (cString line) = true
      · rw [if_pos hskip, usedLines_skipped hskip]
        exact ih
      · rw [if_neg hskip, if_pos rfl, usedLines_used hskip, List.tail_cons]
        obtain ⟨next, hnext, hfilled⟩ := (filled_empty env).readHeaders (cString line)
        obtain ⟨tables, htables, hend⟩ := hfilled.fillTables hcolumns (Nat.zero_le _) lines
        refine ⟨tables, ?_, hend⟩
        rw [hnext]
        exact htables

/-! ## The menu on display -/

theorem menuItem_eq (env : MenuEnv) {line : Bytes} (hline : ∀ byte ∈ line, byte ≠ 0) :
    menuItem env line = (itemParts line).map (ItemParts.item env) := by
  rw [menuItem]
  by_cases hcolon : colon ∉ line
  · rw [if_pos hcolon, itemParts_no_colon hcolon]
    rfl
  rw [if_neg hcolon]
  rcases @strtok_string isColon _ (by decide) hline [] with
    ⟨hname, hstrtok⟩ | ⟨hname, passed, hstrtok⟩
  · rw [hstrtok, itemParts, if_pos (.inl hname)]
    rfl
  rw [hstrtok]
  dsimp only
  have hrest : ∀ byte ∈ afterToken isColon line, byte ≠ 0 :=
    fun byte hbyte => hline byte (mem_of_mem_afterToken hbyte)
  rcases @strtok_string isColon _ (by decide) hrest passed with
    ⟨haction, hstrtok'⟩ | ⟨haction, passed', hstrtok'⟩
  · rw [hstrtok', itemParts, if_pos (.inr (.inl haction))]
    rfl
  rw [hstrtok']
  dsimp only
  have hrest' : ∀ byte ∈ afterToken isColon (afterToken isColon line), byte ≠ 0 :=
    fun byte hbyte => hrest byte (mem_of_mem_afterToken hbyte)
  rcases @strtok_string isNewline _ (by decide) hrest' passed' with
    ⟨htarget, hstrtok''⟩ | ⟨htarget, passed'', hstrtok''⟩
  · rw [hstrtok'', itemParts, if_pos (.inr (.inr htarget))]
    rfl
  · rw [hstrtok'', itemParts, if_neg]
    · rfl
    · rintro (hnil | hnil | hnil)
      exacts [hname hnil, haction hnil, htarget hnil]

theorem linesRead_end {data : Bytes} (hend : fgets data = []) : linesRead data = [] := by
  rw [linesRead, dif_pos hend]

theorem linesRead_line {data : Bytes} (hline : fgets data ≠ []) :
    linesRead data = fgets data :: linesRead (data.drop (fgets data).length) := by
  rw [linesRead, dif_neg hline]

/-- Lines that fit the buffer are read as they are; a longer one is read in pieces. -/
theorem linesRead_eq_rawLines {data : Bytes}
    (hshort : ∀ line ∈ rawLines data, line.length ≤ maxLineLength - 1) :
    linesRead data = rawLines data := by
  by_cases hempty : data = []
  · rw [hempty, linesRead_end rfl]
    rfl
  · obtain ⟨line, rest, ending, hdata, hraw, hline, hsome, -, hfgets⟩ := exists_rawLine hempty
    rw [hraw, List.forall_mem_cons] at hshort
    rw [List.take_of_length_le hshort.1] at hfgets
    have hrest : data.drop (fgets data).length = rest := by
      rw [hfgets, hdata, List.drop_left]
    rw [linesRead_line (by rw [hfgets]; exact hsome), hrest, hfgets, hraw,
      linesRead_eq_rawLines hshort.2]
termination_by data.length
decreasing_by
  rw [hdata, List.length_append]
  have := List.length_pos_of_ne_nil hsome
  omega

/-- The items that a loop over the lines adds. -/
def loopItems (env : MenuEnv) (lines : List Bytes) : List MenuItem :=
  (lines.filterMap itemParts).map (ItemParts.item env)

theorem readMenu_items_eq (env : MenuEnv) {fuel : Nat} {data : Bytes}
    (hfuel : data.length ≤ fuel) (headers : Option (List Bytes)) {items : List MenuItem}
    (hcount : items.length ≤ maxMenuItems) :
    (readMenu env fuel data headers items).items =
      (items ++ loopItems env (if headers = none then (usedLines (linesRead data)).tail
        else usedLines (linesRead data))).take maxMenuItems := by
  induction fuel generalizing data headers items with
  | zero =>
      have hnil : data = [] := List.eq_nil_of_length_eq_zero (Nat.le_zero.mp hfuel)
      rw [readMenu, hnil, linesRead_end rfl]
      have hnone : loopItems env (if headers = none then (usedLines []).tail else usedLines []) =
          [] := by
        split <;> rfl
      rw [hnone, List.append_nil, List.take_of_length_le hcount]
  | succ fuel ih =>
      rw [readMenu]
      by_cases hplace : items.length < maxMenuItems
      · rw [if_pos hplace]
        dsimp only
        by_cases hend : fgets data = []
        · rw [if_pos hend, linesRead_end hend]
          have hnone : loopItems env (if headers = none then (usedLines []).tail
              else usedLines []) = [] := by
            split <;> rfl
          rw [hnone, List.append_nil, List.take_of_length_le hcount]
        · have hrest : (data.drop (fgets data).length).length ≤ fuel := by
            have := drop_fgets_length hend
            omega
          rw [if_neg hend, linesRead_line hend]
          by_cases hskip : isSkipped (cString (fgets data)) = true
          · rw [if_pos (of_decide_eq_true hskip), usedLines_skipped hskip]
            exact ih hrest headers hcount
          · rw [if_neg (fun hskipped => hskip (decide_eq_true hskipped)), usedLines_used hskip]
            cases headers with
            | none =>
                dsimp only
                rw [ih hrest _ hcount, if_neg (by simp), if_pos rfl, List.tail_cons]
            | some titles =>
                dsimp only
                rw [menuItem_eq env (cString_ne_zero _), if_neg (by simp), loopItems,
                  List.filterMap_cons]
                cases hparts : itemParts (cString (fgets data)) with
                | none =>
                    rw [Option.map_none]
                    dsimp only
                    rw [ih hrest _ hcount, if_neg (by simp)]
                    rfl
                | some item =>
                    have hlength : (items ++ [item.item env]).length ≤ maxMenuItems := by
                      rw [List.length_append, List.length_singleton]
                      exact hplace
                    rw [Option.map_some]
                    dsimp only
                    rw [ih hrest _ hlength, if_neg (by simp), List.append_assoc, List.map_cons]
                    rfl
      · rw [if_neg hplace, List.take_append_of_le_length (by omega),
          List.take_of_length_le hcount]

/-- The items of the menu on display are those of which the tables have the entries. -/
theorem createMenu_items_eq (env : MenuEnv) (data : Bytes) :
    (createMenu env data).items =
      ((fileParts data).take maxMenuItems).map (ItemParts.item env) := by
  rw [createMenu, readMenu_items_eq env le_rfl none (Nat.zero_le _), if_pos rfl, List.nil_append,
    loopItems, ← List.map_take]
  rfl

/-! ## Consistent tables -/

/-- The tables that a file ought to have: the items are its valid lines in order, behind them is
a null pointer, and every entry of an item is a string. -/
structure IsConsistent (env : MenuEnv) (parts : List ItemParts) (tables : MenuTables) : Prop where
  terminated : ∃ count < maxMenuItems, tables.items count = none ∧
    ∀ i < count, tables.items i ≠ none
  items : ∀ i < maxMenuItems, tables.items i ≠ none ↔ i < parts.length
  actions : ∀ i < maxMenuItems, tables.actions i ≠ none ↔ i < parts.length
  targets : ∀ i < maxMenuItems, tables.targets i ≠ none ↔ i < parts.length
  ordered : ∀ i < maxMenuItems, ∀ item, parts[i]? = some item →
    tables.actions i = some (Block.ofText item.action) ∧
      tables.items i = some (Block.ofText (item.item env).text) ∧
      tables.targets i = (item.item env).target.map Block.ofText
  selectable : ∀ i < maxMenuItems, tables.selectable i = 0 ↔
    ∃ item, parts[i]? = some item ∧ (item.action = ascii "break" ∨ item.action = ascii "label")
  breaks : ∀ i < maxMenuItems, ∀ item, parts[i]? = some item → item.action = ascii "break" →
    ∃ text : Bytes, 0 ∉ text ∧ text.length = env.numColumns ∧
      tables.items i = some (Block.ofText text)

/-- What a file must keep to: a free entry for the terminator, and no break that is only a
star. -/
def FitsTables (parts : List ItemParts) : Prop :=
  parts.length < maxMenuItems ∧ ∀ item ∈ parts, ¬item.IsFullBreak

instance (parts : List ItemParts) : Decidable (FitsTables parts) :=
  inferInstanceAs (Decidable (_ ∧ _))

section Consistent

variable {env : MenuEnv} {parts : List ItemParts} {tables : MenuTables}

/-- The target of an item is missing only for a full break. -/
theorem ItemParts.target_eq_none_iff (env : MenuEnv) (item : ItemParts) :
    (item.item env).target = none ↔ item.IsFullBreak := by
  rw [ItemParts.item, makeItem, ItemParts.IsFullBreak]
  by_cases hbreak : item.action = ascii "break"
  · rw [hbreak, if_neg (by decide), if_neg (by decide), if_pos rfl]
    dsimp only
    split
    · rename_i hstar
      exact iff_of_true rfl ⟨rfl, hstar⟩
    · rename_i hstar
      exact iff_of_false (by simp) fun hfull => hstar hfull.2
  · refine iff_of_false ?_ fun hfull => hbreak hfull.1
    dsimp only
    split_ifs <;> simp

theorem zero_notMem_breakText {name : Bytes} (hname : 0 ∉ name) (numColumns : Nat) :
    0 ∉ breakText numColumns name := by
  rw [breakText]
  split_ifs
  · exact fun hzero => absurd (List.eq_of_mem_replicate hzero) (by decide)
  · intro hzero
    rcases List.mem_append.mp hzero with hzero | hzero
    · rcases List.mem_append.mp hzero with hzero | hzero
      · exact absurd (List.eq_of_mem_replicate hzero) (by decide)
      · rcases List.mem_cons.mp hzero with hzero | hzero
        · exact absurd hzero (by decide)
        · exact hname (List.mem_of_mem_take hzero)
    · rcases List.mem_cons.mp hzero with hzero | hzero
      · exact absurd hzero (by decide)
      · exact absurd (List.eq_of_mem_replicate hzero) (by decide)

theorem ItemParts.item_break (env : MenuEnv) {item : ItemParts}
    (hbreak : item.action = ascii "break") :
    (item.item env).text = breakText env.numColumns item.name := by
  rw [ItemParts.item, makeItem, hbreak, if_neg (by decide), if_neg (by decide), if_pos rfl]

/-- The entries up to the last item, and the unused ones. -/
theorem Filled.ne_none_iff {Entry : Type} (hfilled : Filled env parts tables)
    {entries : Nat → Option Entry} (hentry : ∀ i item, parts[i]? = some item → entries i ≠ none)
    (hfree : ∀ i, IsFree tables i → entries i = none) (i : Nat) :
    entries i ≠ none ↔ i < parts.length := by
  constructor
  · intro hsome
    by_contra hge
    exact hsome (hfree i (hfilled.free i (not_lt.mp hge)))
  · intro hlt
    exact hentry i _ (List.getElem?_eq_getElem hlt)

theorem Filled.isConsistent (hfilled : Filled env parts tables) (hcolumns : 6 ≤ env.numColumns)
    (hfits : FitsTables parts) (hnames : ∀ item ∈ parts, 0 ∉ item.name) :
    IsConsistent env parts tables := by
  have hitem : ∀ i item, parts[i]? = some item →
      tables.items i = some (Block.ofText (item.item env).text) := by
    intro i item hpart
    rw [(hfilled.entry i item hpart).item, if_neg (hfits.2 item (List.mem_of_getElem? hpart))]
  have hitems := @Filled.ne_none_iff env parts tables _ hfilled tables.items
    (fun i item hpart => by rw [hitem i item hpart]; exact nofun) fun i hfree => hfree.item
  exact
    { terminated := by
        refine ⟨parts.length, hfits.1, (hfilled.free _ le_rfl).item, fun i hi => ?_⟩
        exact (hitems i).mpr hi
      items := fun i _ => hitems i
      actions := fun i _ => @Filled.ne_none_iff env parts tables _ hfilled tables.actions
        (fun i item hpart => by rw [(hfilled.entry i item hpart).action]; exact nofun)
        (fun i hfree => hfree.action) i
      targets := fun i _ => @Filled.ne_none_iff env parts tables _ hfilled tables.targets
        (fun i item hpart => by
          rw [(hfilled.entry i item hpart).target, ne_eq, Option.map_eq_none_iff,
            ItemParts.target_eq_none_iff]
          exact hfits.2 item (List.mem_of_getElem? hpart))
        (fun i hfree => hfree.target) i
      ordered := fun i _ item hpart => ⟨(hfilled.entry i item hpart).action, hitem i item hpart,
        (hfilled.entry i item hpart).target⟩
      selectable := by
        intro i _
        cases hpart : parts[i]? with
        | none =>
            rw [(hfilled.free i (List.getElem?_eq_none_iff.mp hpart)).selectable]
            exact iff_of_false (by decide) fun ⟨_, hsome, _⟩ => nomatch hsome
        | some item =>
            rw [(hfilled.entry i item hpart).selectable, ItemParts.item,
              (makeItem_selectable env item.name item.action item.target).2]
            constructor
            · exact fun haction => ⟨item, rfl, haction⟩
            · rintro ⟨other, hother, haction⟩
              rwa [Option.some.inj hother]
      breaks := by
        intro i _ item hpart hbreak
        have hmem := List.mem_of_getElem? hpart
        have hstar : item.name ≠ ascii "*" := fun hstar => hfits.2 item hmem ⟨hbreak, hstar⟩
        refine ⟨breakText env.numColumns item.name, zero_notMem_breakText (hnames item hmem) _,
          (namedBreak_eq hcolumns hstar).2, ?_⟩
        rw [hitem i item hpart, ItemParts.item_break env hbreak] }

/-- Consistent tables have a place for the terminator and a target for every item. -/
theorem Filled.fitsTables (hfilled : Filled env (parts.take maxMenuItems) tables)
    (hconsistent : IsConsistent env parts tables) : FitsTables parts := by
  obtain ⟨count, hcount, hnone, -⟩ := hconsistent.terminated
  have hlength : parts.length ≤ count := by
    by_contra hlt
    exact (hconsistent.items count hcount).mpr (not_le.mp hlt) hnone
  refine ⟨hlength.trans_lt hcount, fun item hmem hfull => ?_⟩
  obtain ⟨i, hpart⟩ := List.getElem?_of_mem hmem
  have hi := (List.getElem?_eq_some_iff.mp hpart).1
  have hplace : i < maxMenuItems := by omega
  have htaken : (parts.take maxMenuItems)[i]? = some item := by
    rw [List.getElem?_take_of_lt hplace, hpart]
  refine (hconsistent.targets i hplace).mpr hi ?_
  rw [(hfilled.entry i item htaken).target, (ItemParts.target_eq_none_iff env item).mpr hfull]
  rfl

end Consistent

theorem zero_notMem_name {data : Bytes} {item : ItemParts} (hitem : item ∈ fileParts data) :
    0 ∉ item.name := by
  rw [fileParts, List.mem_filterMap] at hitem
  obtain ⟨line, hline, hparts⟩ := hitem
  obtain ⟨whole, -, rfl⟩ := List.mem_map.mp (List.mem_of_mem_filter (List.mem_of_mem_tail hline))
  rw [itemParts] at hparts
  split at hparts
  · cases hparts
  · cases hparts
    intro hzero
    have hwhole : (0 : UInt8) ∈ cString whole :=
      (List.dropWhile_sublist _).mem ((List.takeWhile_sublist _).mem hzero)
    exact cString_ne_zero whole 0 hwhole rfl

/-- The tables of a menu file are consistent, and written without leaving a string, exactly if
it has fewer valid lines than the tables have entries and no break that is only a star. -/
theorem createTables_consistent_iff {env : MenuEnv} (hcolumns : 6 ≤ env.numColumns)
    (data : Bytes) :
    (∃ tables, createTables env data = .ok tables ∧ IsConsistent env (fileParts data) tables) ↔
      FitsTables (fileParts data) := by
  obtain ⟨tables, htables, hfilled⟩ := createTables_filled hcolumns data
  constructor
  · rintro ⟨tables', htables', hconsistent⟩
    cases htables.symm.trans htables'
    exact hfilled.fitsTables hconsistent
  · intro hfits
    rw [List.take_of_length_le hfits.1.le] at hfilled
    exact ⟨tables, htables,
      hfilled.isConsistent hcolumns hfits fun item hitem => zero_notMem_name hitem⟩

/-- A file with a label, a break and a script. -/
theorem createTables_consistent_iff_small :
    (∃ tables, createTables ⟨fun _ => false, 48⟩
        (ascii "Title\nFiles:label:*\nTools:break:*\nRun:shell:run.sh\n") = .ok tables ∧
      IsConsistent ⟨fun _ => false, 48⟩
        (fileParts (ascii "Title\nFiles:label:*\nTools:break:*\nRun:shell:run.sh\n")) tables) ↔
      FitsTables
        (fileParts (ascii "Title\nFiles:label:*\nTools:break:*\nRun:shell:run.sh\n")) :=
  createTables_consistent_iff (by decide) _

/-- A break that is only a star. -/
theorem star_break_inconsistent :
    ¬∃ tables, createTables ⟨fun _ => false, 48⟩ (ascii "Title\n*:break:*\n") = .ok tables ∧
      IsConsistent ⟨fun _ => false, 48⟩ (fileParts (ascii "Title\n*:break:*\n")) tables := by
  have hbreak : ¬FitsTables (fileParts (ascii "Title\n*:break:*\n")) := by with_unfolding_all decide
  rintro ⟨tables, htables, hconsistent⟩
  obtain ⟨tables', htables', hfilled⟩ :=
    @createTables_filled ⟨fun _ => false, 48⟩ (by decide) (ascii "Title\n*:break:*\n")
  cases htables.symm.trans htables'
  exact hbreak (hfilled.fitsTables hconsistent)

end OpenRecovery.Menus
