import OpenRecovery.FallibleRuns
import OpenRecovery.RecoveryArgs
import Mathlib

/-!
# Interactive menus

A script asks for a menu by running `imenu`, which writes its header and items into a record
shared with the recovery and waits for the answer.  The polling loop of `run_shell_script`
shows what it finds in the record and answers with the item that was chosen.
-/

namespace OpenRecovery.Imenu

open Effects

/-! ## The record -/

/-- Entries of the table of items. -/
def tableSize : Nat := 20

/-- The bytes `strncpy` copies into a field. -/
def fieldLength : Nat := 49

/-- `interactive_menu_struct`; a field is the string in it. -/
structure MenuRecord where
  inTrigger : Int
  outTrigger : Int
  header : Bytes
  items : Nat → Bytes

/-- The arguments of a call of `imenu`. -/
structure Invocation where
  header : Bytes
  items : List Bytes
  deriving DecidableEq

/-- A menu that was shown, with the item chosen in it. -/
structure ShownMenu where
  header : Bytes
  items : List Bytes
  chosen : Nat
  deriving DecidableEq

inductive Fault where
  | outsideTable
  deriving DecidableEq

/-! ## The two parties -/

/-- Where `imenu` is. -/
inductive ScriptPoint where
  | writeHeader
  | writeItem (c : Nat)
  | writeTerminator (c : Nat)
  | resetOut
  | setIn
  | wait
  deriving DecidableEq

/-- Where the polling loop is. -/
inductive LoopPoint where
  | poll
  | clearIn
  | scan (i : Nat)
  | showHeader (count : Nat)
  | showItems (count : Nat) (header : Bytes) (items : List Bytes)
  | clearHeader (chosen : Nat)
  | clearItems (chosen : Nat)
  | answer (chosen : Nat)
  deriving DecidableEq

/-- The record, the calls of `imenu` still to come with the place in the first of them, the
place of the polling loop, the menus shown so far and what `imenu` has printed. -/
structure MenuState where
  record : MenuRecord
  todo : List Invocation
  script : ScriptPoint
  loop : LoopPoint
  menus : List ShownMenu
  printed : List Int

inductive MenuEvent where
  | script
  | loop (choice : Nat)
  deriving DecidableEq

/-- A field access of `imenu`.  Without calls left nothing happens. -/
def scriptStep (state : MenuState) : Except Fault MenuState :=
  match state.todo with
  | [] => .ok state
  | invocation :: rest =>
      let argc := invocation.items.length + 2
      match state.script with
      | .writeHeader =>
          if argc < 3 then .ok { state with todo := rest }
          else
            .ok { state with
              record := { state.record with header := invocation.header.take fieldLength }
              script := .writeItem 2 }
      | .writeItem c =>
          if c < argc ∧ c < 21 then
            if c - 2 < tableSize then
              .ok { state with
                record := { state.record with
                  items := Function.update state.record.items (c - 2)
                    ((invocation.items.getD (c - 2) []).take fieldLength) }
                script := .writeItem (c + 1) }
            else .error .outsideTable
          else .ok { state with script := .writeTerminator c }
      | .writeTerminator c =>
          if c < tableSize then
            .ok { state with
              record := { state.record with items := Function.update state.record.items c [] }
              script := .resetOut }
          else .error .outsideTable
      | .resetOut =>
          .ok { state with record := { state.record with outTrigger := 0 }, script := .setIn }
      | .setIn =>
          .ok { state with record := { state.record with inTrigger := 1 }, script := .wait }
      | .wait =>
          if state.record.outTrigger = 0 then .ok state
          else
            .ok { state with
              todo := rest
              script := .writeHeader
              printed := state.printed ++ [state.record.outTrigger] }

/-- A field access of the polling loop; when the menu is shown the user chooses one of its
items. -/
def loopStep (state : MenuState) (choice : Nat) : Except Fault MenuState :=
  match state.loop with
  | .poll => .ok (if state.record.inTrigger ≠ 0 then { state with loop := .clearIn } else state)
  | .clearIn =>
      .ok { state with record := { state.record with inTrigger := 0 }, loop := .scan 0 }
  | .scan i =>
      if i < tableSize then
        .ok { state with
          loop := if state.record.items i ≠ [] then .scan (i + 1) else .showHeader i }
      else .error .outsideTable
  | .showHeader count =>
      .ok { state with loop := .showItems count state.record.header [] }
  | .showItems count header items =>
      if items.length < count then
        .ok { state with
          loop := .showItems count header (items ++ [state.record.items items.length]) }
      else
        .ok { state with
          menus := state.menus ++ [⟨header, items, choice % count⟩]
          loop := .clearHeader (choice % count) }
  | .clearHeader chosen =>
      .ok { state with record := { state.record with header := [] }, loop := .clearItems chosen }
  | .clearItems chosen =>
      .ok { state with
        record := { state.record with items := Function.update state.record.items 0 [] }
        loop := .answer chosen }
  | .answer chosen =>
      .ok { state with
        record := { state.record with outTrigger := (chosen : Int) + 1 }
        loop := .poll }

def menuStep (state : MenuState) : MenuEvent → Except Fault MenuState
  | .script => scriptStep state
  | .loop choice => loopStep state choice

/-- The record as `run_shell_script` leaves it before the script starts, on what an earlier
script has left in the shared memory. -/
def menuStart (before : MenuRecord) (todo : List Invocation) : MenuState where
  record :=
    { inTrigger := 0
      outTrigger := 0
      header := []
      items := Function.update before.items 0 [] }
  todo := todo
  script := .writeHeader
  loop := .poll
  menus := []
  printed := []

/-! ## What the parties agree on -/

/-- A header and at least one item, all of them short enough for their fields. -/
structure WellFormed (invocation : Invocation) : Prop where
  header : invocation.header.length ≤ fieldLength
  items_ne : invocation.items ≠ []
  item_ne : ∀ item ∈ invocation.items, item ≠ []
  item_length : ∀ item ∈ invocation.items, item.length ≤ fieldLength

/-- When a call begins, its items and the terminator fit into the table and the entry behind
the items is empty. -/
def FitsTable (state : MenuState) (event : MenuEvent) : Prop :=
  event = .script → state.script = .writeHeader → ∀ invocation ∈ state.todo.head?,
    invocation.items.length + 2 < tableSize ∧ state.record.items invocation.items.length = []

instance (state : MenuState) (event : MenuEvent) : Decidable (FitsTable state event) :=
  inferInstanceAs (Decidable (_ → _ → ∀ invocation ∈ state.todo.head?, _ ∧ _))

def ShownMenu.asked (menu : ShownMenu) : Invocation :=
  ⟨menu.header, menu.items⟩

/-- The index `imenu` prints. -/
def ShownMenu.response (menu : ShownMenu) : Int :=
  menu.chosen + 1

/-- The first items of a call are in the table, and the entry behind all of them is empty. -/
structure TableHolds (invocation : Invocation) (written : Nat) (record : MenuRecord) : Prop where
  header : record.header = invocation.header
  items : ∀ k, k < written → record.items k = invocation.items.getD k []
  empty : record.items invocation.items.length = []
  fits : invocation.items.length + 2 < tableSize

/-- The menus were those asked for, and their answers were printed. -/
structure MenusMatch (finished : List Invocation) (menus : List ShownMenu) (printed : List Int) :
    Prop where
  asked : menus.map ShownMenu.asked = finished
  printed : printed = menus.map ShownMenu.response

/-- A call writes its request. -/
def Requesting (invocation : Invocation) (state : MenuState) : Prop :=
  match state.script with
  | .writeHeader => True
  | .writeItem c =>
      2 ≤ c ∧ c ≤ invocation.items.length + 2 ∧ TableHolds invocation (c - 2) state.record
  | .writeTerminator c =>
      c = invocation.items.length + 2 ∧
        TableHolds invocation invocation.items.length state.record
  | .resetOut => TableHolds invocation invocation.items.length state.record
  | .setIn =>
      TableHolds invocation invocation.items.length state.record ∧ state.record.outTrigger = 0
  | .wait => False

/-- The loop has a request to answer. -/
def Pending (invocation : Invocation) (state : MenuState) : Prop :=
  match state.loop with
  | .poll => state.record.inTrigger ≠ 0
  | .clearIn => True
  | .scan i => state.record.inTrigger = 0 ∧ i ≤ invocation.items.length
  | .showHeader count => state.record.inTrigger = 0 ∧ count = invocation.items.length
  | .showItems count header items =>
      state.record.inTrigger = 0 ∧ count = invocation.items.length ∧
        header = invocation.header ∧ items = invocation.items.take items.length
  | _ => False

/-- The loop gives its answer. -/
def Answering (chosen : Nat) (state : MenuState) : Prop :=
  state.record.outTrigger = 0 ∧
      (state.loop = .clearHeader chosen ∨ state.loop = .clearItems chosen ∨
        state.loop = .answer chosen) ∨
    state.record.outTrigger = (chosen : Int) + 1 ∧ state.loop = .poll

/-- The states of the protocol. -/
inductive Consistent (all : List Invocation) (state : MenuState) : Prop where
  | done (htodo : state.todo = []) (hmatch : MenusMatch all state.menus state.printed)
      (hloop : state.loop = .poll) (hin : state.record.inTrigger = 0)
  | requesting {finished : List Invocation} {invocation : Invocation} {rest : List Invocation}
      (hall : all = finished ++ invocation :: rest) (htodo : state.todo = invocation :: rest)
      (hmatch : MenusMatch finished state.menus state.printed) (hloop : state.loop = .poll)
      (hin : state.record.inTrigger = 0) (hrequest : Requesting invocation state)
  | pending {finished : List Invocation} {invocation : Invocation} {rest : List Invocation}
      (hall : all = finished ++ invocation :: rest) (htodo : state.todo = invocation :: rest)
      (hmatch : MenusMatch finished state.menus state.printed) (hscript : state.script = .wait)
      (hout : state.record.outTrigger = 0)
      (htable : TableHolds invocation invocation.items.length state.record)
      (hpending : Pending invocation state)
  | answering {finished : List Invocation} {invocation : Invocation} {rest : List Invocation}
      {menus : List ShownMenu} {chosen : Nat}
      (hall : all = finished ++ invocation :: rest) (htodo : state.todo = invocation :: rest)
      (hmenus : state.menus = menus ++ [⟨invocation.header, invocation.items, chosen⟩])
      (hmatch : MenusMatch finished menus state.printed) (hscript : state.script = .wait)
      (hin : state.record.inTrigger = 0) (hanswer : Answering chosen state)

/-- What holds in all states of a session: the menus are those asked for, in the order of the
calls, each call prints the index chosen in its own menu, and a call never waits for a loop
that has nothing to do. -/
structure Outcome (all : List Invocation) (state : MenuState) : Prop where
  asked : state.menus.map ShownMenu.asked = all.take state.menus.length
  printed : state.printed = (state.menus.take state.printed.length).map ShownMenu.response
  shown : state.printed.length ≤ state.menus.length
  answered : state.menus.length ≤ state.printed.length + 1
  todo : state.todo = all.drop state.printed.length
  awake : state.todo ≠ [] → state.script = .wait → state.record.outTrigger = 0 →
    state.loop = .poll → state.record.inTrigger ≠ 0

section Protocol

variable {all : List Invocation} {state : MenuState}

theorem TableHolds.take_item {invocation : Invocation} (hwell : WellFormed invocation) {k : Nat}
    (hk : k < invocation.items.length) :
    (invocation.items.getD k []).take fieldLength = invocation.items.getD k [] ∧
      invocation.items.getD k [] ≠ [] := by
  have hmem : invocation.items.getD k [] ∈ invocation.items := by
    rw [List.getD_eq_getElem _ _ hk]
    exact List.getElem_mem hk
  exact ⟨List.take_of_length_le (hwell.item_length _ hmem), hwell.item_ne _ hmem⟩

/-- The next item is written. -/
theorem TableHolds.write {invocation : Invocation} {record : MenuRecord} {written : Nat}
    (htable : TableHolds invocation written record) (hwell : WellFormed invocation)
    (hwritten : written < invocation.items.length) :
    TableHolds invocation (written + 1) { record with
      items := Function.update record.items written
        ((invocation.items.getD written []).take fieldLength) } where
  header := htable.header
  items := by
    intro k hk
    change Function.update record.items written _ k = _
    by_cases hsame : k = written
    · rw [hsame, Function.update_self, (TableHolds.take_item hwell hwritten).1]
    · rw [Function.update_of_ne hsame]
      exact htable.items k (by omega)
  empty := by
    change Function.update record.items written _ invocation.items.length = []
    rw [Function.update_of_ne (by omega)]
    exact htable.empty
  fits := htable.fits

/-- The terminator is written behind the empty entry. -/
theorem TableHolds.terminate {invocation : Invocation} {record : MenuRecord}
    (htable : TableHolds invocation invocation.items.length record) :
    TableHolds invocation invocation.items.length { record with
      items := Function.update record.items (invocation.items.length + 2) [] } where
  header := htable.header
  items := by
    intro k hk
    change Function.update record.items (invocation.items.length + 2) [] k = _
    rw [Function.update_of_ne (by omega)]
    exact htable.items k hk
  empty := by
    change Function.update record.items (invocation.items.length + 2) [] invocation.items.length = []
    rw [Function.update_of_ne (by omega)]
    exact htable.empty
  fits := htable.fits

/-- The next item is read. -/
theorem TableHolds.read_item {invocation : Invocation} {record : MenuRecord} {items : List Bytes}
    (htable : TableHolds invocation invocation.items.length record)
    (hitems : items = invocation.items.take items.length)
    (hmore : items.length < invocation.items.length) :
    items ++ [record.items items.length] =
      invocation.items.take (items ++ [record.items items.length]).length := by
  rw [List.length_append, List.length_singleton, List.take_add_one,
    List.getElem?_eq_getElem hmore, ← hitems, htable.items _ hmore,
    List.getD_eq_getElem _ _ hmore]
  rfl

theorem TableHolds.of_eq {invocation : Invocation} {record other : MenuRecord} {written : Nat}
    (htable : TableHolds invocation written record) (hheader : other.header = record.header)
    (hitems : other.items = record.items) : TableHolds invocation written other := by
  obtain ⟨hsame, hall, hempty, hfits⟩ := htable
  rw [← hheader] at hsame
  rw [← hitems] at hall hempty
  exact ⟨hsame, hall, hempty, hfits⟩

/-- A step of `imenu` while it writes its request. -/
theorem scriptStep_requesting {finished : List Invocation} {invocation : Invocation}
    {rest : List Invocation} (hwell : WellFormed invocation)
    (hall : all = finished ++ invocation :: rest) (htodo : state.todo = invocation :: rest)
    (hmatch : MenusMatch finished state.menus state.printed) (hloop : state.loop = .poll)
    (hin : state.record.inTrigger = 0) (hrequest : Requesting invocation state)
    (hfits : FitsTable state .script) :
    ∃ next, scriptStep state = .ok next ∧ Consistent all next := by
  have hcount : 0 < invocation.items.length := List.length_pos_of_ne_nil hwell.items_ne
  rw [Requesting] at hrequest
  rw [scriptStep, htodo]
  cases hscript : state.script with
  | writeHeader =>
      obtain ⟨hroom, hempty⟩ := hfits rfl hscript invocation (by rw [htodo]; rfl)
      have hheader : invocation.header.take fieldLength = invocation.header :=
        List.take_of_length_le hwell.header
      refine ⟨_, if_neg (by omega), .requesting hall rfl hmatch hloop hin ?_⟩
      exact ⟨Nat.le_refl 2, by omega, hheader, fun k hk => absurd hk (by omega), hempty, hroom⟩
  | writeItem c =>
      rw [hscript] at hrequest
      obtain ⟨hlow, hhigh, htable⟩ := hrequest
      have hroom := htable.fits
      have hsize : tableSize = 20 := rfl
      dsimp only
      by_cases hmore : c < invocation.items.length + 2
      · rw [if_pos ⟨hmore, by omega⟩, if_pos (by omega)]
        refine ⟨_, rfl, .requesting hall rfl hmatch hloop hin ⟨by omega, by omega, ?_⟩⟩
        rw [show c + 1 - 2 = c - 2 + 1 by omega]
        exact htable.write hwell (by omega)
      · rw [if_neg (by omega)]
        obtain rfl : c = invocation.items.length + 2 := by omega
        rw [Nat.add_sub_cancel] at htable
        exact ⟨_, rfl, .requesting hall rfl hmatch hloop hin ⟨rfl, htable⟩⟩
  | writeTerminator c =>
      rw [hscript] at hrequest
      obtain ⟨rfl, htable⟩ := hrequest
      exact ⟨_, if_pos htable.fits, .requesting hall rfl hmatch hloop hin htable.terminate⟩
  | resetOut =>
      rw [hscript] at hrequest
      exact ⟨_, rfl, .requesting hall rfl hmatch hloop hin ⟨hrequest.of_eq rfl rfl, rfl⟩⟩
  | setIn =>
      rw [hscript] at hrequest
      refine ⟨_, rfl, .pending hall rfl hmatch rfl hrequest.2 (hrequest.1.of_eq rfl rfl) ?_⟩
      rw [Pending, hloop]
      exact one_ne_zero
  | wait =>
      rw [hscript] at hrequest
      exact absurd hrequest id

/-- A step of the loop while a call waits for its answer. -/
theorem loopStep_pending {finished : List Invocation} {invocation : Invocation}
    {rest : List Invocation} (hwell : WellFormed invocation)
    (hall : all = finished ++ invocation :: rest) (htodo : state.todo = invocation :: rest)
    (hmatch : MenusMatch finished state.menus state.printed) (hscript : state.script = .wait)
    (hout : state.record.outTrigger = 0)
    (htable : TableHolds invocation invocation.items.length state.record)
    (hpending : Pending invocation state) (choice : Nat) :
    ∃ next, loopStep state choice = .ok next ∧ Consistent all next := by
  rw [Pending] at hpending
  rw [loopStep]
  cases hloop : state.loop with
  | poll =>
      rw [hloop] at hpending
      refine ⟨_, rfl, ?_⟩
      rw [if_pos hpending]
      exact .pending hall htodo hmatch hscript hout htable trivial
  | clearIn =>
      exact ⟨_, rfl, .pending hall htodo hmatch hscript hout (htable.of_eq rfl rfl)
        ⟨rfl, Nat.zero_le _⟩⟩
  | scan i =>
      rw [hloop] at hpending
      obtain ⟨hin, hi⟩ := hpending
      have hroom := htable.fits
      refine ⟨_, if_pos (by omega), ?_⟩
      by_cases hlast : i = invocation.items.length
      · rw [hlast, htable.empty, if_neg (not_not_intro rfl)]
        exact .pending hall htodo hmatch hscript hout htable ⟨hin, rfl⟩
      · have hitem : state.record.items i ≠ [] := by
          rw [htable.items i (by omega)]
          exact (TableHolds.take_item hwell (by omega)).2
        rw [if_pos hitem]
        exact .pending hall htodo hmatch hscript hout htable ⟨hin, by omega⟩
  | showHeader count =>
      rw [hloop] at hpending
      obtain ⟨hin, hcount⟩ := hpending
      exact ⟨_, rfl, .pending hall htodo hmatch hscript hout htable
        ⟨hin, hcount, htable.header, rfl⟩⟩
  | showItems count header items =>
      rw [hloop] at hpending
      obtain ⟨hin, rfl, rfl, hitems⟩ := hpending
      dsimp only
      by_cases hmore : items.length < invocation.items.length
      · rw [if_pos hmore]
        exact ⟨_, rfl, .pending hall htodo hmatch hscript hout htable
          ⟨hin, rfl, rfl, htable.read_item hitems hmore⟩⟩
      · rw [if_neg hmore]
        rw [List.take_of_length_le (by omega)] at hitems
        refine ⟨_, rfl, .answering hall htodo ?_ hmatch hscript hin (.inl ⟨hout, .inl rfl⟩)⟩
        rw [hitems]
  | clearHeader chosen =>
      rw [hloop] at hpending
      exact absurd hpending id
  | clearItems chosen =>
      rw [hloop] at hpending
      exact absurd hpending id
  | answer chosen =>
      rw [hloop] at hpending
      exact absurd hpending id

/-- A printed answer ends a call. -/
theorem MenusMatch.append {finished : List Invocation} {menus : List ShownMenu}
    {printed : List Int} (hmatch : MenusMatch finished menus printed) (menu : ShownMenu) :
    MenusMatch (finished ++ [menu.asked]) (menus ++ [menu]) (printed ++ [menu.response]) where
  asked := by rw [List.map_append, hmatch.asked, List.map_singleton]
  printed := by rw [List.map_append, hmatch.printed, List.map_singleton]

/-- Every step of either party keeps the protocol. -/
theorem menuStep_consistent (hwell : ∀ invocation ∈ all, WellFormed invocation)
    (hstate : Consistent all state) {event : MenuEvent} (hfits : FitsTable state event) :
    ∃ next, menuStep state event = .ok next ∧ Consistent all next := by
  cases hstate with
  | done htodo hmatch hloop hin =>
      cases event with
      | script =>
          refine ⟨state, ?_, .done htodo hmatch hloop hin⟩
          rw [menuStep, scriptStep, htodo]
      | loop choice =>
          refine ⟨state, ?_, .done htodo hmatch hloop hin⟩
          rw [menuStep, loopStep, hloop, hin]
          rfl
  | @requesting finished invocation rest hall htodo hmatch hloop hin hrequest =>
      have hwellFirst : WellFormed invocation := hwell invocation (by simp [hall])
      cases event with
      | script =>
          exact scriptStep_requesting hwellFirst hall htodo hmatch hloop hin hrequest hfits
      | loop choice =>
          refine ⟨state, ?_, .requesting hall htodo hmatch hloop hin hrequest⟩
          rw [menuStep, loopStep, hloop, hin]
          rfl
  | @pending finished invocation rest hall htodo hmatch hscript hout htable hpending =>
      have hwellFirst : WellFormed invocation := hwell invocation (by simp [hall])
      cases event with
      | script =>
          refine ⟨state, ?_, .pending hall htodo hmatch hscript hout htable hpending⟩
          rw [menuStep, scriptStep, htodo, hscript, hout]
          rfl
      | loop choice =>
          exact loopStep_pending hwellFirst hall htodo hmatch hscript hout htable hpending choice
  | @answering finished invocation rest menus chosen hall htodo hmenus hmatch hscript hin hanswer =>
      cases event with
      | script =>
          rcases hanswer with ⟨hout, hloop⟩ | ⟨hout, hloop⟩
          · refine ⟨state, ?_, .answering hall htodo hmenus hmatch hscript hin (.inl ⟨hout, hloop⟩)⟩
            rw [menuStep, scriptStep, htodo, hscript, hout]
            rfl
          · have hnext : scriptStep state = .ok { state with
                todo := rest
                script := .writeHeader
                printed := state.printed ++ [state.record.outTrigger] } := by
              rw [scriptStep, htodo, hscript]
              exact if_neg (by omega)
            have hfinished : MenusMatch (finished ++ [invocation]) state.menus
                (state.printed ++ [state.record.outTrigger]) := by
              rw [hmenus, hout]
              exact hmatch.append ⟨invocation.header, invocation.items, chosen⟩
            refine ⟨_, hnext, ?_⟩
            cases rest with
            | nil =>
                rw [← hall] at hfinished
                exact .done rfl hfinished hloop hin
            | cons following rest =>
                refine .requesting ?_ rfl hfinished hloop hin trivial
                rw [hall, List.append_assoc, List.singleton_append]
      | loop choice =>
          rcases hanswer with ⟨hout, hloop | hloop | hloop⟩ | ⟨hout, hloop⟩
          · refine ⟨_, by rw [menuStep, loopStep, hloop], ?_⟩
            exact .answering hall htodo hmenus hmatch hscript hin (.inl ⟨hout, .inr (.inl rfl)⟩)
          · refine ⟨_, by rw [menuStep, loopStep, hloop], ?_⟩
            exact .answering hall htodo hmenus hmatch hscript hin (.inl ⟨hout, .inr (.inr rfl)⟩)
          · refine ⟨_, by rw [menuStep, loopStep, hloop], ?_⟩
            exact .answering hall htodo hmenus hmatch hscript hin (.inr ⟨rfl, rfl⟩)
          · refine ⟨state, ?_, .answering hall htodo hmenus hmatch hscript hin (.inr ⟨hout, hloop⟩)⟩
            rw [menuStep, loopStep, hloop, hin]
            rfl

theorem MenusMatch.lengths {finished : List Invocation} {menus : List ShownMenu}
    {printed : List Int} (hmatch : MenusMatch finished menus printed) :
    menus.length = finished.length ∧ printed.length = finished.length := by
  have hmenus : menus.length = finished.length := by rw [← hmatch.asked, List.length_map]
  exact ⟨hmenus, by rw [hmatch.printed, List.length_map, hmenus]⟩

/-- Behind the menus of the finished calls there is at most that of the first call left. -/
theorem MenusMatch.outcome {finished : List Invocation} {menus newest : List ShownMenu}
    (hmatch : MenusMatch finished menus state.printed) (hall : all = finished ++ state.todo)
    (hmenus : state.menus = menus ++ newest) (hnewest : newest.length ≤ 1)
    (hasked : newest.map ShownMenu.asked = state.todo.take newest.length)
    (hawake : state.todo ≠ [] → state.script = .wait → state.record.outTrigger = 0 →
      state.loop = .poll → state.record.inTrigger ≠ 0) :
    Outcome all state := by
  obtain ⟨hshown, hprinted⟩ := hmatch.lengths
  have hlength : state.menus.length = finished.length + newest.length := by
    rw [hmenus, List.length_append, hshown]
  refine ⟨?_, ?_, by omega, by omega, ?_, hawake⟩
  · rw [hlength, hall, List.take_length_add_append, hmenus, List.map_append, hmatch.asked,
      hasked]
  · rw [hprinted, ← hshown, hmenus, List.take_left, ← hmatch.printed]
  · rw [hprinted, hall, List.drop_left]

theorem Consistent.outcome (hstate : Consistent all state) : Outcome all state := by
  cases hstate with
  | done htodo hmatch hloop hin =>
      exact hmatch.outcome (by rw [htodo, List.append_nil]) (List.append_nil _).symm
        (Nat.zero_le _) rfl (fun hleft => absurd htodo hleft)
  | requesting hall htodo hmatch hloop hin hrequest =>
      refine hmatch.outcome (by rw [htodo, hall]) (List.append_nil _).symm (Nat.zero_le _) rfl ?_
      intro _ hscript
      rw [Requesting, hscript] at hrequest
      exact absurd hrequest id
  | pending hall htodo hmatch hscript hout htable hpending =>
      refine hmatch.outcome (by rw [htodo, hall]) (List.append_nil _).symm (Nat.zero_le _) rfl ?_
      intro _ _ _ hloop
      rw [Pending, hloop] at hpending
      exact hpending
  | answering hall htodo hmenus hmatch hscript hin hanswer =>
      refine hmatch.outcome (by rw [htodo, hall]) hmenus (Nat.le_refl 1) ?_ ?_
      · rw [htodo]
        rfl
      · intro _ _ hout hloop
        rcases hanswer with ⟨_, hother | hother | hother⟩ | ⟨hchosen, _⟩
        · exact nomatch hloop.symm.trans hother
        · exact nomatch hloop.symm.trans hother
        · exact nomatch hloop.symm.trans hother
        · omega

theorem menuStart_consistent (before : MenuRecord) : Consistent all (menuStart before all) := by
  cases all with
  | nil => exact .done rfl ⟨rfl, rfl⟩ rfl rfl
  | cons invocation rest =>
      exact .requesting (List.nil_append _).symm rfl ⟨rfl, rfl⟩ rfl rfl trivial

/-- In every interleaving the menus and the answers are right, and no access falls outside the
table, when each call with its terminator fits into it and finds the entry behind its items
empty. -/
theorem imenu_consistent (before : MenuRecord)
    (hwell : ∀ invocation ∈ all, WellFormed invocation) (events : List MenuEvent)
    (hfits : ∀ taken ∈ performed menuStep (menuStart before all) events,
      FitsTable taken.1 taken.2) :
    ∃ last, events.foldlM menuStep (menuStart before all) = .ok last ∧ Outcome all last := by
  obtain ⟨last, hlast, hstate⟩ := run_invariant
    (fun state event hstate hfits => menuStep_consistent hwell hstate hfits)
    (menuStart_consistent before) hfits
  exact ⟨last, hlast, hstate.outcome⟩

end Protocol

/-- The terminator lies two entries too far: the second menu, of one item, also shows an item of
the first, and the terminator of a menu of eighteen items falls outside the table. -/
theorem terminator_too_far :
    ((List.replicate 7 MenuEvent.script ++ List.replicate 12 (MenuEvent.loop 0) ++
      List.replicate 7 MenuEvent.script ++ List.replicate 12 (MenuEvent.loop 1)).foldlM menuStep
        (menuStart ⟨0, 0, [], fun _ => []⟩ [⟨[72], [[97], [98]]⟩, ⟨[72], [[99]]⟩])).toOption.map
          MenuState.menus =
      some [⟨[72], [[97], [98]], 0⟩, ⟨[72], [[99], [98]], 1⟩] ∧
    failureOf ((List.replicate 21 MenuEvent.script).foldlM menuStep
      (menuStart ⟨0, 0, [], fun _ => []⟩ [⟨[72], List.replicate 18 [97]⟩])) =
        some .outsideTable := by
  decide

theorem imenu_consistent_two :
    ∃ last,
      (List.replicate 6 MenuEvent.script ++ List.replicate 10 (MenuEvent.loop 0) ++
        List.replicate 8 MenuEvent.script ++ List.replicate 12 (MenuEvent.loop 1) ++
        [MenuEvent.script]).foldlM menuStep
          (menuStart ⟨0, 0, [], fun _ => []⟩ [⟨[72], [[97]]⟩, ⟨[72], [[98], [99]]⟩]) = .ok last ∧
      Outcome [⟨[72], [[97]]⟩, ⟨[72], [[98], [99]]⟩] last := by
  apply imenu_consistent
  · intro invocation hinvocation
    rw [List.mem_pair] at hinvocation
    rcases hinvocation with rfl | rfl
    · exact ⟨by decide, by decide, by simp, by simp [fieldLength]⟩
    · exact ⟨by decide, by decide, by simp, by simp [fieldLength]⟩
  · exact forall_mem_of_all (by decide)

end OpenRecovery.Imenu
