import OpenRecovery.ConsoleColors
import OpenRecovery.PropertyFiles
import Mathlib

/-!
# Theme files

`load_properties` cuts the text of a theme file into lines, names and values where it stands,
and `evaluate_property` decodes the colours.  The last line that is taken for a colour sets it.
-/

namespace OpenRecovery.ThemeFile

open Effects Edify Terminal

/-! ## The colours -/

structure Color32 where
  r : UInt8
  g : UInt8
  b : UInt8
  a : UInt8
  deriving DecidableEq

/-- The colours that a theme file can set, and whether the title has a colour of its own. -/
structure Theme where
  led : Bool × Bool × Bool
  background : Color32
  title : Color32
  titleSet : Bool
  menu : Color32
  menuSel : Color32
  script : Color32
  consoleHeader : Color
  consoleBackground : Color
  palette : Palette

def Theme.default : Theme where
  led := (true, false, false)
  background := ⟨0, 0, 0, 160⟩
  title := ⟨255, 55, 5, 255⟩
  titleSet := false
  menu := ⟨255, 55, 5, 255⟩
  menuSel := ⟨255, 255, 255, 255⟩
  script := ⟨255, 255, 0, 255⟩
  consoleHeader := ⟨255, 255, 0⟩
  consoleBackground := ⟨0, 0, 0⟩
  palette := .default

/-! ## The decoder -/

def hash : UInt8 := 35

def equalSign : UInt8 := 61

/-- A digit of `read_byte_hex`, whose difference is a byte. -/
def readDigit (text : UInt8) : Option UInt8 :=
  if 57 < text then
    let c := text - 65 + 0x0A
    if 0x0F < c then none else some c
  else
    let c := text - 48
    if 0x09 < c then none else some c

def readByteHex : Bytes → Option UInt8
  | high :: low :: _ => do
      let value ← readDigit high
      let c ← readDigit low
      some (value * 0x10 + c)
  | _ => none

def htoc (text : Bytes) : (clrBytes : Nat) → Option Bytes
  | 0 => some []
  | clrBytes + 1 => do
      let c ← readByteHex text
      let rest ← htoc (text.drop 2) clrBytes
      some (c :: rest)

def htoc24 (text : Bytes) : Option Color :=
  if text.length < 7 then none
  else if text.head? ≠ some hash then none
  else
    match htoc (text.drop 1) 3 with
    | some [r, g, b] => some ⟨r, g, b⟩
    | _ => none

def htoc32 (text : Bytes) : Option Color32 :=
  if text.length < 9 then none
  else if text.head? ≠ some hash then none
  else
    match htoc (text.drop 1) 4 with
    | some [r, g, b, a] => some ⟨r, g, b, a⟩
    | _ => none

/-- The names of the terminal colours begin so. -/
def termclrBase : Bytes :=
  ascii "color24.console.termclr"

/-- `atoi`. -/
def atoi (text : Bytes) : Int :=
  (Edify.strtol text).1

def evaluateLed (theme : Theme) (value : Bytes) : Theme :=
  match value with
  | first :: r :: g :: b :: _ =>
      if first ≠ hash then theme else { theme with led := (r = 49, g = 49, b = 49) }
  | _ => theme

def evaluateTitle (theme : Theme) (value : Bytes) : Theme :=
  match htoc32 value with
  | none => theme
  | some c => { theme with title := c, titleSet := true }

def evaluateMenu (theme : Theme) (value : Bytes) : Theme :=
  match htoc32 value with
  | none => theme
  | some c => { theme with menu := c, title := if theme.titleSet then theme.title else c }

/-- A colour that is set as soon as the value can be decoded. -/
def evaluatePlain {Value : Type} (theme : Theme) (decoded : Option Value)
    (change : Value → Theme) : Theme :=
  match decoded with
  | none => theme
  | some c => change c

def evaluateProperty (theme : Theme) (data value : Bytes) : Theme :=
  if data = ascii "color3.LED" then evaluateLed theme value
  else if data = ascii "color32.background" then
    evaluatePlain theme (htoc32 value) fun c => { theme with background := c }
  else if data = ascii "color32.title" then evaluateTitle theme value
  else if data = ascii "color32.menu" then evaluateMenu theme value
  else if data = ascii "color32.selection" then
    evaluatePlain theme (htoc32 value) fun c => { theme with menuSel := c }
  else if data = ascii "color32.script" then
    evaluatePlain theme (htoc32 value) fun c => { theme with script := c }
  else if data = ascii "color24.console.header" then
    evaluatePlain theme (htoc24 value) fun c => { theme with consoleHeader := c }
  else if data = ascii "color24.console.background" then
    evaluatePlain theme (htoc24 value) fun c => { theme with consoleBackground := c }
  else if data = ascii "color24.console.front" then
    evaluatePlain theme (htoc24 value) fun c =>
      { theme with palette := theme.palette.evaluateProperty (.front c) }
  else if termclrBase.isPrefixOf data then
    evaluatePlain theme (htoc24 value) fun c =>
      { theme with
        palette := theme.palette.evaluateProperty (.term (atoi (data.drop termclrBase.length)) c) }
  else theme

/-! ## The lines in the buffer -/

/-- `while((tmp > start) && isspace(*tmp)) *tmp-- = 0`, for at most `count` bytes. -/
def clearBack (buffer : Bytes) (start : Int) : (count : Nat) → (tmp : Int) → Except Stuck Bytes
  | 0, _ => .ok buffer
  | count + 1, tmp =>
      if start < tmp then do
        let byte ← loadByte buffer tmp
        if Edify.isSpace byte then do
          let buffer ← storeByte buffer tmp 0
          clearBack buffer start count (tmp - 1)
        else .ok buffer
      else .ok buffer

/-- The rest of a line from its name on, once the sign is found and gone. -/
def loadPair (theme : Theme) (buffer : Bytes) (key value eol : Nat) :
    Except Stuck (Theme × Bytes) := do
  let key ← skipForward Edify.isSpace (buffer.drop key) key
  let first ← loadByte buffer key
  if first = hash then .ok (theme, buffer)
  else do
    let buffer ← clearBack buffer key (value - 2 - key : Int).toNat (value - 2)
    let value ← skipForward Edify.isSpace (buffer.drop value) value
    let buffer ← clearBack buffer value (eol - 2 - value : Int).toNat (eol - 2)
    .ok (evaluateProperty theme (cString (buffer.drop key)) (cString (buffer.drop value)), buffer)

/-- The body of the loop for a line that begins at `sol` and ends before `eol`. -/
def loadLine (theme : Theme) (buffer : Bytes) (sol eol : Nat) : Except Stuck (Theme × Bytes) := do
  let buffer ← storeByte buffer (eol - 1) 0
  let value ← skipForward (fun byte => byte ≠ 0 && byte ≠ equalSign) (buffer.drop sol) sol
  let byte ← loadByte buffer value
  if byte = 0 then .ok (theme, buffer)
  else do
    let buffer ← storeByte buffer value 0
    loadPair theme buffer sol (value + 1) eol

def loadLines : (rounds : Nat) → Theme → (data : Bytes) → (sol : Nat) → Except Stuck Theme
  | 0, _, _, _ => .error .hang
  | rounds + 1, theme, data, sol => do
      let eol ← skipForward (fun byte => byte ≠ 0 && byte ≠ newline) (data.drop sol) sol
      let byte ← loadByte data eol
      if byte = 0 then .ok theme
      else do
        let (theme, data) ← loadLine theme data sol (eol + 1)
        loadLines rounds theme data (eol + 1)

def loadProperties (theme : Theme) (data : Bytes) : Except Stuck Theme :=
  loadLines data.length theme data 0

/-- `read_file` of a file with these contents. -/
def readFile (contents : Bytes) : Bytes :=
  contents ++ [newline, 0]

/-! ## What the lines say -/

/-- A colour that a theme file can name. -/
inductive Slot where
  | background
  | title
  | menu
  | selection
  | script
  | header
  | consoleBackground
  | front
  | term (code : { code : Nat // IsTermCode code })
  deriving DecidableEq

def Slot.name : Slot → Bytes
  | .background => ascii "color32.background"
  | .title => ascii "color32.title"
  | .menu => ascii "color32.menu"
  | .selection => ascii "color32.selection"
  | .script => ascii "color32.script"
  | .header => ascii "color24.console.header"
  | .consoleBackground => ascii "color24.console.background"
  | .front => ascii "color24.console.front"
  | .term code => termclrBase ++ [48 + .ofNat (code / 10), 48 + .ofNat (code % 10)]

/-- How many bytes a colour has. -/
def Slot.size : Slot → Nat
  | .background | .title | .menu | .selection | .script => 4
  | .header | .consoleBackground | .front | .term _ => 3

def channels32 (c : Color32) : Bytes :=
  [c.r, c.g, c.b, c.a]

def channels24 (c : Color) : Bytes :=
  [c.red, c.green, c.blue]

/-- The bytes of a colour of a theme. -/
def Theme.channels (theme : Theme) : Slot → Bytes
  | .background => channels32 theme.background
  | .title => channels32 theme.title
  | .menu => channels32 theme.menu
  | .selection => channels32 theme.menuSel
  | .script => channels32 theme.script
  | .header => channels24 theme.consoleHeader
  | .consoleBackground => channels24 theme.consoleBackground
  | .front => channels24 theme.palette.front
  | .term code => channels24 (theme.palette.term (termIndex code))

/-- The digits `0` to `9` and `A` to `F`. -/
def hexDigit (c : UInt8) : Option UInt8 :=
  if 48 ≤ c ∧ c ≤ 57 then some (c - 48)
  else if 65 ≤ c ∧ c ≤ 70 then some (c - 55)
  else none

/-- The characters between `9` and `A` are taken for digits as well. -/
def looseDigit (c : UInt8) : Option UInt8 :=
  if 48 ≤ c ∧ c ≤ 57 then some (c - 48)
  else if 58 ≤ c ∧ c ≤ 70 then some (c - 55)
  else none

/-- The bytes that a text begins with, each as two digits. -/
def leadingBytes (digit : UInt8 → Option UInt8) : (number : Nat) → Bytes → Option Bytes
  | 0, _ => some []
  | number + 1, high :: low :: digits => do
      let high ← digit high
      let low ← digit low
      let rest ← leadingBytes digit number digits
      some ((16 * high + low) :: rest)
  | _ + 1, _ => none

def colorValue (digit : UInt8 → Option UInt8) (slot : Slot) (value : Bytes) : Option Bytes :=
  if value.head? = some hash then leadingBytes digit slot.size (value.drop 1) else none

def trim (text : Bytes) : Bytes :=
  (text.dropWhile Edify.isSpace).rdropWhile Edify.isSpace

/-- The name and the value of a line that is not a comment. -/
def pairOf (line : Bytes) : Option (Bytes × Bytes) :=
  if equalSign ∉ line ∨ (line.dropWhile Edify.isSpace).head? = some hash then none
  else
    some (trim (line.takeWhile (· ≠ equalSign)), trim ((line.dropWhile (· ≠ equalSign)).drop 1))

/-- The colour that a line gives to a slot. -/
def setting (line : Bytes) (slot : Slot) : Option Bytes :=
  match pairOf line with
  | none => none
  | some (name, value) => if name = slot.name then colorValue hexDigit slot value else none

/-- The name of a slot, or of a terminal colour with any text that `atoi` reads as its number. -/
def Slot.answersTo (slot : Slot) (name : Bytes) : Bool :=
  match slot with
  | .term code => termclrBase.isPrefixOf name && atoi (name.drop termclrBase.length) = code.val
  | slot => name = slot.name

/-- The colour that a line is taken to give to a slot. -/
def taken (line : Bytes) (slot : Slot) : Option Bytes :=
  match pairOf line with
  | none => none
  | some (name, value) => if slot.answersTo name then colorValue looseDigit slot value else none

/-- The last colour that the lines have for a slot. -/
def lastColor (colorOf : Bytes → Slot → Option Bytes) (lines : List Bytes) (slot : Slot) :
    Option Bytes :=
  lines.reverse.findSome? fun line => colorOf line slot

/-- The colours after the lines: the title is like the menu until it has a colour of its own. -/
def colorAfter (colorOf : Bytes → Slot → Option Bytes) (lines : List Bytes) : Slot → Bytes
  | .title =>
      (lastColor colorOf lines .title).getD
        ((lastColor colorOf lines .menu).getD (Theme.default.channels .menu))
  | slot => (lastColor colorOf lines slot).getD (Theme.default.channels slot)

/-- The lines before the first zero byte, the last line counting only if no zero byte is in it. -/
def readLines (contents : Bytes) : List Bytes :=
  ((cString (readFile contents)).splitOn newline).dropLast

/-! ## The decoder again -/

theorem readDigit_eq (c : UInt8) : readDigit c = looseDigit c := by
  have hall : ∀ digit : Fin 256,
      readDigit (UInt8.ofFin digit) = looseDigit (UInt8.ofFin digit) := by decide +kernel
  exact hall c.toFin

theorem htoc_eq (text : Bytes) (clrBytes : Nat) :
    htoc text clrBytes = leadingBytes looseDigit clrBytes text := by
  induction clrBytes generalizing text with
  | zero => rfl
  | succ clrBytes ih =>
      rw [htoc, ih]
      match text with
      | [] => rfl
      | [_] => rfl
      | high :: low :: digits =>
          rw [readByteHex, leadingBytes, readDigit_eq, readDigit_eq]
          cases looseDigit high with
          | none => rfl
          | some value =>
              cases looseDigit low with
              | none => rfl
              | some c =>
                  change (leadingBytes looseDigit clrBytes digits >>= _) = _
                  rw [UInt8.mul_comm]
                  rfl

theorem leadingBytes_length {digit : UInt8 → Option UInt8} {number : Nat} {text bytes : Bytes}
    (hbytes : leadingBytes digit number text = some bytes) :
    bytes.length = number ∧ 2 * number ≤ text.length := by
  induction number generalizing text bytes with
  | zero =>
      cases hbytes
      exact ⟨rfl, Nat.zero_le _⟩
  | succ number ih =>
      match text with
      | [] => cases hbytes
      | [_] => cases hbytes
      | high :: low :: digits =>
          rw [leadingBytes] at hbytes
          obtain ⟨_, -, hbytes⟩ := Option.bind_eq_some_iff.mp hbytes
          obtain ⟨_, -, hbytes⟩ := Option.bind_eq_some_iff.mp hbytes
          obtain ⟨rest, hrest, hbytes⟩ := Option.bind_eq_some_iff.mp hbytes
          cases hbytes
          obtain ⟨hlength, hlong⟩ := ih hrest
          simp only [List.length_cons]
          omega

theorem htoc32_eq {slot : Slot} (hslot : slot.size = 4) (value : Bytes) :
    (htoc32 value).map channels32 = colorValue looseDigit slot value := by
  rw [htoc32, colorValue, hslot, htoc_eq]
  by_cases hhash : value.head? = some hash
  · rw [if_neg (not_not.mpr hhash), if_pos hhash]
    cases hbytes : leadingBytes looseDigit 4 (value.drop 1) with
    | none =>
        split <;> rfl
    | some bytes =>
        obtain ⟨hlength, hlong⟩ := leadingBytes_length hbytes
        rw [List.length_drop] at hlong
        rw [if_neg (by omega)]
        match bytes, hlength with
        | [r, g, b, a], _ => rfl
  · rw [if_pos hhash, if_neg hhash]
    split <;> rfl

theorem htoc24_eq {slot : Slot} (hslot : slot.size = 3) (value : Bytes) :
    (htoc24 value).map channels24 = colorValue looseDigit slot value := by
  rw [htoc24, colorValue, hslot, htoc_eq]
  by_cases hhash : value.head? = some hash
  · rw [if_neg (not_not.mpr hhash), if_pos hhash]
    cases hbytes : leadingBytes looseDigit 3 (value.drop 1) with
    | none =>
        split <;> rfl
    | some bytes =>
        obtain ⟨hlength, hlong⟩ := leadingBytes_length hbytes
        rw [List.length_drop] at hlong
        rw [if_neg (by omega)]
        match bytes, hlength with
        | [r, g, b], _ => rfl
  · rw [if_pos hhash, if_neg hhash]
    split <;> rfl

/-! ## One property -/

section Properties

variable {theme : Theme} {data value : Bytes}

/-- The colour that a name and a value are taken to give to a slot. -/
def given (slot : Slot) (data value : Bytes) : Option Bytes :=
  if slot.answersTo data then colorValue looseDigit slot value else none

/-- The slots of which the whole name is written. -/
def Slot.IsPlain : Slot → Prop
  | .term _ => False
  | _ => True

theorem Slot.plain_or_term (slot : Slot) : slot.IsPlain ∨ ∃ code, slot = .term code := by
  cases slot with
  | term code => exact Or.inr ⟨code, rfl⟩
  | _ => exact Or.inl trivial

theorem not_prefix_name {slot : Slot} (hplain : slot.IsPlain) :
    termclrBase.isPrefixOf slot.name = false := by
  cases slot with
  | term code => exact hplain.elim
  | _ => decide

theorem answersTo_name {slot other : Slot} (hplain : other.IsPlain) :
    slot.answersTo other.name = true ↔ slot = other := by
  cases slot with
  | term code =>
      rw [Slot.answersTo, not_prefix_name hplain, Bool.false_and]
      refine iff_of_false Bool.false_ne_true ?_
      rintro rfl
      exact hplain
  | _ =>
      cases other with
      | term code => exact hplain.elim
      | _ => decide

theorem given_plain (slot : Slot) (hplain : slot.IsPlain) (hdata : data ≠ slot.name) :
    given slot data value = none := by
  rw [given, if_neg]
  cases slot with
  | term code => exact hplain.elim
  | _ => exact fun hname => hdata (of_decide_eq_true hname)

theorem given_term (code : { code : Nat // IsTermCode code })
    (hdata : termclrBase.isPrefixOf data = false) : given (.term code) data value = none := by
  rw [given, Slot.answersTo, hdata, Bool.false_and]
  rfl

theorem given_other {slot : Slot} (other : Slot) (hplain : other.IsPlain)
    (hdata : data = other.name) (hne : slot ≠ other) : given slot data value = none := by
  rw [given, hdata, if_neg fun hname => hne ((answersTo_name hplain).mp hname)]

theorem given_name (other : Slot) (hplain : other.IsPlain) (hdata : data = other.name) :
    given other data value = colorValue looseDigit other value := by
  rw [given, hdata, if_pos ((answersTo_name hplain).mpr rfl)]

/-- A property that sets one colour and leaves the others. -/
theorem channels_plain {Value : Type} {decoded : Option Value} {change : Value → Theme}
    {toBytes : Value → Bytes} {slot : Slot} (other : Slot) (hplain : other.IsPlain)
    (hdata : data = other.name)
    (hdecoded : decoded.map toBytes = colorValue looseDigit other value)
    (hset : ∀ c, (change c).channels other = toBytes c)
    (hkept : ∀ c, slot ≠ other → (change c).channels slot = theme.channels slot) :
    (evaluatePlain theme decoded change).channels slot =
      (given slot data value).getD (theme.channels slot) := by
  by_cases hslot : slot = other
  · rw [hslot, given_name other hplain hdata, ← hdecoded]
    cases decoded with
    | none => rfl
    | some c => exact hset c
  · rw [given_other other hplain hdata hslot]
    cases decoded with
    | none => rfl
    | some c => exact hkept c hslot

theorem channels_evaluateLed (theme : Theme) (value : Bytes) (slot : Slot) :
    (evaluateLed theme value).channels slot = theme.channels slot := by
  unfold evaluateLed
  split
  · split
    · rfl
    · cases slot <;> rfl
  · rfl

theorem channels_evaluateTitle {slot : Slot} (hslot : slot ≠ .title) (theme : Theme)
    (value : Bytes) : (evaluateTitle theme value).channels slot = theme.channels slot := by
  unfold evaluateTitle
  split
  · rfl
  · cases slot with
    | title => exact absurd rfl hslot
    | _ => rfl

theorem channels_evaluateMenu (theme : Theme) (value : Bytes) :
    (evaluateMenu theme value).channels .menu =
      ((htoc32 value).map channels32).getD (theme.channels .menu) := by
  unfold evaluateMenu
  cases htoc32 value <;> rfl

theorem channels_evaluateMenu_other {slot : Slot} (htitle : slot ≠ .title) (hmenu : slot ≠ .menu)
    (theme : Theme) (value : Bytes) :
    (evaluateMenu theme value).channels slot = theme.channels slot := by
  unfold evaluateMenu
  split
  · rfl
  · cases slot with
    | title => exact absurd rfl htitle
    | menu => exact absurd rfl hmenu
    | _ => rfl

/-- A name that begins like those of the terminal colours. -/
theorem channels_term {slot : Slot} (hdata : termclrBase.isPrefixOf data = true) :
    (evaluatePlain theme (htoc24 value) fun c =>
        { theme with
          palette :=
            theme.palette.evaluateProperty (.term (atoi (data.drop termclrBase.length)) c) }
      ).channels slot = (given slot data value).getD (theme.channels slot) := by
  rcases slot.plain_or_term with hplain | ⟨code, rfl⟩
  · have hne : data ≠ slot.name := by
      rintro rfl
      rw [not_prefix_name hplain] at hdata
      cases hdata
    rw [given_plain slot hplain hne]
    cases htoc24 value with
    | none => rfl
    | some c =>
        cases slot with
        | term code => exact hplain.elim
        | front => exact congrArg channels24 (evaluateProperty_front _ _ _)
        | _ => rfl
  · rw [given, Slot.answersTo, hdata, Bool.true_and, ← htoc24_eq rfl]
    cases htoc24 value with
    | none => rw [Option.map_none, ite_self, evaluatePlain, Option.getD_none]
    | some c =>
        change channels24 ((theme.palette.evaluateProperty _).term (termIndex code)) = _
        rw [evaluateProperty_term _ _ _ code.2]
        split
        · rename_i hval
          rw [if_pos (decide_eq_true hval)]
          rfl
        · rename_i hval
          rw [if_neg (by simpa using hval)]
          rfl

theorem channels_evaluateProperty {slot : Slot} (hslot : slot ≠ .title) :
    (evaluateProperty theme data value).channels slot =
      (given slot data value).getD (theme.channels slot) := by
  rw [evaluateProperty]
  split_ifs with hled hbackground htitle hmenu hselection hscript hheader hconsole hfront hterm
  · rw [channels_evaluateLed]
    rcases slot.plain_or_term with hplain | ⟨code, rfl⟩
    · have hne : data ≠ slot.name := by
        rw [hled]
        cases slot with
        | term code => exact hplain.elim
        | _ => decide
      rw [given_plain slot hplain hne]
      rfl
    · rw [given_term code (by rw [hled]; decide)]
      rfl
  · refine channels_plain .background trivial hbackground (htoc32_eq rfl value) (fun _ => rfl) ?_
    intro c hne
    cases slot <;> first | rfl | exact absurd rfl hne
  · rw [channels_evaluateTitle hslot, given_other .title trivial htitle hslot]
    rfl
  · by_cases hne : slot = .menu
    · rw [hne, channels_evaluateMenu, @htoc32_eq .menu rfl, given_name .menu trivial hmenu]
    · rw [channels_evaluateMenu_other hslot hne, given_other .menu trivial hmenu hne]
      rfl
  · refine channels_plain .selection trivial hselection (htoc32_eq rfl value) (fun _ => rfl) ?_
    intro c hne
    cases slot <;> first | rfl | exact absurd rfl hne
  · refine channels_plain .script trivial hscript (htoc32_eq rfl value) (fun _ => rfl) ?_
    intro c hne
    cases slot <;> first | rfl | exact absurd rfl hne
  · refine channels_plain .header trivial hheader (htoc24_eq rfl value) (fun _ => rfl) ?_
    intro c hne
    cases slot <;> first | rfl | exact absurd rfl hne
  · refine channels_plain .consoleBackground trivial hconsole (htoc24_eq rfl value)
      (fun _ => rfl) ?_
    intro c hne
    cases slot <;> first | rfl | exact absurd rfl hne
  · refine channels_plain .front trivial hfront (htoc24_eq rfl value) (fun _ => rfl) ?_
    intro c hne
    cases slot <;> first | rfl | exact absurd rfl hne
  · exact channels_term hterm
  · rcases slot.plain_or_term with hplain | ⟨code, rfl⟩
    · have hne : data ≠ slot.name := by
        cases slot with
        | background => exact hbackground
        | title => exact htitle
        | menu => exact hmenu
        | selection => exact hselection
        | script => exact hscript
        | header => exact hheader
        | consoleBackground => exact hconsole
        | front => exact hfront
        | term code => exact hplain.elim
      rw [given_plain slot hplain hne]
      rfl
    · rw [given_term code (Bool.eq_false_iff.mpr hterm)]
      rfl

theorem evaluateProperty_title (theme : Theme) (value : Bytes) :
    evaluateProperty theme (ascii "color32.title") value = evaluateTitle theme value := by
  rw [evaluateProperty, if_neg (by decide), if_neg (by decide), if_pos rfl]

theorem evaluateProperty_menu (theme : Theme) (value : Bytes) :
    evaluateProperty theme (ascii "color32.menu") value = evaluateMenu theme value := by
  rw [evaluateProperty, if_neg (by decide), if_neg (by decide), if_neg (by decide), if_pos rfl]

theorem evaluatePlain_title {Value : Type} {decoded : Option Value} {change : Value → Theme}
    (hkept : ∀ c, (change c).titleSet = theme.titleSet ∧ (change c).title = theme.title) :
    (evaluatePlain theme decoded change).titleSet = theme.titleSet ∧
      (evaluatePlain theme decoded change).title = theme.title := by
  cases decoded with
  | none => exact ⟨rfl, rfl⟩
  | some c => exact hkept c

theorem evaluateProperty_title_other (htitle : data ≠ ascii "color32.title")
    (hmenu : data ≠ ascii "color32.menu") :
    (evaluateProperty theme data value).titleSet = theme.titleSet ∧
      (evaluateProperty theme data value).title = theme.title := by
  rw [evaluateProperty, if_neg htitle, if_neg hmenu]
  split_ifs
  · unfold evaluateLed
    split
    · split <;> exact ⟨rfl, rfl⟩
    · exact ⟨rfl, rfl⟩
  all_goals first | exact evaluatePlain_title fun _ => ⟨rfl, rfl⟩ | exact ⟨rfl, rfl⟩

/-- The title has a colour of its own as soon as a line gives it one. -/
theorem titleSet_evaluateProperty :
    (evaluateProperty theme data value).titleSet =
      (theme.titleSet || (given .title data value).isSome) := by
  by_cases htitle : data = ascii "color32.title"
  · rw [given_name .title trivial htitle, ← htoc32_eq rfl, htitle, evaluateProperty_title]
    unfold evaluateTitle
    cases htoc32 value with
    | none => exact (Bool.or_false _).symm
    | some c => exact (Bool.or_true _).symm
  · rw [given_plain .title trivial htitle, Option.isSome_none, Bool.or_false]
    by_cases hmenu : data = ascii "color32.menu"
    · rw [hmenu, evaluateProperty_menu]
      unfold evaluateMenu
      split <;> rfl
    · exact (evaluateProperty_title_other htitle hmenu).1

/-- Until then it follows the menu. -/
theorem title_evaluateProperty :
    (evaluateProperty theme data value).channels .title =
      (given .title data value).getD (if theme.titleSet then theme.channels .title
        else (given .menu data value).getD (theme.channels .title)) := by
  by_cases htitle : data = ascii "color32.title"
  · rw [given_name .title trivial htitle, ← htoc32_eq rfl,
      given_other .title trivial htitle (show Slot.menu ≠ .title from nofun), htitle,
      evaluateProperty_title, Option.getD_none, ite_self]
    unfold evaluateTitle
    cases htoc32 value <;> rfl
  · rw [given_plain .title trivial htitle, Option.getD_none]
    by_cases hmenu : data = ascii "color32.menu"
    · rw [given_name .menu trivial hmenu, ← htoc32_eq rfl, hmenu, evaluateProperty_menu]
      unfold evaluateMenu
      cases htoc32 value with
      | none => exact (ite_self _).symm
      | some c =>
          change channels32 (if theme.titleSet then theme.title else c) =
            if theme.titleSet then channels32 theme.title else channels32 c
          split <;> rfl
    · rw [given_plain .menu trivial hmenu, Option.getD_none, ite_self]
      exact congrArg channels32 (evaluateProperty_title_other htitle hmenu).2

end Properties

/-! ## All lines -/

section Lines

def evaluateLine (theme : Theme) (line : Bytes) : Theme :=
  match pairOf line with
  | none => theme
  | some (name, value) => evaluateProperty theme name value

theorem channels_evaluateLine {slot : Slot} (hslot : slot ≠ .title) (theme : Theme)
    (line : Bytes) :
    (evaluateLine theme line).channels slot = (taken line slot).getD (theme.channels slot) := by
  unfold evaluateLine taken
  split
  · rfl
  · exact channels_evaluateProperty hslot

theorem titleSet_evaluateLine (theme : Theme) (line : Bytes) :
    (evaluateLine theme line).titleSet = (theme.titleSet || (taken line .title).isSome) := by
  unfold evaluateLine taken
  split
  · exact (Bool.or_false _).symm
  · exact titleSet_evaluateProperty

theorem title_evaluateLine (theme : Theme) (line : Bytes) :
    (evaluateLine theme line).channels .title =
      (taken line .title).getD (if theme.titleSet then theme.channels .title
        else (taken line .menu).getD (theme.channels .title)) := by
  unfold evaluateLine taken
  split
  · exact (ite_self _).symm
  · exact title_evaluateProperty

theorem lastColor_concat (colorOf : Bytes → Slot → Option Bytes) (lines : List Bytes)
    (line : Bytes) (slot : Slot) :
    lastColor colorOf (lines ++ [line]) slot =
      (colorOf line slot).or (lastColor colorOf lines slot) := by
  rw [lastColor, List.reverse_append, List.reverse_singleton, List.singleton_append,
    List.findSome?_cons]
  cases colorOf line slot <;> rfl

theorem colorAfter_of_ne {slot : Slot} (hslot : slot ≠ .title)
    (colorOf : Bytes → Slot → Option Bytes) (lines : List Bytes) :
    colorAfter colorOf lines slot =
      (lastColor colorOf lines slot).getD (Theme.default.channels slot) := by
  cases slot with
  | title => exact absurd rfl hslot
  | _ => rfl

/-- The colours after some lines are those that the lines are taken to give. -/
theorem evaluateLines_colors (lines : List Bytes) :
    (lines.foldl evaluateLine .default).titleSet = (lastColor taken lines .title).isSome ∧
      ∀ slot, (lines.foldl evaluateLine .default).channels slot = colorAfter taken lines slot := by
  induction lines using List.reverseRecOn with
  | nil =>
      refine ⟨rfl, fun slot => ?_⟩
      cases slot <;> rfl
  | append_singleton lines line ih =>
      obtain ⟨hset, hcolors⟩ := ih
      rw [List.foldl_append, List.foldl_cons, List.foldl_nil]
      constructor
      · rw [titleSet_evaluateLine, hset, lastColor_concat, Option.isSome_or, Bool.or_comm]
      · intro slot
        by_cases hslot : slot = .title
        · subst hslot
          rw [title_evaluateLine, hset, hcolors, colorAfter, colorAfter, lastColor_concat,
            lastColor_concat]
          cases taken line .title with
          | some c => rfl
          | none =>
              cases lastColor taken lines .title with
              | some c => rfl
              | none =>
                  cases taken line .menu <;> rfl
        · rw [channels_evaluateLine hslot, hcolors]
          rw [colorAfter_of_ne hslot, colorAfter_of_ne hslot, lastColor_concat]
          cases taken line slot <;> rfl

end Lines

/-! ## The lines where they stand -/

section Buffer

variable {buffer front back : Bytes}

theorem isSpace_zero_and :
    (fun byte : UInt8 => byte ≠ 0 && Edify.isSpace byte) = Edify.isSpace := by
  funext byte
  by_cases hbyte : byte = 0
  · subst hbyte
    rfl
  · rw [decide_eq_true hbyte, Bool.true_and]

/-- Spaces behind a word are cleared, one after the other from the end. -/
theorem clearBack_eq {word : Bytes} {start : Int} (spaces : Bytes) (hstart : start = front.length)
    (hbuffer : buffer = front ++ (word ++ spaces) ++ back)
    (hspaces : ∀ byte ∈ spaces, Edify.isSpace byte)
    (hword : ∀ byte ∈ word.getLast?, Edify.isSpace byte = false)
    (hempty : word = [] → spaces = []) :
    clearBack buffer start ((word ++ spaces).length - 1) (start + (word ++ spaces).length - 1) =
      .ok (front ++ (word ++ List.replicate spaces.length 0) ++ back) := by
  induction spaces using List.reverseRecOn generalizing back buffer with
  | nil =>
      rw [List.append_nil] at hbuffer
      rw [List.length_nil, List.replicate_zero, List.append_nil, ← hbuffer]
      rcases List.eq_nil_or_concat' word with rfl | ⟨init, last, rfl⟩
      · rfl
      · have hlast : Edify.isSpace last = false := hword last (by simp)
        cases hlength : (init ++ [last]).length - 1 with
        | zero => rw [clearBack]
        | succ count =>
            have hload : loadByte buffer (start + ((init ++ [last]).length : Nat) - 1) =
                .ok last := by
              refine @loadByte_eq _ (front ++ init) back _ _ ?_ ?_
              · rw [hbuffer]
                simp
              · simp only [List.length_append, List.length_singleton, hstart]
                omega
            rw [clearBack, hload]
            split
            · exact if_neg (Bool.eq_false_iff.mp hlast)
            · rfl
  | append_singleton spaces last ih =>
      have hne : word ≠ [] := by
        intro hnil
        cases List.append_eq_nil_iff.mp (hempty hnil) with
        | intro _ hlast => cases hlast
      have hpos := List.length_pos_of_ne_nil hne
      have hplace : start + ((word ++ (spaces ++ [last])).length : Nat) - 1 =
          (front ++ (word ++ spaces)).length := by
        simp only [List.length_append, List.length_singleton, hstart]
        omega
      have hsplit : buffer = (front ++ (word ++ spaces)) ++ last :: back := by
        rw [hbuffer]
        simp
      have hcount : (word ++ (spaces ++ [last])).length - 1 = (word ++ spaces).length - 1 + 1 := by
        simp only [List.length_append, List.length_singleton]
        omega
      have hrest := @ih ((front ++ (word ++ spaces)) ++ 0 :: back) (0 :: back) rfl
        (fun byte hbyte => hspaces byte (List.mem_append_left _ hbyte))
        (fun hnil => absurd hnil hne)
      have hnext : ((front ++ (word ++ spaces)).length : Int) - 1 =
          start + ((word ++ spaces).length : Nat) - 1 := by
        rw [List.length_append, hstart]
        omega
      have hlast : Edify.isSpace last = true :=
        hspaces last (List.mem_append_right _ (List.mem_singleton_self _))
      rw [hcount, clearBack, hplace, if_pos (by rw [List.length_append, List.length_append]; omega),
        loadByte_eq hsplit rfl]
      refine (if_pos hlast).trans ?_
      rw [storeByte_eq hsplit rfl, hnext]
      refine hrest.trans ?_
      rw [List.length_append, List.length_singleton, List.replicate_succ']
      simp only [List.append_assoc, List.singleton_append]

/-- The text at a place is trimmed, and zeros stand behind it. -/
theorem clearBack_text {text : Bytes} {start : Int} {count : Nat} (tmp : Int)
    (hbuffer : buffer = front ++ (text ++ 0 :: back)) (hstart : start = front.length)
    (hhead : ∀ byte ∈ text.head?, Edify.isSpace byte = false)
    (htmp : tmp = start + text.length - 1) (hcount : count = (tmp - start).toNat) :
    ∃ zeros, clearBack buffer start count tmp =
        .ok (front ++ (text.rdropWhile Edify.isSpace ++ 0 :: zeros) ++ back) ∧
      (text.rdropWhile Edify.isSpace ++ 0 :: zeros).length = text.length + 1 := by
  have htext := @List.rdropWhile_append_rtakeWhile _ Edify.isSpace text
  have hlength := congrArg List.length htext
  rw [List.length_append] at hlength
  obtain ⟨hspaces, hword, hempty⟩ := trailing_spaces hhead
  have hclear := @clearBack_eq buffer front (0 :: back) _ start (text.rtakeWhile Edify.isSpace)
    hstart (by rw [htext, hbuffer, List.append_assoc]) hspaces hword hempty
  rw [htext] at hclear
  refine ⟨List.replicate (text.rtakeWhile Edify.isSpace).length 0, ?_, ?_⟩
  · have hsame : count = text.length - 1 := by omega
    rw [hsame, htmp, hclear, ← List.replicate_succ, List.replicate_succ']
    simp only [List.append_assoc, List.singleton_append]
  · rw [List.length_append, List.length_cons, List.length_replicate]
    omega

/-- The first byte of a text, or its terminator. -/
theorem loadByte_head {text : Bytes} (hbuffer : buffer = front ++ (text ++ 0 :: back))
    (pointer : Nat) (hpointer : pointer = front.length) :
    loadByte buffer pointer = .ok (text.head?.getD 0) := by
  cases text with
  | nil => exact loadByte_eq hbuffer (congrArg Nat.cast hpointer)
  | cons byte text => exact loadByte_eq hbuffer (congrArg Nat.cast hpointer)

/-- What becomes of a name and a value. -/
def evaluatePair (theme : Theme) (name value : Bytes) : Theme :=
  if (name.dropWhile Edify.isSpace).head? = some hash then theme
  else evaluateProperty theme (trim name) (trim value)

theorem loadPair_eq {theme : Theme} {name text : Bytes} {value eol : Nat} (hname : 0 ∉ name)
    (htext : 0 ∉ text) (hbuffer : buffer = front ++ (name ++ 0 :: (text ++ 0 :: back)))
    (hvalue : value = front.length + name.length + 1) (heol : eol = value + text.length + 1) :
    ∃ done, loadPair theme buffer front.length value eol =
        .ok (evaluatePair theme name text, done ++ back) ∧ done.length = eol := by
  obtain ⟨front', hskip, hfront', hsplit⟩ := skip_eq Edify.isSpace hname hbuffer rfl
  rw [isSpace_zero_and] at hskip
  have hkey : front'.length = front.length + (name.takeWhile Edify.isSpace).length := by
    rw [hfront', List.length_append]
  have hsum := congrArg List.length (List.takeWhile_append_dropWhile (p := Edify.isSpace)
    (l := name))
  rw [List.length_append] at hsum
  have hfirst := loadByte_head hsplit front'.length rfl
  have hhead : (name.dropWhile Edify.isSpace).head?.getD 0 = hash ↔
      (name.dropWhile Edify.isSpace).head? = some hash := by
    cases (name.dropWhile Edify.isSpace).head? with
    | none => decide
    | some byte => exact (Option.some_inj).symm
  rw [loadPair, bind_eq_of_ok hskip, bind_eq_of_ok hfirst, evaluatePair]
  by_cases hcomment : (name.dropWhile Edify.isSpace).head? = some hash
  · rw [if_pos (hhead.mpr hcomment), if_pos hcomment]
    refine ⟨front ++ (name ++ 0 :: (text ++ [0])), ?_, ?_⟩
    · rw [hbuffer]
      simp only [List.append_assoc, List.cons_append, List.nil_append]
    · simp only [List.length_append, List.length_cons, List.length_nil]
      omega
  rw [if_neg fun h => hcomment (hhead.mp h), if_neg hcomment]
  -- the name
  obtain ⟨zeros, hname', hlength⟩ := clearBack_text (value - 2) hsplit rfl
    (head_dropWhile_isSpace name) (by omega) rfl
  rw [bind_eq_of_ok hname']
  -- the value
  generalize hcut : front' ++ ((name.dropWhile Edify.isSpace).rdropWhile Edify.isSpace ++
    0 :: zeros) = cut
  have hcutLength : value = cut.length := by
    rw [← hcut, List.length_append, hlength]
    omega
  obtain ⟨front'', hskip', hfront'', hsplit'⟩ := skip_eq Edify.isSpace htext rfl hcutLength
  rw [isSpace_zero_and] at hskip'
  rw [bind_eq_of_ok hskip']
  have hstart : front''.length = value + (text.takeWhile Edify.isSpace).length := by
    rw [hfront'', List.length_append, hcutLength]
  have hsum' := congrArg List.length (List.takeWhile_append_dropWhile (p := Edify.isSpace)
    (l := text))
  rw [List.length_append] at hsum'
  obtain ⟨zeros', hvalue', hlength'⟩ := clearBack_text (eol - 2) hsplit' rfl
    (head_dropWhile_isSpace text) (by omega) rfl
  rw [bind_eq_of_ok hvalue']
  generalize hlast : (text.dropWhile Edify.isSpace).rdropWhile Edify.isSpace ++ 0 :: zeros' = last
    at hlength'
  have hnameText : front'' ++ last ++ back = front' ++ (trim name ++
      0 :: (zeros ++ (text.takeWhile Edify.isSpace ++ (last ++ back)))) := by
    rw [hfront'', ← hcut, trim]
    simp only [List.append_assoc, List.cons_append]
  have hvalueText : front'' ++ last ++ back = front'' ++ (trim text ++ 0 :: (zeros' ++ back)) := by
    rw [← hlast, trim]
    simp only [List.append_assoc, List.cons_append]
  rw [cString_at hnameText rfl (notMem_rdropWhile (notMem_dropWhile hname _) _),
    cString_at hvalueText rfl (notMem_rdropWhile (notMem_dropWhile htext _) _)]
  refine ⟨front'' ++ last, rfl, ?_⟩
  rw [List.length_append, hlength']
  omega

theorem evaluateLine_none {line : Bytes} (hline : equalSign ∉ line) (theme : Theme) :
    evaluateLine theme line = theme := by
  rw [evaluateLine, pairOf, if_pos (Or.inl hline)]

/-- The comment sign of a line is in front of its name. -/
theorem evaluateLine_pair {name : Bytes} (hname : equalSign ∉ name) (theme : Theme)
    (text : Bytes) :
    evaluateLine theme (name ++ equalSign :: text) = evaluatePair theme name text := by
  have hall : ∀ byte ∈ name, (decide (byte ≠ equalSign)) = true :=
    fun byte hbyte => decide_eq_true (ne_of_mem_of_not_mem hbyte hname)
  have htake : (name ++ equalSign :: text).takeWhile (· ≠ equalSign) = name := by
    rw [List.takeWhile_append_of_pos hall, List.takeWhile_cons_of_neg (by simp), List.append_nil]
  have hdrop : ((name ++ equalSign :: text).dropWhile (· ≠ equalSign)).drop 1 = text := by
    rw [List.dropWhile_append_of_pos hall, List.dropWhile_cons_of_neg (by simp)]
    rfl
  have hhead : ((name ++ equalSign :: text).dropWhile Edify.isSpace).head? = some hash ↔
      (name.dropWhile Edify.isSpace).head? = some hash := by
    rw [List.dropWhile_append]
    cases name.dropWhile Edify.isSpace with
    | nil =>
        rw [List.isEmpty_nil, if_pos rfl, List.dropWhile_cons_of_neg (by decide)]
        exact iff_of_false (show some equalSign ≠ some hash by decide) nofun
    | cons byte rest => exact Iff.rfl
  have hmem : equalSign ∈ name ++ equalSign :: text :=
    List.mem_append_right _ List.mem_cons_self
  rw [evaluateLine, pairOf, evaluatePair, htake, hdrop]
  by_cases hcomment : (name.dropWhile Edify.isSpace).head? = some hash
  · rw [if_pos (Or.inr (hhead.mpr hcomment)), if_pos hcomment]
  · rw [if_neg, if_neg hcomment]
    rintro (hnot | hother)
    · exact hnot hmem
    · exact hcomment (hhead.mp hother)

/-- A line is replaced by its name and its value, and the loop goes on behind it. -/
theorem loadLine_eq {theme : Theme} {line : Bytes} {eol : Nat} (hline : 0 ∉ line)
    (hbuffer : buffer = front ++ (line ++ newline :: back))
    (heol : eol = front.length + line.length + 1) :
    ∃ done, loadLine theme buffer front.length eol = .ok (evaluateLine theme line, done ++ back) ∧
      done.length = eol := by
  have hstore : storeByte buffer (eol - 1) 0 = .ok (front ++ (line ++ 0 :: back)) := by
    have hplace : (eol : Int) - 1 = (front ++ line).length := by
      rw [List.length_append]
      omega
    have hsplit : buffer = (front ++ line) ++ newline :: back := by
      rw [hbuffer, List.append_assoc]
    rw [storeByte_eq hsplit hplace, List.append_assoc]
  by_cases hequal : equalSign ∈ line
  · obtain ⟨name, text, rfl, hname⟩ := List.eq_append_cons_of_mem hequal
    rw [List.mem_append, List.mem_cons, not_or, not_or] at hline
    obtain ⟨hzero, -, htext⟩ := hline
    have hword : ∀ byte ∈ name, (byte ≠ 0 && byte ≠ equalSign) = true := by
      intro byte hbyte
      rw [decide_eq_true (ne_of_mem_of_not_mem hbyte hzero),
        decide_eq_true (ne_of_mem_of_not_mem hbyte hname)]
      rfl
    have hskip : skipForward (fun byte => byte ≠ 0 && byte ≠ equalSign)
        ((front ++ (name ++ equalSign :: text ++ 0 :: back)).drop front.length) front.length =
          .ok (front ++ name).length := by
      rw [List.drop_left, List.append_assoc, List.cons_append,
        skipForward_eq hword (by decide), List.length_append]
    have hsplit : front ++ (name ++ equalSign :: text ++ 0 :: back) =
        (front ++ name) ++ equalSign :: (text ++ 0 :: back) := by
      simp only [List.append_assoc, List.cons_append]
    rw [List.length_append, List.length_cons] at heol
    obtain ⟨done, hdone, hlength⟩ := @loadPair_eq (front ++ (name ++ 0 :: (text ++ 0 :: back)))
      front back theme name text ((front ++ name).length + 1) eol hzero htext rfl
      (by rw [List.length_append]) (by rw [List.length_append]; omega)
    refine ⟨done, ?_, hlength⟩
    rw [loadLine, bind_eq_of_ok hstore, bind_eq_of_ok hskip, bind_eq_of_ok (loadByte_eq hsplit rfl),
      if_neg (by decide), bind_eq_of_ok (storeByte_eq hsplit rfl 0), evaluateLine_pair hname,
      List.append_assoc]
    exact hdone
  · have hword : ∀ byte ∈ line, (byte ≠ 0 && byte ≠ equalSign) = true := by
      intro byte hbyte
      rw [decide_eq_true (ne_of_mem_of_not_mem hbyte hline),
        decide_eq_true (ne_of_mem_of_not_mem hbyte hequal)]
      rfl
    have hskip : skipForward (fun byte => byte ≠ 0 && byte ≠ equalSign)
        ((front ++ (line ++ 0 :: back)).drop front.length) front.length =
          .ok (front ++ line).length := by
      rw [List.drop_left, skipForward_eq hword (by decide), List.length_append]
    have hsplit : front ++ (line ++ 0 :: back) = (front ++ line) ++ 0 :: back :=
      (List.append_assoc _ _ _).symm
    refine ⟨front ++ (line ++ [0]), ?_, ?_⟩
    · rw [loadLine, bind_eq_of_ok hstore, bind_eq_of_ok hskip,
        bind_eq_of_ok (loadByte_eq hsplit rfl), if_pos rfl, evaluateLine_none hequal]
      simp only [List.append_assoc, List.singleton_append]
    · rw [List.length_append, List.length_append, heol]
      rfl

/-- The loop over the lines evaluates one after the other, but not what follows the last end of
a line. -/
theorem loadLines_eq {theme : Theme} {text : Bytes} {rounds : Nat} (htext : 0 ∉ text)
    (hbuffer : buffer = front ++ (text ++ 0 :: back)) (hrounds : text.length < rounds) :
    loadLines rounds theme buffer front.length =
      .ok ((text.splitOn newline).dropLast.foldl evaluateLine theme) := by
  induction rounds generalizing theme text buffer front with
  | zero => exact absurd hrounds (Nat.not_lt_zero _)
  | succ rounds ih =>
      by_cases hmore : newline ∈ text
      · obtain ⟨line, rest, rfl, hline⟩ := List.eq_append_cons_of_mem hmore
        rw [List.mem_append, List.mem_cons, not_or, not_or] at htext
        obtain ⟨hzero, -, hrest⟩ := htext
        have hword : ∀ byte ∈ line, (byte ≠ 0 && byte ≠ newline) = true := by
          intro byte hbyte
          rw [decide_eq_true (ne_of_mem_of_not_mem hbyte hzero),
            decide_eq_true (ne_of_mem_of_not_mem hbyte hline)]
          rfl
        have hsplit : buffer = front ++ (line ++ newline :: (rest ++ 0 :: back)) := by
          rw [hbuffer]
          simp only [List.append_assoc, List.cons_append]
        have hplace : buffer = (front ++ line) ++ newline :: (rest ++ 0 :: back) := by
          rw [hsplit, List.append_assoc]
        have hskip : skipForward (fun byte => byte ≠ 0 && byte ≠ newline)
            (buffer.drop front.length) front.length = .ok (front ++ line).length := by
          rw [drop_front hsplit rfl, skipForward_eq hword (by decide), List.length_append]
        obtain ⟨done, hdone, hlength⟩ := @loadLine_eq buffer front (rest ++ 0 :: back) theme line
          ((front ++ line).length + 1) hzero hsplit (by rw [List.length_append])
        have hlines : ((line ++ newline :: rest).splitOn newline).dropLast =
            line :: (rest.splitOn newline).dropLast := by
          rw [List.splitOn_append_cons_self_of_not_mem hline,
            List.dropLast_cons_of_ne_nil (List.splitOn_ne_nil newline rest)]
        rw [loadLines, bind_eq_of_ok hskip, bind_eq_of_ok (loadByte_eq hplace rfl),
          if_neg (by decide), bind_eq_of_ok hdone, hlines, List.foldl_cons]
        rw [List.length_append, List.length_cons] at hrounds
        have hnext := @ih (done ++ (rest ++ 0 :: back)) done (evaluateLine theme line) rest hrest
          rfl (by omega)
        rw [hlength] at hnext
        exact hnext
      · have hword : ∀ byte ∈ text, (byte ≠ 0 && byte ≠ newline) = true := by
          intro byte hbyte
          rw [decide_eq_true (ne_of_mem_of_not_mem hbyte htext),
            decide_eq_true (ne_of_mem_of_not_mem hbyte hmore)]
          rfl
        have hplace : buffer = (front ++ text) ++ 0 :: back := by
          rw [hbuffer, List.append_assoc]
        have hskip : skipForward (fun byte => byte ≠ 0 && byte ≠ newline)
            (buffer.drop front.length) front.length = .ok (front ++ text).length := by
          rw [drop_front hbuffer rfl, skipForward_eq hword (by decide), List.length_append]
        rw [loadLines, bind_eq_of_ok hskip, bind_eq_of_ok (loadByte_eq hplace rfl), if_pos rfl,
          List.splitOn_eq_singleton hmore]
        rfl

end Buffer

/-! ## The theme of a file -/

/-- A file is read without a fault, and every colour is what its last line is taken for. -/
theorem loadProperties_eq (contents : Bytes) :
    loadProperties .default (readFile contents) =
      .ok ((readLines contents).foldl evaluateLine .default) := by
  have hzero : 0 ∈ readFile contents :=
    List.mem_append_right _ (List.mem_cons_of_mem _ (List.mem_singleton_self 0))
  obtain ⟨text, back, hdata, htext⟩ := List.eq_append_cons_of_mem hzero
  have hstring : cString (readFile contents) = text := by
    rw [hdata, cString_append fun byte hbyte => ne_of_mem_of_not_mem hbyte htext]
  rw [readLines, hstring, loadProperties]
  refine @loadLines_eq (readFile contents) [] back .default text _ htext hdata ?_
  rw [hdata, List.length_append, List.length_cons]
  omega

/-- After the file is read every colour is that of the last line which sets it. -/
def SetsWhatItSays (contents : Bytes) : Prop :=
  ∃ theme, loadProperties .default (readFile contents) = .ok theme ∧
    ∀ slot, theme.channels slot = colorAfter setting (contents.splitOn newline) slot

/-- The last line that is taken for a colour stands for the colour of the last line that sets
it. -/
def TakesLastSettings (contents : Bytes) : Prop :=
  ∀ slot, colorAfter taken (readLines contents) slot =
    colorAfter setting (contents.splitOn newline) slot

theorem loadProperties_colors_iff (contents : Bytes) :
    SetsWhatItSays contents ↔ TakesLastSettings contents := by
  have hcolors := (evaluateLines_colors (readLines contents)).2
  constructor
  · rintro ⟨theme, hrun, htheme⟩ slot
    rw [loadProperties_eq] at hrun
    cases hrun
    rw [← htheme, hcolors]
  · intro htakes
    exact ⟨_, loadProperties_eq contents, fun slot => (hcolors slot).trans (htakes slot)⟩

/-- A digit behind `9`, a sign in the number of a terminal colour and a zero byte. -/
theorem odd_lines_taken :
    ¬SetsWhatItSays (ascii "color32.menu=#0000000:") ∧
      ¬SetsWhatItSays (ascii "color24.console.termclr+31=#000000") ∧
      ¬SetsWhatItSays (ascii "name=" ++ [0, newline] ++ ascii "color32.menu=#00000000") := by
  refine ⟨?_, ?_, ?_⟩
  · rintro ⟨theme, hrun, htheme⟩
    rw [loadProperties_eq] at hrun
    cases hrun
    exact absurd (htheme .menu) (by decide)
  · rintro ⟨theme, hrun, htheme⟩
    rw [loadProperties_eq] at hrun
    cases hrun
    exact absurd (htheme (.term ⟨31, by decide⟩)) (by decide)
  · rintro ⟨theme, hrun, htheme⟩
    rw [loadProperties_eq] at hrun
    cases hrun
    exact absurd (htheme .menu) (by decide)

theorem readLines_eq {contents : Bytes} (hzero : 0 ∉ contents) :
    readLines contents = contents.splitOn newline := by
  have hstring : cString (readFile contents) = contents ++ [newline] := by
    have hclean : ∀ c ∈ contents ++ [newline], c ≠ 0 := by
      intro c hc
      rcases List.mem_append.mp hc with hc | hc
      · exact ne_of_mem_of_not_mem hc hzero
      · rw [List.mem_singleton.mp hc]
        decide
    have hfile : readFile contents = (contents ++ [newline]) ++ 0 :: [] := by
      rw [readFile, List.append_assoc]
      rfl
    rw [hfile, cString_append hclean]
  rw [readLines, hstring, List.splitOn_append_cons_self, List.splitOn_nil, List.dropLast_concat]

/-- A file without zero bytes in which only the lines that set a colour are taken for it. -/
theorem takesLastSettings_of_exact {contents : Bytes} (hzero : 0 ∉ contents)
    (hexact : ∀ line ∈ contents.splitOn newline, ∀ slot, taken line slot = setting line slot) :
    TakesLastSettings contents := by
  have hlast : ∀ slot, lastColor taken (contents.splitOn newline) slot =
      lastColor setting (contents.splitOn newline) slot := by
    intro slot
    generalize contents.splitOn newline = lines at hexact ⊢
    induction lines using List.reverseRecOn with
    | nil => rfl
    | append_singleton lines line ih =>
        rw [lastColor_concat, lastColor_concat,
          hexact line (List.mem_append_right _ (List.mem_singleton_self line)),
          ih fun other hother => hexact other (List.mem_append_left _ hother)]
  intro slot
  rw [readLines_eq hzero]
  cases slot <;> simp only [colorAfter, hlast]

end OpenRecovery.ThemeFile
