import OpenRecovery.Updater
import OpenRecovery.ArgsRestart
import Mathlib

/-!
# Text from the updater to the recovery

The updater splits a text into lines and writes a command for each of them to a pipe.  The
command loop of `try_update_binary` cuts what it reads from the pipe into pieces, takes each
piece for a command and hands the text to `ui_print` as a format.
-/

namespace OpenRecovery.Edify

open Effects

/-! ## The writer -/

/-- What a program writes to the command pipe, up to its first request of another kind. -/
def pipeWrites {α : Type} : Prog (EdifyOp UpdaterOp) (EdifyOp.Reply UpdaterOp.Reply) α → Bytes
  | .pure _ => []
  | .request (.other (.cmdPipe text)) next => text ++ pipeWrites (next ())
  | .request _ _ => []

/-- An argument that evaluates to a text. -/
def stringArg (text : Bytes) : UpdaterArg where
  evaluateValue := stringValue text
  start := 0
  stop := 0

/-- What `UIPrintFn` writes for some arguments. -/
def uiPrintWrites (state : State) (texts : List Bytes) : Bytes :=
  pipeWrites ((uiPrintFn (ascii "ui_print") (texts.map stringArg)).run state).run

/-! ## The reader -/

/-- Size of the buffer of the command loop. -/
def commandBuffer : Nat := 1024

/-- One call of `fgets` on the pipe. -/
def fgetsCommand (data : Bytes) : Bytes :=
  let window := data.take (commandBuffer - 1)
  window.take ((window.takeWhile (· ≠ newline)).length + 1)

/-- The delimiters `" \n"`. -/
def isCommandBlank (byte : UInt8) : Bool :=
  byte = 32 ∨ byte = newline

/-- A command of the loop with the tokens it takes; a missing token is a null pointer. -/
inductive UiCommand where
  | progress (fraction seconds : Option Bytes)
  | setProgress (fraction : Option Bytes)
  | firmware (type filename : Option Bytes)
  | uiPrint (format : Bytes)
  | unknown (command : Bytes)
  deriving DecidableEq

/-- Two more tokens of the buffer. -/
def nextTwo (passed rest : Bytes) : Option Bytes × Option Bytes :=
  match strtok isCommandBlank passed rest with
  | none => (none, none)
  | some (first, passed, rest) =>
      (some first, (strtok isCommandBlank passed rest).map fun found => found.1)

/-- The body of the command loop on one piece. -/
def readCommand (buffer : Bytes) : Option UiCommand :=
  match strtok isCommandBlank [] (buffer ++ [0]) with
  | none => none
  | some (command, passed, rest) =>
      if command = ascii "progress" then
        some (.progress (nextTwo passed rest).1 (nextTwo passed rest).2)
      else if command = ascii "set_progress" then
        some (.setProgress (nextTwo passed rest).1)
      else if command = ascii "firmware" then
        some (.firmware (nextTwo passed rest).1 (nextTwo passed rest).2)
      else if command = ascii "ui_print" then
        match strtok isNewline passed rest with
        | some (str, _, _) => some (.uiPrint str)
        | none => some (.uiPrint (ascii "\n"))
      else some (.unknown command)

/-- The command loop on what is still in the pipe. -/
def readCommands : (fuel : Nat) → (data : Bytes) → List UiCommand
  | 0, _ => []
  | fuel + 1, data =>
      if data = [] then []
      else
        (readCommand (fgetsCommand data)).toList ++
          readCommands fuel (data.drop (fgetsCommand data).length)

def commandLoop (data : Bytes) : List UiCommand :=
  readCommands data.length data

def percent : UInt8 := 37

/-- What `vsnprintf` makes of a format when there are no arguments; nothing if a conversion
would take one. -/
def formatText : Bytes → Option Bytes
  | [] => some []
  | [byte] => if byte = percent then none else some [byte]
  | byte :: next :: rest =>
      if byte = percent then
        if next = percent then (formatText rest).map (percent :: ·) else none
      else (formatText (next :: rest)).map (byte :: ·)

/-- What `ui_print` appends to the log, from its buffer of 2048 bytes. -/
def uiPrint (format : Bytes) : Option Bytes :=
  (formatText format).map (List.take 2047)

/-- What a list of commands prints, if all of them are `ui_print`. -/
def printedText : List UiCommand → Option Bytes
  | [] => some []
  | .uiPrint format :: commands => do
      let text ← uiPrint format
      let more ← printedText commands
      pure (text ++ more)
  | _ :: _ => none

/-! ## What the writer writes -/

/-- The commands for some lines. -/
def commandLines (lines : List Bytes) : Bytes :=
  lines.flatMap (fun line => ascii "ui_print " ++ line ++ [newline]) ++ ascii "ui_print\n"

theorem commandLines_cons (line : Bytes) (lines : List Bytes) :
    commandLines (line :: lines) =
      ascii "ui_print " ++ line ++ [newline] ++ commandLines lines := by
  rw [commandLines, commandLines, List.flatMap_cons, List.append_assoc]

/-- What is done with the result does not matter. -/
theorem pipeWrites_map
    {α β : Type} (program : Prog (EdifyOp UpdaterOp) (EdifyOp.Reply UpdaterOp.Reply) α)
    (rest : α → β) :
    pipeWrites (program >>= fun value => .pure (rest value)) = pipeWrites program := by
  induction program with
  | pure value => rfl
  | request op next ih =>
      cases op with
      | other op =>
          cases op with
          | cmdPipe text => exact congrArg (text ++ ·) (ih ())
          | _ => rfl
      | _ => rfl

theorem printLines_writes (lines : List Bytes) (state : State) (result : Option Value) :
    pipeWrites (((printLines lines >>= fun _ => pure result : Update _).run state).run) =
      commandLines lines := by
  induction lines with
  | nil => exact List.append_nil _
  | cons line lines ih =>
      rw [commandLines_cons, ← ih]
      rfl

theorem readVarArgs_stringArg (texts : List Bytes) (state : State) :
    readVarArgs (texts.map stringArg) state = pure (some texts, state) := by
  rw [readVarArgs]
  induction texts with
  | nil => rfl
  | cons text texts ih =>
      rw [List.map_cons, List.length_cons, readCount]
      change (unlessNull (readCount evaluate (texts.map stringArg).length (texts.map stringArg))
        fun values => pure (some (text :: values)) : UpdaterEval _) state = _
      rw [unlessNull]
      change (readCount evaluate (texts.map stringArg).length (texts.map stringArg) state >>=
        fun found => _) = _
      rw [ih]
      rfl

/-- The updater writes a command for every line and one more. -/
theorem uiPrintWrites_eq (state : State) (texts : List Bytes) :
    uiPrintWrites state texts =
      commandLines (strtokLoop isNewline texts.flatten.length [] texts.flatten).1 := by
  rw [uiPrintWrites, uiPrintFn, unlessNull]
  change pipeWrites (readVarArgs (texts.map stringArg) state >>= fun found => _).run = _
  rw [readVarArgs_stringArg]
  have hact : ∀ program : Update (Option Value),
      pipeWrites ((act program).run state).run = pipeWrites (program.run state).run :=
    fun program => pipeWrites_map _ fun result : Except Stuck _ => result.mapError Fault.stuck
  exact (hact _).trans (printLines_writes _ state _)

section Tokens

variable {isDelim : UInt8 → Bool}

/-- A text without delimiters is a token or empty. -/
theorem strtok_clean {text : Bytes} (htext : ∀ byte ∈ text, isDelim byte = false ∧ byte ≠ 0)
    (passed : Bytes) :
    strtok isDelim passed text = if text = [] then none else some (text, passed ++ text, []) := by
  have hskip : text.takeWhile isDelim = [] ∧ text.dropWhile isDelim = text := by
    cases text with
    | nil => exact ⟨rfl, rfl⟩
    | cons byte text =>
        have hbyte := (htext byte (List.mem_cons_self ..)).1
        rw [List.takeWhile_cons_of_neg (by simp [hbyte]), List.dropWhile_cons_of_neg (by simp [hbyte])]
        exact ⟨rfl, rfl⟩
  have htoken : text.takeWhile (fun byte => !isDelim byte && byte != 0) = text := by
    rw [List.takeWhile_eq_self_iff]
    intro byte hbyte
    simp [htext byte hbyte]
  unfold strtok
  simp only [hskip.1, hskip.2, htoken, List.drop_length, List.nil_append]

theorem takeWhile_congr_mem {first second : UInt8 → Bool} {text : Bytes}
    (hsame : ∀ byte ∈ text, first byte = second byte) :
    text.takeWhile first = text.takeWhile second := by
  induction text with
  | nil => rfl
  | cons byte text ih =>
      rw [List.forall_mem_cons] at hsame
      rw [List.takeWhile_cons, List.takeWhile_cons, hsame.1, ih hsame.2]

/-- What `strtok` finds in a text without its end. -/
theorem strtok_text {text : Bytes} (htext : ∀ byte ∈ text, byte ≠ 0) (passed : Bytes) :
    (∀ byte ∈ text, isDelim byte = true) ∧ strtok isDelim passed text = none ∨
      ∃ blanks token rest after, (∀ byte ∈ blanks, isDelim byte = true) ∧
        (∀ byte ∈ token, isDelim byte = false) ∧ token ≠ [] ∧
        (∀ byte ∈ rest.head?, isDelim byte = true) ∧ text = blanks ++ (token ++ rest) ∧
        strtok isDelim passed text = some (token, after, rest.drop 1) := by
  have hblanks : ∀ byte ∈ text.takeWhile isDelim, isDelim byte = true :=
    fun byte hbyte => List.mem_takeWhile_imp hbyte
  have hsplit := List.takeWhile_append_dropWhile (p := isDelim) (l := text)
  have hhead := List.head?_dropWhile_not isDelim text
  unfold strtok
  generalize text.takeWhile isDelim = blanks at hblanks hsplit ⊢
  generalize text.dropWhile isDelim = start at hsplit hhead ⊢
  have hstart : ∀ byte ∈ start, byte ≠ 0 := by
    intro byte hbyte
    exact htext byte (by rw [← hsplit]; exact List.mem_append_right _ hbyte)
  have htoken : start.takeWhile (fun byte => !isDelim byte && byte != 0) =
      start.takeWhile fun byte => !isDelim byte :=
    takeWhile_congr_mem fun byte hbyte => by simp [hstart byte hbyte]
  have hclean : ∀ byte ∈ start.takeWhile (fun byte => !isDelim byte), isDelim byte = false :=
    fun byte hbyte => by simpa using List.mem_takeWhile_imp hbyte
  have hsplit' := List.takeWhile_append_dropWhile (p := fun byte => !isDelim byte) (l := start)
  have hstop := List.head?_dropWhile_not (fun byte => !isDelim byte) start
  simp only [htoken]
  cases hnil : start with
  | nil =>
      refine .inl ⟨?_, by simp⟩
      rw [← hsplit, hnil, List.append_nil]
      exact hblanks
  | cons byte tail =>
      have hbyte : isDelim byte = false := by
        rw [hnil] at hhead
        simpa using hhead
      have hsome : start.takeWhile (fun byte => !isDelim byte) ≠ [] := by
        rw [hnil, List.takeWhile_cons_of_pos (by simp [hbyte])]
        exact List.cons_ne_nil _ _
      rw [← hnil]
      generalize start.takeWhile (fun byte => !isDelim byte) = token at hclean hsplit' hsome ⊢
      generalize start.dropWhile (fun byte => !isDelim byte) = rest at hsplit' hstop
      have hdrop : start.drop token.length = rest := by rw [← hsplit', List.drop_left]
      rw [if_neg hsome, hdrop]
      cases rest with
      | nil =>
          refine .inr ⟨blanks, token, [], _, hblanks, hclean, hsome, nofun, ?_, rfl⟩
          rw [hsplit', hsplit]
      | cons stop rest =>
          have hdelim : isDelim stop = true := by simpa using hstop
          refine .inr ⟨blanks, token, stop :: rest, _, hblanks, hclean, hsome, ?_, ?_, if_pos hdelim⟩
          · rintro byte ⟨⟩
            exact hdelim
          · rw [hsplit', hsplit]

/-- The bytes of the tokens are those that are no delimiters. -/
theorem strtokLoop_flatten {text : Bytes} (htext : ∀ byte ∈ text, byte ≠ 0) {count : Nat}
    (hcount : text.length ≤ count) (passed : Bytes) :
    (strtokLoop isDelim count passed text).1.flatten =
      text.filter fun byte => !isDelim byte := by
  induction count generalizing passed text with
  | zero =>
      obtain rfl : text = [] := List.eq_nil_of_length_eq_zero (Nat.le_zero.mp hcount)
      rfl
  | succ count ih =>
      rw [strtokLoop]
      rcases strtok_text htext passed with ⟨hall, hnone⟩ |
        ⟨blanks, token, rest, after, hblanks, hclean, hsome, hhead, rfl, hfound⟩
      · rw [hnone]
        exact (List.filter_eq_nil_iff.mpr fun byte hbyte => by simp [hall byte hbyte]).symm
      · have hlength : 0 < token.length := List.length_pos_of_ne_nil hsome
        rw [List.length_append, List.length_append] at hcount
        have hrest : (rest.drop 1).length ≤ count := by
          rw [List.length_drop]
          omega
        have hih := ih (fun byte hbyte => htext byte (List.mem_append_right _
          (List.mem_append_right _ (List.mem_of_mem_drop hbyte)))) hrest after
        have hdrop : (rest.drop 1).filter (fun byte => !isDelim byte) =
            rest.filter fun byte => !isDelim byte := by
          cases rest with
          | nil => rfl
          | cons stop rest =>
              have hstop : isDelim stop = true := hhead stop rfl
              rw [List.drop_one, List.tail_cons, List.filter_cons_of_neg (by simp [hstop])]
        rw [hfound, List.filter_append, List.filter_append, ← hdrop, ← hih,
          List.filter_eq_nil_iff.mpr (fun byte hbyte => by simp [hblanks byte hbyte]),
          List.filter_eq_self.mpr (fun byte hbyte => by simp [hclean byte hbyte])]
        rfl

theorem strtokLoop_isToken {text : Bytes} (htext : ∀ byte ∈ text, byte ≠ 0) (count : Nat)
    (passed : Bytes) :
    ∀ token ∈ (strtokLoop isDelim count passed text).1, IsToken isDelim token := by
  induction count generalizing passed text with
  | zero => exact List.forall_mem_nil _
  | succ count ih =>
      rw [strtokLoop]
      rcases strtok_text htext passed with ⟨-, hnone⟩ |
        ⟨blanks, token, rest, after, -, hclean, hsome, -, rfl, hfound⟩
      · rw [hnone]
        exact List.forall_mem_nil _
      · rw [hfound]
        refine List.forall_mem_cons.mpr ⟨⟨hsome, fun byte hbyte => ⟨hclean byte hbyte, ?_⟩⟩, ?_⟩
        · exact htext byte (List.mem_append_right _ (List.mem_append_left _ hbyte))
        · refine ih (fun byte hbyte => htext byte ?_) after
          exact List.mem_append_right _ (List.mem_append_right _ (List.mem_of_mem_drop hbyte))

end Tokens

/-! ## Formats -/

theorem formatText_cons {byte : UInt8} (hbyte : byte ≠ percent) (rest : Bytes) :
    formatText (byte :: rest) = (formatText rest).map (byte :: ·) := by
  cases rest with
  | nil => simp [formatText, hbyte]
  | cons next rest => rw [formatText, if_neg hbyte]

theorem formatText_self {format : Bytes} (hformat : percent ∉ format) :
    formatText format = some format := by
  induction format with
  | nil => rfl
  | cons byte format ih =>
      rw [List.mem_cons, not_or] at hformat
      rw [formatText_cons (Ne.symm hformat.1), ih hformat.2, Option.map_some]

/-- Formatting makes a text shorter if there is a percent sign in it. -/
theorem formatText_length {format text : Bytes} (hformat : formatText format = some text) :
    text.length ≤ format.length ∧ (text.length = format.length → percent ∉ format) := by
  induction hlength : format.length using Nat.strong_induction_on generalizing format text with
  | _ length ih =>
      cases format with
      | nil =>
          cases hformat
          exact ⟨Nat.zero_le _, fun _ => List.not_mem_nil⟩
      | cons byte rest =>
          rw [List.length_cons] at hlength
          by_cases hbyte : byte = percent
          · subst hbyte
            cases rest with
            | nil => cases hformat
            | cons next rest =>
                rw [formatText, if_pos rfl] at hformat
                by_cases hnext : next = percent
                · rw [if_pos hnext] at hformat
                  obtain ⟨more, hmore, rfl⟩ := Option.map_eq_some_iff.mp hformat
                  rw [List.length_cons] at hlength
                  have hrest := (ih _ (by omega) hmore rfl).1
                  rw [List.length_cons]
                  exact ⟨by omega, fun h => by omega⟩
                · rw [if_neg hnext] at hformat
                  cases hformat
          · rw [formatText_cons hbyte] at hformat
            obtain ⟨more, hmore, rfl⟩ := Option.map_eq_some_iff.mp hformat
            obtain ⟨hle, hclean⟩ := ih _ (by omega) hmore rfl
            rw [List.length_cons, List.mem_cons, not_or]
            exact ⟨by omega, fun h => ⟨Ne.symm hbyte, hclean (by omega)⟩⟩

theorem uiPrint_length {format text : Bytes} (hprint : uiPrint format = some text) :
    text.length ≤ format.length ∧ (text.length = format.length → percent ∉ format) := by
  obtain ⟨whole, hwhole, rfl⟩ := Option.map_eq_some_iff.mp hprint
  obtain ⟨hle, hclean⟩ := formatText_length hwhole
  rw [List.length_take]
  exact ⟨by omega, fun h => hclean (by omega)⟩

theorem uiPrint_self {format : Bytes} (hformat : percent ∉ format) (hlength : format.length ≤ 2047) :
    uiPrint format = some format := by
  rw [uiPrint, formatText_self hformat, Option.map_some, List.take_of_length_le hlength]

theorem printedText_append (first second : List UiCommand) :
    printedText (first ++ second) = (printedText first).bind fun text =>
      (printedText second).map fun more => text ++ more := by
  induction first with
  | nil =>
      rw [List.nil_append, printedText, Option.bind_some]
      exact Option.map_id'.symm
  | cons command first ih =>
      cases command with
      | uiPrint format =>
          rw [List.cons_append, printedText, printedText, ih]
          cases uiPrint format with
          | none => rfl
          | some text =>
              cases printedText first with
              | none => rfl
              | some more =>
                  cases printedText second with
                  | none => rfl
                  | some last => exact congrArg some (List.append_assoc ..).symm
      | _ => rfl

/-! ## One piece -/

theorem isCommandBlank_zero : isCommandBlank 0 = false := by decide

/-- Only a print command makes the loop print. -/
theorem readCommand_print {piece command passed rest format : Bytes}
    (hfound : strtok isCommandBlank [] (piece ++ [0]) = some (command, passed, rest))
    (hread : readCommand piece = some (.uiPrint format)) :
    command = ascii "ui_print" ∧
      format = ((strtok isNewline passed rest).map fun found => found.1).getD (ascii "\n") := by
  rw [readCommand, hfound] at hread
  simp only at hread
  by_cases hprint : command = ascii "ui_print"
  · refine ⟨hprint, ?_⟩
    rw [if_neg (by rw [hprint]; decide), if_neg (by rw [hprint]; decide),
      if_neg (by rw [hprint]; decide), if_pos hprint] at hread
    cases hstr : strtok isNewline passed rest with
    | none =>
        rw [hstr] at hread
        cases hread
        rfl
    | some found =>
        rw [hstr] at hread
        cases hread
        rfl
  · rw [if_neg hprint] at hread
    split_ifs at hread <;> cases hread

/-- A token is not longer than the text it is taken from. -/
theorem strtok_length {isDelim : UInt8 → Bool} {text : Bytes} (hzero : isDelim 0 = false)
    (htext : ∀ byte ∈ text, byte ≠ 0) (passed tail : Bytes) :
    (((strtok isDelim passed (text ++ 0 :: tail)).map fun found => found.1).getD []).length ≤
      text.length := by
  rcases strtok_cases hzero htext passed tail with
    ⟨-, hnone⟩ | ⟨blanks, word, -, -, ⟨rfl, hfound⟩ | ⟨delim, rest, rfl, -, hfound⟩⟩
  · rw [hnone]
    exact Nat.zero_le _
  · rw [hfound, List.length_append]
    exact Nat.le_add_left _ _
  · rw [hfound, List.length_append, List.length_append]
    change word.length ≤ _
    omega

/-- A piece that is taken for a print command is longer than what it prints. -/
theorem readCommand_uiPrint {piece format : Bytes} (hpiece : ∀ byte ∈ piece, byte ≠ 0)
    (hread : readCommand piece = some (.uiPrint format)) : format.length + 7 ≤ piece.length := by
  have hend : ∀ (text passed : Bytes), (∀ byte ∈ text, byte ≠ 0) →
      (((strtok isNewline passed (text ++ [0])).map fun found => found.1).getD
        (ascii "\n")).length ≤ text.length + 1 := by
    intro text passed htext
    have hlength := strtok_length isNewline_zero htext passed []
    cases hstr : strtok isNewline passed (text ++ [0]) with
    | none => exact Nat.le_add_left _ _
    | some found =>
        rw [hstr] at hlength
        exact Nat.le_succ_of_le hlength
  have hword : (ascii "ui_print").length = 8 := by decide
  rcases strtok_cases isCommandBlank_zero hpiece [] [] with
    ⟨-, hnone⟩ | ⟨blanks, word, -, -, ⟨rfl, hfound⟩ | ⟨delim, rest, rfl, -, hfound⟩⟩
  · rw [readCommand, hnone] at hread
    cases hread
  · obtain ⟨rfl, rfl⟩ := readCommand_print hfound hread
    have hformat := hend [] ([] ++ (blanks ++ ascii "ui_print")) (List.forall_mem_nil _)
    rw [List.nil_append ([0] : Bytes), List.length_nil] at hformat
    rw [List.length_append, hword]
    omega
  · obtain ⟨rfl, rfl⟩ := readCommand_print hfound hread
    have hformat := hend rest ([] ++ (blanks ++ (ascii "ui_print" ++ [0])))
      fun byte hbyte => hpiece byte (List.mem_append_right _ (List.mem_append_right _
        (List.mem_cons_of_mem _ hbyte)))
    rw [List.length_append, List.length_append, List.length_cons, hword]
    omega

/-! ## The loop -/

theorem fgetsCommand_length {data : Bytes} (hdata : data ≠ []) :
    0 < (fgetsCommand data).length := by
  have hlength : 0 < data.length := List.length_pos_of_ne_nil hdata
  rw [fgetsCommand, List.length_take, List.length_take, commandBuffer]
  omega

/-- The loop does not need more rounds than there are bytes. -/
theorem readCommands_eq_commandLoop {fuel : Nat} {data : Bytes} (hfuel : data.length ≤ fuel) :
    readCommands fuel data = commandLoop data := by
  rw [commandLoop]
  induction hlength : data.length using Nat.strong_induction_on generalizing fuel data with
  | _ length ih =>
      cases fuel with
      | zero =>
          obtain rfl : length = 0 := by omega
          rfl
      | succ fuel =>
          cases length with
          | zero =>
              rw [List.eq_nil_of_length_eq_zero hlength]
              rfl
          | succ length =>
              rw [readCommands, readCommands]
              by_cases hnil : data = []
              · rw [if_pos hnil, if_pos hnil]
              · have hpos := fgetsCommand_length hnil
                have hdrop : (data.drop (fgetsCommand data).length).length ≤ length := by
                  rw [List.length_drop]
                  omega
                rw [if_neg hnil, if_neg hnil, ih _ (by omega) (by omega) rfl]
                exact congrArg (_ ++ ·) (ih _ (by omega) hdrop rfl).symm

theorem commandLoop_step {data : Bytes} (hdata : data ≠ []) :
    commandLoop data =
      (readCommand (fgetsCommand data)).toList ++
        commandLoop (data.drop (fgetsCommand data).length) := by
  have hpos := fgetsCommand_length hdata
  have hdrop : (data.drop (fgetsCommand data).length).length + 1 ≤ data.length := by
    have hlength : 0 < data.length := List.length_pos_of_ne_nil hdata
    rw [List.length_drop]
    omega
  rw [commandLoop]
  cases hlength : data.length with
  | zero => exact absurd (List.eq_nil_of_length_eq_zero hlength) hdata
  | succ length =>
      rw [readCommands, if_neg hdata, readCommands_eq_commandLoop (by omega)]

/-- A piece ends with its line or when the buffer is full. -/
theorem fgetsCommand_line {line data : Bytes} (hline : newline ∉ line) :
    fgetsCommand (line ++ newline :: data) =
      if line.length < commandBuffer - 1 then line ++ [newline]
      else line.take (commandBuffer - 1) := by
  have hclean : ∀ (text : Bytes), newline ∉ text → text.takeWhile (· ≠ newline) = text := by
    intro text htext
    rw [List.takeWhile_eq_self_iff]
    intro byte hbyte
    simpa using ne_of_mem_of_not_mem hbyte htext
  have hsplit : ∀ (text rest : Bytes), newline ∉ text →
      ((text ++ newline :: rest).takeWhile (· ≠ newline)) = text := by
    intro text rest htext
    rw [List.takeWhile_append_of_pos, List.takeWhile_cons_of_neg (by simp), List.append_nil]
    intro byte hbyte
    simpa using ne_of_mem_of_not_mem hbyte htext
  by_cases hshort : line.length < commandBuffer - 1
  · obtain ⟨more, hmore⟩ : ∃ more, commandBuffer - 1 - line.length = more + 1 :=
      ⟨_, (Nat.succ_pred_eq_of_pos (by omega)).symm⟩
    have hwindow : (line ++ newline :: data).take (commandBuffer - 1) =
        line ++ newline :: data.take more := by
      rw [List.take_append, List.take_of_length_le (Nat.le_of_lt hshort), hmore,
        List.take_succ_cons]
    rw [if_pos hshort]
    simp only [fgetsCommand, hwindow, hsplit line _ hline]
    rw [List.append_cons, ← List.length_singleton, ← List.length_append, List.take_left]
  · have hwindow : (line ++ newline :: data).take (commandBuffer - 1) =
        line.take (commandBuffer - 1) := List.take_append_of_le_length (by omega)
    have htake : newline ∉ line.take (commandBuffer - 1) :=
      fun hmem => hline (List.mem_of_mem_take hmem)
    rw [if_neg hshort]
    simp only [fgetsCommand, hwindow, hclean _ htake]
    exact List.take_of_length_le (Nat.le_succ _)

/-- The pieces after the first one of a line print less than they hold. -/
theorem commandLoop_rest {line : Bytes} (hzero : ∀ byte ∈ line, byte ≠ 0)
    (hline : newline ∉ line) (data : Bytes) :
    ∃ commands, commandLoop (line ++ newline :: data) = commands ++ commandLoop data ∧
      ∀ text ∈ printedText commands,
        text.length ≤ line.length ∧ (text.length = line.length → line = []) := by
  have hshorter : ∀ piece : Bytes, (∀ byte ∈ piece, byte ≠ 0) →
      ∀ text ∈ printedText (readCommand piece).toList, text = [] ∨ text.length + 7 ≤ piece.length := by
    intro piece hpiece text htext
    cases hread : readCommand piece with
    | none =>
        rw [hread] at htext
        cases htext
        exact .inl rfl
    | some command =>
        rw [hread] at htext
        cases command with
        | uiPrint format =>
            have hformat := readCommand_uiPrint hpiece hread
            cases hprint : uiPrint format with
            | none =>
                rw [Option.toList_some, printedText, hprint] at htext
                cases htext
            | some printed =>
                rw [Option.toList_some, printedText, hprint] at htext
                cases htext
                have hlength := (uiPrint_length hprint).1
                rw [List.append_nil]
                exact .inr (by omega)
        | _ => cases htext
  induction hlength : line.length using Nat.strong_induction_on generalizing line with
  | _ length ih =>
      have hstep := commandLoop_step (show line ++ newline :: data ≠ [] by simp)
      rw [fgetsCommand_line hline] at hstep
      by_cases hshort : line.length < commandBuffer - 1
      · have hpiece : ∀ byte ∈ line ++ [newline], byte ≠ 0 := by
          intro byte hbyte
          rcases List.mem_append.mp hbyte with hmem | hmem
          · exact hzero byte hmem
          · rw [List.mem_singleton.mp hmem]
            decide
        rw [if_pos hshort, List.append_cons, List.drop_left] at hstep
        refine ⟨_, by rw [List.append_cons, hstep], fun text htext => ?_⟩
        rcases hshorter _ hpiece text htext with rfl | hless
        · exact ⟨Nat.zero_le _, fun h => List.eq_nil_of_length_eq_zero (hlength.trans h.symm)⟩
        · rw [List.length_append, List.length_singleton] at hless
          exact ⟨by omega, fun h => by omega⟩
      · have htake : (line.take (commandBuffer - 1)).length = commandBuffer - 1 := by
          rw [List.length_take]
          omega
        have hsize : commandBuffer - 1 = 1023 := rfl
        rw [if_neg hshort, htake, List.drop_append_of_le_length (by omega)] at hstep
        have hdrop : (line.drop (commandBuffer - 1)).length < length := by
          rw [List.length_drop]
          omega
        obtain ⟨commands, hcommands, hprinted⟩ := ih _ hdrop
          (fun byte hbyte => hzero byte (List.mem_of_mem_drop hbyte))
          (fun hmem => hline (List.mem_of_mem_drop hmem)) rfl
        rw [hcommands, ← List.append_assoc] at hstep
        refine ⟨_, hstep, fun text htext => ?_⟩
        rw [printedText_append] at htext
        obtain ⟨first, hfirst, hrest⟩ := Option.bind_eq_some_iff.mp htext
        obtain ⟨more, hmore, rfl⟩ := Option.map_eq_some_iff.mp hrest
        have hmore := (hprinted more hmore).1
        rw [List.length_drop] at hmore
        rw [List.length_append]
        rcases hshorter _ (fun byte hbyte => hzero byte (List.mem_of_mem_take hbyte)) first hfirst with
          rfl | hless
        · rw [List.length_nil]
          exact ⟨by omega, fun h => by omega⟩
        · rw [htake] at hless
          exact ⟨by omega, fun h => by omega⟩

theorem isToken_uiPrint : IsToken isCommandBlank (ascii "ui_print") where
  nonempty := by decide
  clean := forall_mem_of_all (by decide)

/-- The first piece of a line prints the text in it. -/
theorem readCommand_line {text ending : Bytes} (htext : IsToken isNewline text)
    (hending : ending = [] ∨ ending = [newline]) :
    readCommand (ascii "ui_print " ++ text ++ ending) = some (.uiPrint text) := by
  have hbuffer : ascii "ui_print " ++ text ++ ending ++ [0] =
      ascii "ui_print" ++ 32 :: (text ++ ending ++ [0]) := by
    have hword : ascii "ui_print " = ascii "ui_print" ++ [32] := by decide
    rw [hword]
    simp only [List.append_assoc, List.nil_append, List.cons_append]
  have hcommand : strtok isCommandBlank [] (ascii "ui_print " ++ text ++ ending ++ [0]) =
      some (ascii "ui_print", [] ++ (ascii "ui_print" ++ [0]), text ++ ending ++ [0]) := by
    rw [hbuffer]
    exact isToken_uiPrint.strtok_delim (by decide) _ _
  have hstr : ∃ passed rest, strtok isNewline ([] ++ (ascii "ui_print" ++ [0]))
      (text ++ ending ++ [0]) = some (text, passed, rest) := by
    rcases hending with rfl | rfl
    · rw [List.append_nil]
      exact ⟨_, _, htext.strtok_end isNewline_zero _ []⟩
    · rw [List.append_assoc]
      exact ⟨_, _, htext.strtok_delim (by decide) _ [0]⟩
  obtain ⟨passed, rest, hstr⟩ := hstr
  rw [readCommand, hcommand]
  simp only
  rw [if_neg (by decide), if_neg (by decide), if_neg (by decide), if_pos trivial, hstr]

/-- The text of a line that fits into the buffer after the command. -/
def lineRoom : Nat := 1014

theorem newline_notMem {text : Bytes} (htext : IsToken isNewline text) :
    newline ∉ text := by
  intro hmem
  have hclean := (htext.clean newline hmem).1
  rw [show isNewline newline = true by decide] at hclean
  cases hclean

theorem isToken_take {text : Bytes} (htext : IsToken isNewline text) {count : Nat}
    (hcount : 0 < count) : IsToken isNewline (text.take count) where
  nonempty := by
    intro hnil
    rcases List.take_eq_nil_iff.mp hnil with rfl | hempty
    · exact Nat.lt_irrefl 0 hcount
    · exact htext.nonempty hempty
  clean := fun byte hbyte => htext.clean byte (List.mem_of_mem_take hbyte)

theorem uiPrintWord_length : (ascii "ui_print ").length = 9 := by decide

/-- What the loop does with the command for a line. -/
theorem commandLoop_line {line : Bytes} (hline : IsToken isNewline line) (data : Bytes) :
    commandLoop (ascii "ui_print " ++ line ++ [newline] ++ data) =
      .uiPrint (line.take lineRoom) ::
        (if line.length < lineRoom then commandLoop data
        else commandLoop (line.drop lineRoom ++ newline :: data)) := by
  have hclean : newline ∉ ascii "ui_print " ++ line := by
    rw [List.mem_append, not_or]
    exact ⟨by decide, newline_notMem hline⟩
  have hstep := commandLoop_step
    (show ascii "ui_print " ++ line ++ newline :: data ≠ [] by simp)
  have hlength : (ascii "ui_print " ++ line).length = 9 + line.length := by
    rw [List.length_append, uiPrintWord_length]
  rw [fgetsCommand_line hclean, hlength] at hstep
  rw [List.append_assoc (ascii "ui_print " ++ line), List.singleton_append]
  have hsize : commandBuffer - 1 = 1023 := rfl
  have hroom : lineRoom = 1014 := rfl
  by_cases hshort : line.length < lineRoom
  · rw [if_pos (by omega), readCommand_line hline (.inr rfl), List.append_cons _ newline data,
      List.drop_left] at hstep
    rw [if_pos hshort, List.append_cons _ newline data, hstep, List.take_of_length_le (by omega)]
    rfl
  · have htake : (ascii "ui_print " ++ line).take (commandBuffer - 1) =
        ascii "ui_print " ++ line.take lineRoom ++ [] := by
      rw [List.append_nil, List.take_append, uiPrintWord_length,
        List.take_of_length_le (by rw [uiPrintWord_length]; decide)]
      rfl
    have hdrop : (ascii "ui_print " ++ line ++ newline :: data).drop
        (ascii "ui_print " ++ line.take lineRoom ++ []).length =
          line.drop lineRoom ++ newline :: data := by
      have hpiece : (ascii "ui_print " ++ line.take lineRoom ++ []).length =
          (ascii "ui_print ").length + lineRoom := by
        rw [List.append_nil, List.length_append, List.length_take]
        omega
      rw [hpiece, List.append_assoc, List.drop_append, Nat.add_sub_cancel_left,
        List.drop_of_length_le (Nat.le_add_right _ _), List.nil_append,
        List.drop_append_of_le_length (by omega)]
    rw [if_neg (by omega), htake, hdrop,
      readCommand_line (isToken_take hline (by decide)) (.inl rfl)] at hstep
    rw [if_neg hshort, hstep]
    rfl

theorem commandLoop_end : commandLoop (ascii "ui_print\n") = [.uiPrint (ascii "\n")] := by
  decide

theorem printedText_cons (format : Bytes) (commands : List UiCommand) :
    printedText (.uiPrint format :: commands) = (uiPrint format).bind fun text =>
      (printedText commands).map fun more => text ++ more := by
  rw [printedText]
  cases uiPrint format with
  | none => rfl
  | some text =>
      cases printedText commands with
      | none => rfl
      | some more => rfl

theorem printedText_end : printedText (commandLoop (commandLines [])) = some [newline] := by
  rw [commandLines, List.flatMap_nil, List.nil_append, commandLoop_end]
  decide

/-- Lines that fit and are no formats are printed one after the other. -/
theorem printedText_lines {lines : List Bytes} (hlines : ∀ line ∈ lines, IsToken isNewline line)
    (hfit : ∀ line ∈ lines, line.length ≤ lineRoom ∧ percent ∉ line) :
    printedText (commandLoop (commandLines lines)) = some (lines.flatten ++ [newline]) := by
  induction lines with
  | nil => exact printedText_end
  | cons line lines ih =>
      rw [List.forall_mem_cons] at hlines hfit
      have hih := ih hlines.2 hfit.2
      have hroom : lineRoom = 1014 := rfl
      have hrest : (if line.length < lineRoom then commandLoop (commandLines lines)
          else commandLoop (line.drop lineRoom ++ newline :: commandLines lines)) =
            commandLoop (commandLines lines) := by
        by_cases hshort : line.length < lineRoom
        · rw [if_pos hshort]
        · have hblank : fgetsCommand (newline :: commandLines lines) = [newline] :=
            fgetsCommand_line (List.not_mem_nil : newline ∉ [])
          rw [if_neg hshort, List.drop_of_length_le hfit.1.1, List.nil_append,
            commandLoop_step (List.cons_ne_nil _ _), hblank]
          rfl
      rw [commandLines_cons, commandLoop_line hlines.1, hrest, printedText_cons, hih,
        List.take_of_length_le hfit.1.1,
        uiPrint_self hfit.1.2 (by omega), List.flatten_cons, List.append_assoc]
      rfl

/-- No line prints more than it holds, and only such lines print all they hold. -/
theorem printedText_lines_length {lines : List Bytes}
    (hlines : ∀ line ∈ lines, IsToken isNewline line) {text : Bytes}
    (htext : printedText (commandLoop (commandLines lines)) = some text) :
    text.length ≤ lines.flatten.length + 1 ∧ (text.length = lines.flatten.length + 1 →
      ∀ line ∈ lines, line.length ≤ lineRoom ∧ percent ∉ line) := by
  induction lines generalizing text with
  | nil =>
      rw [printedText_end] at htext
      cases htext
      exact ⟨Nat.le_refl _, fun _ => List.forall_mem_nil _⟩
  | cons line lines ih =>
      rw [List.forall_mem_cons] at hlines
      have hroom : lineRoom = 1014 := rfl
      rw [commandLines_cons, commandLoop_line hlines.1, printedText_cons] at htext
      obtain ⟨first, hfirst, hjoined⟩ := Option.bind_eq_some_iff.mp htext
      obtain ⟨more, hmore, rfl⟩ := Option.map_eq_some_iff.mp hjoined
      obtain ⟨hfirstLength, hfirstClean⟩ := uiPrint_length hfirst
      rw [List.length_take] at hfirstLength hfirstClean
      rw [List.length_append, List.flatten_cons, List.length_append, List.forall_mem_cons]
      by_cases hshort : line.length < lineRoom
      · rw [if_pos hshort] at hmore
        obtain ⟨hle, hclean⟩ := ih hlines.2 hmore
        rw [List.take_of_length_le (Nat.le_of_lt hshort)] at hfirstClean
        exact ⟨by omega, fun h =>
          ⟨⟨Nat.le_of_lt hshort, hfirstClean (by omega)⟩, hclean (by omega)⟩⟩
      · rw [if_neg hshort] at hmore
        obtain ⟨commands, hcommands, hprinted⟩ := commandLoop_rest
          (fun byte hbyte => (hlines.1.clean byte (List.mem_of_mem_drop hbyte)).2)
          (fun hmem => newline_notMem hlines.1 (List.mem_of_mem_drop hmem)) (commandLines lines)
        rw [hcommands, printedText_append] at hmore
        obtain ⟨pieces, hpieces, hothers⟩ := Option.bind_eq_some_iff.mp hmore
        obtain ⟨last, hlast, rfl⟩ := Option.map_eq_some_iff.mp hothers
        obtain ⟨hle, hclean⟩ := ih hlines.2 hlast
        obtain ⟨hpiecesLength, hempty⟩ := hprinted pieces hpieces
        rw [List.length_drop] at hpiecesLength hempty
        rw [List.length_append]
        refine ⟨by omega, fun h => ?_⟩
        have hfits : line.length ≤ lineRoom := List.drop_eq_nil_iff.mp (hempty (by omega))
        rw [List.take_of_length_le hfits] at hfirstClean
        exact ⟨⟨hfits, hfirstClean (by omega)⟩, hclean (by omega)⟩

/-- The log gets the text and a line end exactly if the text is a single line that fits into
the buffer of the command loop and has no percent sign. -/
theorem uiPrint_roundTrip_iff (state : State) (texts : List Bytes)
    (hzero : ∀ byte ∈ texts.flatten, byte ≠ 0) :
    printedText (commandLoop (uiPrintWrites state texts)) = some (texts.flatten ++ [newline]) ↔
      newline ∉ texts.flatten ∧ percent ∉ texts.flatten ∧ texts.flatten.length ≤ lineRoom := by
  rw [uiPrintWrites_eq]
  generalize texts.flatten = text at hzero ⊢
  have hlines : ∀ line ∈ (strtokLoop isNewline text.length [] text).1, IsToken isNewline line :=
    strtokLoop_isToken hzero text.length []
  have hflatten : (strtokLoop isNewline text.length [] text).1.flatten =
      text.filter fun byte => !isNewline byte := strtokLoop_flatten hzero (Nat.le_refl _) []
  have hkeep : newline ∉ text → text.filter (fun byte => !isNewline byte) = text := by
    intro hclean
    rw [List.filter_eq_self]
    intro byte hbyte
    simpa [isNewline] using ne_of_mem_of_not_mem hbyte hclean
  constructor
  · intro hprinted
    obtain ⟨-, hfit⟩ := printedText_lines_length hlines hprinted
    have hlength := (printedText_lines_length hlines hprinted).1
    rw [List.length_append, List.length_singleton] at hfit hlength
    rw [hflatten] at hfit hlength
    have hfilter := List.length_filter_le (fun byte => !isNewline byte) text
    have hclean : newline ∉ text := by
      intro hmem
      have hkept := List.length_filter_eq_length_iff.mp
        (show (text.filter fun byte => !isNewline byte).length = text.length by omega) newline hmem
      rw [show isNewline newline = true by decide] at hkept
      cases hkept
    have hall := hfit (by omega)
    rw [hkeep hclean] at hflatten
    refine ⟨hclean, ?_, ?_⟩
    · rw [← hflatten, List.mem_flatten]
      rintro ⟨line, hline, hmem⟩
      exact (hall line hline).2 hmem
    · by_cases hnil : text = []
      · rw [hnil]
        exact Nat.zero_le _
      · have htoken : strtok isNewline [] text = some (text, [] ++ text, []) := by
          rw [strtok_clean, if_neg hnil]
          exact fun byte hbyte => ⟨by
            simpa [isNewline] using ne_of_mem_of_not_mem hbyte hclean, hzero byte hbyte⟩
        obtain ⟨length, hsucc⟩ := Nat.exists_eq_succ_of_ne_zero
          (show text.length ≠ 0 from fun h => hnil (List.eq_nil_of_length_eq_zero h))
        refine (hall text ?_).1
        rw [hsucc, strtokLoop, htoken]
        exact List.mem_cons_self ..
  · rintro ⟨hclean, hformat, hlength⟩
    rw [hkeep hclean] at hflatten
    have hprinted := printedText_lines hlines fun line hline => by
      refine ⟨?_, fun hmem => hformat ?_⟩
      · have hpart := List.Sublist.length_le (List.sublist_flatten_of_mem hline)
        rw [hflatten] at hpart
        omega
      · rw [← hflatten]
        exact List.mem_flatten.mpr ⟨line, hline, hmem⟩
    rw [hprinted, hflatten]

/-- The lines of a text run together. -/
theorem uiPrint_joins_lines :
    printedText (commandLoop (uiPrintWrites ⟨[], none⟩ [ascii "a\nb"])) = some (ascii "ab\n") ∧
      printedText (commandLoop (uiPrintWrites ⟨[], none⟩ [ascii "a\nb"])) ≠
        some (ascii "a\nb" ++ [newline]) := by
  rw [uiPrintWrites_eq]
  exact ⟨by decide, by decide⟩

theorem uiPrint_roundTrip_hello :
    printedText (commandLoop (uiPrintWrites ⟨[], none⟩ [ascii "hel", ascii "lo"])) =
      some (ascii "hello" ++ [newline]) :=
  (uiPrint_roundTrip_iff ⟨[], none⟩ [ascii "hel", ascii "lo"]
    (forall_mem_of_all (by decide))).mpr
    ⟨by decide, by decide, by decide⟩

end OpenRecovery.Edify
