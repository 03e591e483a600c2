import OpenRecovery.BootMessages
import OpenRecovery.RecoveryArgs
import Mathlib

/-!
# Recovery arguments across a restart

The arguments are read from the lines of the command file, joined into the
field of 1024 bytes, and taken apart again at the next boot.  They survive if
every line is a token of its own and the field is large enough; the bootstrap
marker has no room for them at all.
-/

namespace OpenRecovery

open Effects Mtd

/-! ## Tokens -/

/-- A word that `strtok` returns unchanged. -/
structure IsToken (isDelim : UInt8 → Bool) (word : Bytes) : Prop where
  nonempty : word ≠ []
  clean : ∀ byte ∈ word, isDelim byte = false ∧ byte ≠ 0

section Tokens

variable {isDelim : UInt8 → Bool} {word : Bytes}

theorem IsToken.dropWhile_append (hword : IsToken isDelim word) (tail : Bytes) :
    (word ++ tail).dropWhile isDelim = word ++ tail := by
  cases word with
  | nil => exact absurd rfl hword.nonempty
  | cons byte word =>
      rw [List.cons_append, List.dropWhile_cons_of_neg]
      simp [(hword.clean byte (by simp)).1]

theorem IsToken.takeWhile_append (hword : IsToken isDelim word) (tail : Bytes) :
    (word ++ tail).takeWhile isDelim = [] := by
  cases word with
  | nil => exact absurd rfl hword.nonempty
  | cons byte word =>
      rw [List.cons_append, List.takeWhile_cons_of_neg]
      simp [(hword.clean byte (by simp)).1]

theorem IsToken.takeWhile_word
    (hword : IsToken isDelim word) {stop : UInt8} (tail : Bytes)
    (hstop : isDelim stop = true ∨ stop = 0) :
    (word ++ stop :: tail).takeWhile (fun byte => !isDelim byte && byte != 0) = word := by
  have hall : ∀ byte ∈ word, (!isDelim byte && byte != 0) = true := by
    intro byte hbyte
    simp [hword.clean byte hbyte]
  rw [List.takeWhile_append_of_pos hall, List.takeWhile_cons_of_neg, List.append_nil]
  rcases hstop with hdelim | rfl
  · simp [hdelim]
  · simp

/-- A word is returned and the delimiter after it is overwritten. -/
theorem IsToken.strtok_delim
    (hword : IsToken isDelim word) {delim : UInt8} (hdelim : isDelim delim = true)
    (passed tail : Bytes) :
    strtok isDelim passed (word ++ delim :: tail) = some (word, passed ++ (word ++ [0]), tail) := by
  unfold strtok
  simp only [hword.dropWhile_append, hword.takeWhile_append, hword.takeWhile_word tail (.inl hdelim),
    hword.nonempty, if_false, List.drop_left, hdelim, if_true, List.nil_append]

/-- The last word before the end of the string. -/
theorem IsToken.strtok_end
    (hword : IsToken isDelim word) (hzero : isDelim 0 = false) (passed tail : Bytes) :
    strtok isDelim passed (word ++ 0 :: tail) = some (word, passed ++ word, 0 :: tail) := by
  unfold strtok
  simp only [hword.dropWhile_append, hword.takeWhile_append, hword.takeWhile_word tail (.inr rfl),
    hword.nonempty, if_false, List.drop_left, hzero, Bool.false_eq_true, List.nil_append]

theorem strtok_zero (hzero : isDelim 0 = false) (passed tail : Bytes) :
    strtok isDelim passed (0 :: tail) = none := by
  simp [strtok, hzero]

/-- What a call of `strtok` finds in a string: a token, after delimiters and
before a delimiter or the end. -/
theorem strtok_cases
    {text : Bytes} (hzero : isDelim 0 = false) (htext : ∀ byte ∈ text, byte ≠ 0)
    (passed tail : Bytes) :
    (∀ byte ∈ text, isDelim byte = true) ∧ strtok isDelim passed (text ++ 0 :: tail) = none ∨
    (∃ blanks word, IsToken isDelim word ∧ (∀ byte ∈ blanks, isDelim byte = true) ∧
      (text = blanks ++ word ∧
          strtok isDelim passed (text ++ 0 :: tail) =
            some (word, passed ++ (blanks ++ word), 0 :: tail) ∨
        ∃ delim rest, text = blanks ++ (word ++ delim :: rest) ∧ isDelim delim = true ∧
          strtok isDelim passed (text ++ 0 :: tail) =
            some (word, passed ++ (blanks ++ (word ++ [0])), rest ++ 0 :: tail))) := by
  obtain ⟨blanks, start, rfl, hblanks, hstart⟩ : ∃ blanks start, text = blanks ++ start ∧
      (∀ byte ∈ blanks, isDelim byte = true) ∧ start.takeWhile isDelim = [] :=
    ⟨text.takeWhile isDelim, text.dropWhile isDelim, List.takeWhile_append_dropWhile.symm,
      fun byte hbyte => List.mem_takeWhile_imp hbyte, by
        cases hdrop : text.dropWhile isDelim with
        | nil => rfl
        | cons byte rest =>
            rw [List.takeWhile_cons_of_neg]
            have hhead := List.head?_dropWhile_not isDelim text
            rw [hdrop] at hhead
            simpa using hhead⟩
  have hskip : strtok isDelim passed (blanks ++ start ++ 0 :: tail) =
      strtok isDelim (passed ++ blanks) (start ++ 0 :: tail) := by
    have htake : (start ++ 0 :: tail).takeWhile isDelim = [] := by
      cases start with
      | nil => simp [hzero]
      | cons byte start =>
          rw [List.takeWhile_cons] at hstart
          split at hstart
          · cases hstart
          case isFalse hbyte => simp [hbyte]
    have hdrop : (start ++ 0 :: tail).dropWhile isDelim = start ++ 0 :: tail := by
      have hsplit := List.takeWhile_append_dropWhile (p := isDelim) (l := start ++ 0 :: tail)
      rwa [htake, List.nil_append] at hsplit
    unfold strtok
    rw [List.append_assoc, List.takeWhile_append_of_pos hblanks, List.dropWhile_append_of_pos hblanks,
      htake, hdrop, List.append_nil]
    simp only [List.nil_append, List.append_assoc]
  rw [hskip]
  obtain ⟨word, rest, rfl, hword, hrest⟩ : ∃ word rest, start = word ++ rest ∧
      (∀ byte ∈ word, isDelim byte = false) ∧ ∀ byte ∈ rest.head?, isDelim byte = true :=
    ⟨start.takeWhile (fun byte => !isDelim byte), start.dropWhile (fun byte => !isDelim byte),
      List.takeWhile_append_dropWhile.symm, fun byte hbyte => by
        simpa using List.mem_takeWhile_imp hbyte, by
        intro byte hbyte
        have hhead := List.head?_dropWhile_not (fun byte => !isDelim byte) start
        rw [Option.mem_def] at hbyte
        rw [hbyte] at hhead
        simpa using hhead⟩
  by_cases hempty : word = []
  · subst hempty
    cases rest with
    | nil =>
        refine .inl ⟨?_, ?_⟩
        · simpa using hblanks
        · rw [List.nil_append, List.nil_append]
          exact strtok_zero hzero _ _
    | cons byte rest =>
        rw [List.nil_append, List.takeWhile_cons, hrest byte (by simp)] at hstart
        cases hstart
  · have htoken : IsToken isDelim word :=
      ⟨hempty, fun byte hbyte => ⟨hword byte hbyte, htext byte (by simp [hbyte])⟩⟩
    refine .inr ⟨blanks, word, htoken, hblanks, ?_⟩
    cases rest with
    | nil =>
        refine .inl ⟨by simp, ?_⟩
        rw [List.append_nil, htoken.strtok_end hzero, List.append_assoc]
    | cons delim rest =>
        refine .inr ⟨delim, rest, by simp, hrest delim (by simp), ?_⟩
        rw [List.append_assoc, List.cons_append, htoken.strtok_delim (hrest delim (by simp)),
          List.append_assoc]

end Tokens

/-! ## Joining the arguments -/

theorem cString_append {text : Bytes} (htext : ∀ byte ∈ text, byte ≠ 0) (tail : Bytes) :
    cString (text ++ 0 :: tail) = text := by
  have hall : ∀ byte ∈ text, decide (byte ≠ 0) = true := fun byte hbyte => by
    simpa using htext byte hbyte
  rw [cString, List.takeWhile_append_of_pos hall, List.takeWhile_cons_of_neg (by simp),
    List.append_nil]

section Fields

variable {count : Nat} (field : List.Vector UInt8 count) {text : Bytes}

/-- A field that holds a string starts with its bytes and a zero. -/
theorem exists_strcpy_toList (hlength : text.length < count) :
    ∃ tail, (strcpy field text).toList = text ++ 0 :: tail := by
  change ∃ tail, ((text ++ 0 :: field.toList.drop (text.length + 1)) ++
    List.replicate count 0).take count = text ++ 0 :: tail
  refine ⟨(field.toList.drop (text.length + 1) ++ List.replicate count 0).take
    (count - (text.length + 1)), ?_⟩
  rw [List.append_assoc, List.take_append, List.take_of_length_le hlength.le, List.cons_append,
    show count - text.length = count - (text.length + 1) + 1 by omega, List.take_succ_cons]

theorem cString_strcpy (hlength : text.length < count) (htext : ∀ byte ∈ text, byte ≠ 0) :
    cString (strcpy field text).toList = text := by
  obtain ⟨tail, htail⟩ := exists_strcpy_toList field hlength
  rw [htail, cString_append htext]

theorem cString_ne_zero (data : Bytes) : ∀ byte ∈ cString data, byte ≠ 0 := by
  intro byte hbyte
  simpa using List.mem_takeWhile_imp hbyte

/-- Appending cuts the string where the field ends. -/
theorem cString_strlcat
    (hfield : (cString field.toList).length < count) (htext : ∀ byte ∈ text, byte ≠ 0) :
    cString (strlcat field text count).toList =
      (cString field.toList ++ text).take (count - 1) := by
  have htake : (cString field.toList).take count = cString field.toList :=
    List.take_of_length_le hfield.le
  unfold strlcat
  simp only [htake]
  rw [if_neg (by omega), cString_strcpy, List.take_append,
    List.take_of_length_le (show (cString field.toList).length ≤ count - 1 by omega)]
  · rw [List.length_append, List.length_take]
    omega
  · intro byte hbyte
    rw [List.mem_append] at hbyte
    rcases hbyte with hold | hnew
    · exact cString_ne_zero _ byte hold
    · exact htext byte (List.mem_of_mem_take hnew)

end Fields

/-- The text that a list of arguments is joined to. -/
def argumentText (args : List Bytes) : Bytes :=
  ascii "recovery\n" ++ args.flatMap (· ++ [newline])

theorem ascii_newline : ascii "\n" = [newline] := rfl

/-- The field holds as much of the text as it has room for. -/
theorem cString_joinArguments
    (recovery : List.Vector UInt8 1024) {args : List Bytes}
    (hargs : ∀ arg ∈ args, ∀ byte ∈ arg, byte ≠ 0) :
    cString (joinArguments recovery args).toList = (argumentText args).take 1023 := by
  have hstart : cString (strlcpy recovery (ascii "recovery\n") 1024).toList =
      (ascii "recovery\n").take 1023 := by
    unfold strlcpy
    exact cString_strcpy recovery (by decide) (forall_mem_of_all (by decide))
  unfold joinArguments argumentText
  generalize strlcpy recovery (ascii "recovery\n") 1024 = field at hstart
  generalize ascii "recovery\n" = text at hstart
  induction args generalizing field text with
  | nil => simpa using hstart
  | cons arg args ih =>
      have hfield : (cString field.toList).length < 1024 := by
        rw [hstart, List.length_take]
        omega
      have hfirst := cString_strlcat field hfield (hargs arg (by simp))
      have hsecond := @cString_strlcat _ (strlcat field arg 1024) (ascii "\n")
          (by rw [hfirst, List.length_take]; omega) (forall_mem_of_all (by decide))
      rw [hfirst, hstart] at hsecond
      have hcut : ∀ first second : Bytes,
          (first.take 1023 ++ second).take 1023 = (first ++ second).take 1023 := by
        intro first second
        rw [List.take_append, List.take_append, List.take_take, Nat.min_self, List.length_take]
        congr 2
        omega
      rw [hcut, List.append_assoc, hcut, ascii_newline] at hsecond
      rw [List.foldl_cons, List.flatMap_cons, ← List.append_assoc]
      exact ih (fun other hother => hargs other (by simp [hother])) _ _ hsecond

/-! ## Taking the arguments apart -/

theorem isNewline_zero : isNewline 0 = false := by decide

/-- Tokens that are followed by newlines are found again; the last newline may
be missing. -/
theorem strtokLoop_tokens
    {args : List Bytes} {count : Nat} (hargs : ∀ arg ∈ args, IsToken isNewline arg)
    (hcount : args.length ≤ count) (passed tail : Bytes) :
    (strtokLoop isNewline count passed (args.flatMap (· ++ [newline]) ++ 0 :: tail)).1 = args ∧
      (strtokLoop isNewline count passed
        ((args.flatMap (· ++ [newline])).dropLast ++ 0 :: tail)).1 = args := by
  induction args generalizing count passed with
  | nil =>
      have hnil : (strtokLoop isNewline count passed (0 :: tail)).1 = [] := by
        cases count with
        | zero => rfl
        | succ count => rw [strtokLoop, strtok_zero isNewline_zero]
      exact ⟨hnil, hnil⟩
  | cons arg args ih =>
      obtain ⟨count, rfl⟩ := Nat.exists_eq_add_one_of_ne_zero (show count ≠ 0 by
        rw [List.length_cons] at hcount
        omega)
      have harg := hargs arg (by simp)
      have hrest := @ih count (fun other hother => hargs other (by simp [hother]))
        (by simpa using hcount)
      have hstep : ∀ rest, (strtokLoop isNewline (count + 1) passed
          (arg ++ newline :: rest)).1 =
            arg :: (strtokLoop isNewline count (passed ++ (arg ++ [0])) rest).1 := by
        intro rest
        rw [strtokLoop, harg.strtok_delim (by decide)]
      refine ⟨?_, ?_⟩
      · rw [List.flatMap_cons, List.append_assoc, List.append_assoc, List.singleton_append, hstep,
          (hrest _).1]
      · cases args with
        | nil =>
            rw [List.flatMap_cons, List.flatMap_nil, List.append_nil, List.dropLast_concat,
              strtokLoop, harg.strtok_end isNewline_zero]
            have hnil : (strtokLoop isNewline count (passed ++ arg) (0 :: tail)).1 = [] := by
              cases count with
              | zero => rfl
              | succ count => rw [strtokLoop, strtok_zero isNewline_zero]
            exact congrArg (arg :: ·) hnil
        | cons other args =>
            have hsome : (other :: args).flatMap (· ++ [newline]) ≠ [] := by simp
            rw [List.flatMap_cons, List.append_assoc, List.singleton_append,
              List.dropLast_append_of_ne_nil (by simp), List.dropLast_cons_of_ne_nil hsome,
              List.append_assoc, List.cons_append, hstep, (hrest _).2]

/-- The tokens of a string, with one byte for the end of each, are not longer
than the string and its end. -/
theorem strtokLoop_length
    {text : Bytes} (htext : ∀ byte ∈ text, byte ≠ 0) (count : Nat) (passed tail : Bytes) :
    ((strtokLoop isNewline count passed (text ++ 0 :: tail)).1.map
      (fun arg => arg.length + 1)).sum ≤ text.length + 1 := by
  induction count generalizing text passed with
  | zero => simp [strtokLoop]
  | succ count ih =>
      rcases strtok_cases isNewline_zero htext passed tail with
        ⟨-, hnone⟩ | ⟨blanks, word, -, -, ⟨rfl, hsome⟩ | ⟨delim, rest, rfl, -, hsome⟩⟩
      · rw [strtokLoop, hnone]
        simp
      · have hnil : ∀ passed, (strtokLoop isNewline count passed (0 :: tail)).1 = [] := by
          intro passed
          cases count with
          | zero => rfl
          | succ count => rw [strtokLoop, strtok_zero isNewline_zero]
        rw [strtokLoop, hsome]
        simp only [hnil, List.map_cons, List.map_nil, List.sum_cons, List.sum_nil,
          List.length_append]
        omega
      · have hrest := @ih rest (fun byte hbyte => htext byte (by simp [hbyte]))
          (passed ++ (blanks ++ (word ++ [0])))
        rw [strtokLoop, hsome]
        simp only [List.map_cons, List.sum_cons, List.length_append, List.length_cons]
        omega

/-- The length of a list of arguments in the message. -/
def argumentLength (args : List Bytes) : Nat :=
  9 + (args.map fun arg => arg.length + 1).sum

theorem exists_buffer
    (recovery : List.Vector UInt8 1024) (hlength : (cString recovery.toList).length ≤ 1023) :
    ∃ tail, recovery.toList.take 1023 ++ [0] = cString recovery.toList ++ 0 :: tail := by
  have hsplit : cString recovery.toList ++ recovery.toList.dropWhile (· ≠ 0) = recovery.toList :=
    List.takeWhile_append_dropWhile
  cases hdrop : recovery.toList.dropWhile (· ≠ 0) with
  | nil =>
      have htotal := congrArg List.length hsplit
      rw [hdrop, List.append_nil, recovery.toList_length] at htotal
      omega
  | cons byte rest =>
      have hbyte : byte = 0 := by
        have hhead := List.head?_dropWhile_not (fun byte : UInt8 => decide (byte ≠ 0))
          recovery.toList
        rw [hdrop] at hhead
        simpa using hhead
      rw [hdrop, hbyte] at hsplit
      rw [← hsplit, cString_append (cString_ne_zero _), List.take_append,
        List.take_of_length_le hlength, List.append_assoc]
      cases 1023 - (cString recovery.toList).length with
      | zero => exact ⟨[], rfl⟩
      | succ room => exact ⟨rest.take room ++ [0], rfl⟩

theorem length_flatMap_newline (args : List Bytes) :
    (args.flatMap (· ++ [newline])).length = (args.map fun arg => arg.length + 1).sum := by
  rw [List.length_flatMap]
  simp

/-- Exactly the arguments that fit are found in the message again. -/
theorem bootArguments_joinArguments
    (recovery : List.Vector UInt8 1024) {args : List Bytes}
    (hargs : ∀ arg ∈ args, IsToken isNewline arg) (hcount : args.length ≤ maxArgs - 1) :
    ∃ found, (bootArguments (joinArguments recovery args)).1 =
        some (ascii "recovery" :: found) ∧
      (found = args ↔ argumentLength args ≤ 1024) := by
  have htext : ∀ arg ∈ args, ∀ byte ∈ arg, byte ≠ 0 :=
    fun arg harg byte hbyte => ((hargs arg harg).clean byte hbyte).2
  have hjoin := cString_joinArguments recovery htext
  have hstart : ascii "recovery\n" = ascii "recovery" ++ [newline] := by decide
  have hjoin' : cString (joinArguments recovery args).toList =
      ascii "recovery" ++ newline :: (args.flatMap (· ++ [newline])).take 1014 := by
    rw [hjoin, argumentText, hstart, List.append_assoc, List.take_append,
      List.take_of_length_le (by decide), List.singleton_append]
    rfl
  obtain ⟨tail, hbuffer⟩ := exists_buffer (joinArguments recovery args) (by
    rw [hjoin, List.length_take]
    omega)
  have hword : IsToken isNewline (ascii "recovery") :=
    ⟨by decide, forall_mem_of_all (by decide)⟩
  refine ⟨(strtokLoop isNewline (maxArgs - 1) ([] ++ (ascii "recovery" ++ [0]))
    ((args.flatMap (· ++ [newline])).take 1014 ++ 0 :: tail)).1, ?_, ?_⟩
  · have hfirst := @IsToken.strtok_delim _ _ hword newline (by decide) []
        ((args.flatMap (· ++ [newline])).take 1014 ++ 0 :: tail)
    unfold bootArguments
    rw [hbuffer, hjoin', List.append_assoc, List.cons_append]
    simp only [hfirst, if_true]
  · have hlength := length_flatMap_newline args
    obtain ⟨hfull, hcut⟩ := strtokLoop_tokens hargs hcount
      ([] ++ (ascii "recovery" ++ [0])) tail
    constructor
    · intro hfound
      have hbound := @strtokLoop_length ((args.flatMap (· ++ [newline])).take 1014)
          (fun byte hbyte => by
          have hmem := List.mem_of_mem_take hbyte
          rw [List.mem_flatMap] at hmem
          obtain ⟨arg, harg, hmem⟩ := hmem
          rw [List.mem_append, List.mem_singleton] at hmem
          rcases hmem with hmem | rfl
          · exact htext arg harg byte hmem
          · decide) (maxArgs - 1) ([] ++ (ascii "recovery" ++ [0])) tail
      rw [hfound, List.length_take] at hbound
      unfold argumentLength
      omega
    · intro hfits
      unfold argumentLength at hfits
      rcases Nat.lt_or_ge 1014 (args.flatMap (· ++ [newline])).length with hlong | hshort
      · have htake : (args.flatMap (· ++ [newline])).take 1014 =
            (args.flatMap (· ++ [newline])).dropLast := by
          rw [List.dropLast_eq_take]
          congr 1
          omega
        rw [htake]
        exact hcut
      · rw [List.take_of_length_le hshort]
        exact hfull

/-! ## The lines of the command file -/

/-- The lines of a file, each with its end. -/
def rawLines : Bytes → List Bytes
  | [] => []
  | byte :: rest =>
      if byte = newline then [newline] :: rawLines rest
      else
        match rawLines rest with
        | [] => [[byte]]
        | line :: lines => (byte :: line) :: lines

/-- Take one byte away from the end of a line. -/
def stripLast (last : UInt8) (line : Bytes) : Bytes :=
  if line.getLast? = some last then line.dropLast else line

/-- A line without its end. -/
def lineText (line : Bytes) : Bytes :=
  stripLast carriageReturn (stripLast newline line)

def nonBlankLines (content : Bytes) : List Bytes :=
  ((rawLines content).map lineText).filter (· ≠ [])

theorem rawLines_append {body : Bytes} (hbody : newline ∉ body) (rest : Bytes) :
    rawLines (body ++ newline :: rest) = (body ++ [newline]) :: rawLines rest := by
  induction body with
  | nil => rw [List.nil_append, rawLines, if_pos rfl, List.nil_append]
  | cons byte body ih =>
      rw [List.mem_cons, not_or] at hbody
      rw [List.cons_append, rawLines, if_neg (Ne.symm hbody.1), ih hbody.2]
      rfl

theorem rawLines_singleton {body : Bytes} (hsome : body ≠ []) (hbody : newline ∉ body) :
    rawLines body = [body] := by
  induction body with
  | nil => exact absurd rfl hsome
  | cons byte body ih =>
      rw [List.mem_cons, not_or] at hbody
      rw [rawLines, if_neg (Ne.symm hbody.1)]
      cases body with
      | nil => rfl
      | cons next body => rw [ih (by simp) hbody.2]

theorem stripLast_concat (last : UInt8) (line : Bytes) : stripLast last (line ++ [last]) = line := by
  simp [stripLast]

theorem stripLast_of_notMem {last : UInt8} {line : Bytes} (hline : last ∉ line) :
    stripLast last line = line := by
  rw [stripLast, if_neg]
  intro hlast
  exact hline (List.mem_of_getLast? hlast)

theorem stripLast_cases (last : UInt8) (line : Bytes) :
    line = stripLast last line ∨ line = stripLast last line ++ [last] := by
  unfold stripLast
  split
  case isTrue hlast =>
    obtain ⟨start, rfl⟩ := List.getLast?_eq_some_iff.mp hlast
    exact .inr (by rw [List.dropLast_concat])
  case isFalse => exact .inl rfl

theorem takeWhile_take {α : Type} (p : α → Bool) (data : List α) (count : Nat) :
    (data.take count).takeWhile p = (data.takeWhile p).take count := by
  induction data generalizing count with
  | nil => simp
  | cons byte data ih =>
      cases count with
      | zero => simp
      | succ count =>
          rw [List.take_succ_cons, List.takeWhile_cons, List.takeWhile_cons]
          split
          · rw [ih, List.take_succ_cons]
          · rfl

theorem fgets_eq (data : Bytes) :
    fgets data = (data.take ((data.takeWhile (· ≠ newline)).length + 1)).take
      (maxLineLength - 1) := by
  unfold fgets
  simp only
  rw [takeWhile_take, List.length_take, List.take_take, List.take_take]
  congr 1
  omega

/-- The first line of a file, and how it ends. -/
theorem exists_rawLine {data : Bytes} (hsome : data ≠ []) :
    ∃ line rest ending, data = line ++ rest ∧ rawLines data = line :: rawLines rest ∧
      line = lineText line ++ ending ∧ line ≠ [] ∧
      (ending = [] ∨ ending = [carriageReturn] ∨ ending = [newline] ∨
        ending = [carriageReturn, newline]) ∧
      fgets data = line.take (maxLineLength - 1) := by
  have hsplit := List.takeWhile_append_dropWhile (p := fun byte => decide (byte ≠ newline))
    (l := data)
  have hfgets := fgets_eq data
  have hbody : newline ∉ data.takeWhile (fun byte => decide (byte ≠ newline)) := by
    intro hmem
    simpa using List.mem_takeWhile_imp hmem
  generalize data.takeWhile (fun byte => decide (byte ≠ newline)) = body at hsplit hfgets hbody
  cases hdrop : data.dropWhile (fun byte => decide (byte ≠ newline)) with
  | nil =>
      rw [hdrop, List.append_nil] at hsplit
      subst hsplit
      have hstrip : lineText body = stripLast carriageReturn body := by
        rw [lineText, stripLast_of_notMem hbody]
      have htake : body.take (body.length + 1) = body := List.take_of_length_le (by omega)
      rw [htake] at hfgets
      rcases stripLast_cases carriageReturn body with hline | hline
      · refine ⟨body, [], [], by simp, ?_, ?_, hsome, .inl rfl, hfgets⟩
        · rw [rawLines_singleton hsome hbody, rawLines]
        · rw [hstrip, List.append_nil, ← hline]
      · refine ⟨body, [], [carriageReturn], by simp, ?_, ?_, hsome, .inr (.inl rfl), hfgets⟩
        · rw [rawLines_singleton hsome hbody, rawLines]
        · rw [hstrip, ← hline]
  | cons byte rest =>
      have hbyte : byte = newline := by
        have hhead := List.head?_dropWhile_not (fun byte => decide (byte ≠ newline)) data
        rw [hdrop] at hhead
        simpa using hhead
      subst hbyte
      rw [hdrop] at hsplit
      subst hsplit
      have hstrip : lineText (body ++ [newline]) = stripLast carriageReturn body := by
        rw [lineText, stripLast_concat]
      have hline : body ++ newline :: rest = (body ++ [newline]) ++ rest := by simp
      have htake : (body ++ newline :: rest).take (body.length + 1) = body ++ [newline] := by
        rw [hline, List.take_left' (by simp)]
      rw [htake] at hfgets
      rcases stripLast_cases carriageReturn body with htext | htext
      · refine ⟨body ++ [newline], rest, [newline], hline, rawLines_append hbody rest, ?_,
          by simp, .inr (.inr (.inl rfl)), hfgets⟩
        rw [hstrip, ← htext]
      · refine ⟨body ++ [newline], rest, [carriageReturn, newline], hline,
          rawLines_append hbody rest, ?_, by simp, .inr (.inr (.inr rfl)), hfgets⟩
        rw [hstrip]
        nth_rewrite 1 [htext]
        simp

/-! ## Reading the lines -/

/-- What the loop of `get_cmd_file_args` makes of the rest of a file; nothing
if it gets stuck. -/
def lineTokens : (count : Nat) → Bytes → Option (List Bytes)
  | 0, _ => some []
  | count + 1, data =>
      if fgets data = [] then some []
      else
        match strtok isLineEnd [] (fgets data ++ [0]) with
        | none => none
        | some (arg, _, _) => (lineTokens count (data.drop (fgets data).length)).map (arg :: ·)

theorem isLineEnd_zero : isLineEnd 0 = false := by decide

theorem strtok_isToken
    {isDelim : UInt8 → Bool} {passed rest word passed' rest' : Bytes}
    (hword : strtok isDelim passed rest = some (word, passed', rest')) : IsToken isDelim word := by
  have htoken : ∀ start : Bytes,
      start.takeWhile (fun byte => !isDelim byte && byte != 0) ≠ [] →
        IsToken isDelim (start.takeWhile (fun byte => !isDelim byte && byte != 0)) := by
    intro start hsome
    refine ⟨hsome, fun byte hbyte => ?_⟩
    simpa using List.mem_takeWhile_imp hbyte
  unfold strtok at hword
  simp only at hword
  split at hword
  · cases hword
  case isFalse hsome =>
    split at hword
    · obtain ⟨rfl, -⟩ := Prod.mk.inj (Option.some.inj hword)
      exact htoken _ hsome
    · split at hword
      · obtain ⟨rfl, -⟩ := Prod.mk.inj (Option.some.inj hword)
        exact htoken _ hsome
      · obtain ⟨rfl, -⟩ := Prod.mk.inj (Option.some.inj hword)
        exact htoken _ hsome

/-- A line that is a token is read as such. -/
theorem strtok_line
    {text ending : Bytes} (htext : IsToken isLineEnd text)
    (hending : ending = [] ∨ ending = [carriageReturn] ∨ ending = [newline] ∨
      ending = [carriageReturn, newline]) :
    ∃ passed rest, strtok isLineEnd [] (text ++ ending ++ [0]) = some (text, passed, rest) := by
  rcases hending with rfl | rfl | rfl | rfl
  · rw [List.append_nil]
    exact ⟨_, _, htext.strtok_end isLineEnd_zero [] []⟩
  · rw [List.append_assoc]
    exact ⟨_, _, htext.strtok_delim (by decide) [] [0]⟩
  · rw [List.append_assoc]
    exact ⟨_, _, htext.strtok_delim (by decide) [] [0]⟩
  · rw [List.append_assoc]
    exact ⟨_, _, htext.strtok_delim (by decide) [] [newline, 0]⟩

/-- A line that has only an end has no token. -/
theorem strtok_blank
    {ending : Bytes} (hending : ending = [] ∨ ending = [carriageReturn] ∨ ending = [newline] ∨
      ending = [carriageReturn, newline]) :
    strtok isLineEnd [] (ending ++ [0]) = none := by
  rcases hending with rfl | rfl | rfl | rfl <;> decide

theorem nonBlankLines_cons
    {data line rest : Bytes} (hlines : rawLines data = line :: rawLines rest) :
    nonBlankLines data =
      if lineText line = [] then nonBlankLines rest else lineText line :: nonBlankLines rest := by
  rw [nonBlankLines, hlines, List.map_cons, List.filter_cons]
  by_cases hblank : lineText line = []
  · rw [if_pos hblank, if_neg (by simp [hblank]), nonBlankLines]
  · rw [if_neg hblank, if_pos (by simp [hblank]), nonBlankLines]

theorem ending_length
    {ending : Bytes} (hending : ending = [] ∨ ending = [carriageReturn] ∨ ending = [newline] ∨
      ending = [carriageReturn, newline]) : ending.length ≤ 2 := by
  rcases hending with rfl | rfl | rfl | rfl <;> simp

theorem fgets_nil : fgets [] = [] := rfl

theorem lineTokens_nil (count : Nat) : lineTokens count [] = some [] := by
  cases count with
  | zero => rfl
  | succ count => rw [lineTokens, if_pos fgets_nil]

/-- If the lines are tokens and not too long, they are read as they are. -/
theorem lineTokens_of_tokens
    {count : Nat} {data : Bytes}
    (hlines : ∀ line ∈ (rawLines data).take count,
      IsToken isLineEnd (lineText line) ∧ (lineText line).length ≤ 1023) :
    lineTokens count data = some ((nonBlankLines data).take count) ∧
      (nonBlankLines data).take count = ((rawLines data).take count).map lineText := by
  induction count generalizing data with
  | zero => exact ⟨rfl, rfl⟩
  | succ count ih =>
      by_cases hempty : data = []
      · subst hempty
        rw [lineTokens_nil]
        exact ⟨rfl, rfl⟩
      · obtain ⟨line, rest, ending, hdata, hraw, hline, hsome, hending, hfgets⟩ :=
          exists_rawLine hempty
        rw [hraw, List.take_succ_cons] at hlines
        obtain ⟨htoken, hlength⟩ := hlines line (by simp)
        have hshort : line.length ≤ maxLineLength - 1 := by
          have hends := ending_length hending
          have htotal := congrArg List.length hline
          rw [List.length_append] at htotal
          rw [maxLineLength]
          omega
        rw [List.take_of_length_le hshort] at hfgets
        obtain ⟨passed, left, hstrtok⟩ := strtok_line htoken hending
        rw [← hline] at hstrtok
        obtain ⟨hrest, hmap⟩ := @ih rest fun other hother => hlines other (by simp [hother])
        have hdrop : data.drop line.length = rest := by rw [hdata, List.drop_left]
        rw [nonBlankLines_cons hraw, if_neg htoken.nonempty, lineTokens, hfgets, if_neg hsome,
          hstrtok, hdrop, hraw]
        simp only [hrest, Option.map_some, List.take_succ_cons, List.map_cons, hmap, and_self]

/-- If short arguments are read as the lines that are not blank, all lines are
tokens. -/
theorem tokens_of_lineTokens
    {count : Nat} {data : Bytes}
    (hread : lineTokens count data = some ((nonBlankLines data).take count))
    (hshort : ∀ arg ∈ (nonBlankLines data).take count, arg.length ≤ 1023) :
    ∀ line ∈ (rawLines data).take count,
      IsToken isLineEnd (lineText line) ∧ (lineText line).length ≤ 1023 := by
  induction count generalizing data with
  | zero => simp
  | succ count ih =>
      by_cases hempty : data = []
      · subst hempty
        simp [rawLines]
      · obtain ⟨line, rest, ending, hdata, hraw, hline, hsome, hending, hfgets⟩ :=
          exists_rawLine hempty
        have hends := ending_length hending
        have htotal := congrArg List.length hline
        rw [List.length_append] at htotal
        have hstart : fgets data ≠ [] := by
          rw [hfgets]
          intro hnil
          rw [List.take_eq_nil_iff] at hnil
          rcases hnil with hzero | hnil
          · exact absurd hzero (by decide)
          · exact hsome hnil
        have hcons := nonBlankLines_cons hraw
        by_cases hblank : lineText line = []
        · have hline' : line = ending := by rw [hline, hblank, List.nil_append]
          have hwhole : fgets data = ending := by
            rw [hfgets, hline', List.take_of_length_le]
            rw [maxLineLength]
            omega
          rw [lineTokens, if_neg hstart, hwhole, strtok_blank hending] at hread
          cases hread
        · rw [if_neg hblank] at hcons
          rw [hcons, List.take_succ_cons] at hread hshort
          have hlength := hshort (lineText line) (by simp)
          have hwhole : fgets data = line := by
            rw [hfgets, List.take_of_length_le]
            rw [maxLineLength]
            omega
          have hdrop : data.drop line.length = rest := by rw [hdata, List.drop_left]
          rw [lineTokens, if_neg hstart, hwhole, hdrop] at hread
          rw [hraw, List.take_succ_cons]
          split at hread
          · cases hread
          case h_2 arg passed left hstrtok =>
            rw [Option.map_eq_some_iff] at hread
            obtain ⟨args, hargs, heq⟩ := hread
            obtain ⟨harg, rfl⟩ := List.cons.inj heq
            rw [harg] at hstrtok
            intro other hother
            rw [List.mem_cons] at hother
            rcases hother with rfl | hother
            · exact ⟨strtok_isToken hstrtok, hlength⟩
            · exact ih hargs (fun arg harg => hshort arg (by simp [harg])) other hother

/-! ## Reading on a system -/

/-- The path of the command file. -/
def commandPath (build : Build) : CString :=
  if build.lite then "/cache/recovery/command".toList
  else "/cache/openrecovery/command".toList

theorem getRootInfoForPath_commandFile (build : Build) :
    getRootInfoForPath build (commandFile build) = some (yaffsRoot "CACHE:" "cache" "/cache") := by
  rcases build with ⟨_ | _, _ | _⟩ <;> decide

theorem translateRootPath_commandFile (build : Build) :
    translateRootPath build (commandFile build) pathMax = some (commandPath build) := by
  rcases build with ⟨_ | _, _ | _⟩ <;> decide

/-- The arguments after the command file was looked at. -/
def fileArguments (file : Option File) (argv : List Bytes) : Option (List Bytes) :=
  if argv.length ≤ 1 then
    match file with
    | none => some argv
    | some file => (lineTokens (maxArgs - 1) file.data).map (argv.take 1 ++ ·)
  else some argv

section Reading

variable {build : Build} {env : Env} {world : World}

theorem fgets_take (data : Bytes) : fgets (data.take (maxLineLength - 1)) = fgets data := by
  have hwindow : (data.take (maxLineLength - 1)).take (maxLineLength - 1) =
      data.take (maxLineLength - 1) := by
    rw [List.take_take, Nat.min_self]
  unfold fgets
  rw [hwindow]

theorem readArgs_exec
    {path : CString} {file : File} (hfile : world.files path = some file) (count offset : Nat) :
    Prog.exec (World.handle env) (readArgs path count offset) world =
      (match lineTokens count (file.data.drop offset) with
        | none => .error .outOfBounds
        | some args => .ok args, world) := by
  induction count generalizing offset with
  | zero => rfl
  | succ count ih =>
      have hread : Prog.exec (World.handle env)
          (call (.read path offset (maxLineLength - 1))) world =
            (.ok (some ((file.data.drop offset).take (maxLineLength - 1))), world) := by
        rw [call, Prog.exec_lift, Prog.ask, Prog.run_request, Prog.run_pure]
        simp only [World.handle, hfile, Option.map_some]
      rw [readArgs, Prog.exec_bind_ok hread]
      simp only [fgets_take]
      rw [lineTokens]
      by_cases hempty : fgets (file.data.drop offset) = []
      · rw [if_pos hempty, if_pos hempty]
        rfl
      · rw [if_neg hempty, if_neg hempty]
        cases strtok isLineEnd [] (fgets (file.data.drop offset) ++ [0]) with
        | none => rfl
        | some found =>
            obtain ⟨arg, passed, rest⟩ := found
            have hrest := ih (offset + (fgets (file.data.drop offset)).length)
            rw [← List.drop_drop] at hrest
            simp only
            cases htokens : lineTokens count
                ((file.data.drop offset).drop (fgets (file.data.drop offset)).length) with
            | none =>
                rw [htokens] at hrest
                rw [Prog.exec_bind_error hrest]
                rfl
            | some args =>
                rw [htokens] at hrest
                rw [Prog.exec_bind_ok hrest]
                rfl

theorem takeFileArguments_exec (hvisible : CacheVisible world) (argv : List Bytes) :
    Prog.exec (World.handle env) (takeFileArguments build argv) world =
      (match fileArguments (world.files (commandPath build)) argv with
        | none => .error .outOfBounds
        | some argv => .ok argv, world) := by
  unfold takeFileArguments fileArguments
  split_ifs
  · have hmounted := hvisible.ensureRootPathMounted_exec env
      (getRootInfoForPath_commandFile build)
    have hopen : Prog.exec (World.handle env) (call (.openRead (commandPath build))) world =
        (.ok (world.files (commandPath build)).isSome, world) := rfl
    have hfopen : Prog.exec (World.handle env) (fopenRootPath build (commandFile build)) world =
        (.ok (if (world.files (commandPath build)).isSome then some (commandPath build) else none),
          world) := by
      rw [fopenRootPath, Prog.exec_bind_ok hmounted]
      simp only [ne_eq, not_true_eq_false, if_false, translateRootPath_commandFile]
      rw [Prog.exec_bind_ok hopen]
      split
      · rfl
      · rfl
    rw [getCmdFileArgs, Prog.exec_bind_ok hfopen]
    cases hfile : world.files (commandPath build) with
    | none => rfl
    | some file =>
        have hread := @readArgs_exec env _ _ _ hfile (maxArgs - 1) 0
        rw [List.drop_zero] at hread
        simp only [Option.isSome_some, if_true]
        cases htokens : lineTokens (maxArgs - 1) file.data with
        | none =>
            rw [htokens] at hread
            rw [Prog.exec_bind_error hread]
            rfl
        | some args =>
            rw [htokens] at hread
            rw [Prog.exec_bind_ok hread]
            rfl
  · rfl

/-- The message that `get_args` stores. -/
def argumentMessage (boot : BootloaderMessage) (argv : List Bytes) : BootloaderMessage :=
  { boot with
    command := strlcpy boot.command (ascii "boot-recovery") 32
    recovery := joinArguments boot.recovery (argv.drop 1) }

theorem getArgs_exec
    {after final : World} {code stored : Int} {boot : BootloaderMessage} {argv argv' : List Bytes}
    (hmounted : Prog.exec (World.handle env) (ensureRootPathMounted build "CACHE:".toList) world =
      (.ok 0, after))
    (hvisible : CacheVisible after)
    (hload : Prog.exec (World.handle env) (loadMessage build .zero) after =
      (.ok (code, boot), after))
    (hfile : fileArguments (after.files (commandPath build)) (takeBootArguments argv boot).1 =
      some argv')
    (hstore : Prog.exec (World.handle env)
      (storeMessage build (argumentMessage (takeBootArguments argv boot).2 argv')) after =
        (.ok stored, final)) :
    Prog.exec (World.handle env) (getArgs build argv) world = (.ok argv', final) := by
  have hget : Prog.exec (World.handle env) (getBootloaderMessage build .zero) world =
      (.ok (code, boot), after) := (Prog.exec_bind_ok hmounted).trans hload
  have htake := @takeFileArguments_exec build env _ hvisible (takeBootArguments argv boot).1
  rw [hfile] at htake
  have hset : Prog.exec (World.handle env) (setBootloaderMessage build
      (argumentMessage (takeBootArguments argv boot).2 argv')) after = (.ok stored, final) :=
    (Prog.exec_bind_ok (hvisible.ensureRootPathMounted_exec env
      (getRootInfoForPath_cache build))).trans hstore
  rw [getArgs, Prog.exec_bind_ok hget]
  simp only
  rw [Prog.exec_bind_ok htake]
  exact Prog.exec_bind_ok hset

/-- A run that returns has read the file. -/
theorem fileArguments_of_getArgs
    {after final : World} {code : Int} {boot : BootloaderMessage} {argv argv' : List Bytes}
    (hmounted : Prog.exec (World.handle env) (ensureRootPathMounted build "CACHE:".toList) world =
      (.ok 0, after))
    (hvisible : CacheVisible after)
    (hload : Prog.exec (World.handle env) (loadMessage build .zero) after =
      (.ok (code, boot), after))
    (hexec : Prog.exec (World.handle env) (getArgs build argv) world = (.ok argv', final)) :
    fileArguments (after.files (commandPath build)) (takeBootArguments argv boot).1 =
      some argv' := by
  have hget : Prog.exec (World.handle env) (getBootloaderMessage build .zero) world =
      (.ok (code, boot), after) := (Prog.exec_bind_ok hmounted).trans hload
  have htake := @takeFileArguments_exec build env _ hvisible (takeBootArguments argv boot).1
  rw [getArgs, Prog.exec_bind_ok hget] at hexec
  obtain ⟨found, middle, hfound, hrest⟩ := Prog.exec_bind_eq_ok hexec
  obtain ⟨stored, last, -, hpure⟩ := Prog.exec_bind_eq_ok hrest
  obtain rfl : found = argv' := Except.ok.inj (Prod.mk.inj hpure).1
  have hvalue := htake.symm.trans hfound
  cases hfile : fileArguments (after.files (commandPath build)) (takeBootArguments argv boot).1 with
  | none =>
      rw [hfile] at hvalue
      cases hvalue
  | some args =>
      rw [hfile] at hvalue
      rw [Except.ok.inj (Prod.mk.inj hvalue).1]

end Reading

/-! ## Restarting -/

/-- What a restart keeps.  The command file may have been erased. -/
structure Rebooted (build : Build) (before after : World) : Prop where
  partitions : after.partitions = before.partitions
  files : ∀ path, path ≠ commandPath build → after.files path = before.files path
  command : after.files (commandPath build) = before.files (commandPath build) ∨
    after.files (commandPath build) = none

/-- `get_args` without arguments on the command line yields the lines of the
command file, and so does `get_args` at the next boot. -/
def ArgumentsSurvive (build : Build) (env : Env) (world : World) (content : Bytes) : Prop :=
  ∀ program, ∃ argv after,
    Prog.exec (World.handle env) (getArgs build [program]) world = (.ok argv, after) ∧
    argv.drop 1 = (nonBlankLines content).take (maxArgs - 1) ∧
    ∀ env' world' program', Rebooted build after world' →
      env'.writeSize "misc".toList = env.writeSize "misc".toList →
      CacheAvailable build env' world' →
      ∃ argv' after',
        Prog.exec (World.handle env') (getArgs build [program']) world' = (.ok argv', after') ∧
        argv'.drop 1 = argv.drop 1

/-- A message without arguments. -/
def BootloaderMessage.NoArguments (message : BootloaderMessage) : Prop :=
  ((bootArguments message.recovery).1.getD []).length ≤ 1

/-- The stored message can be read and has no arguments. -/
def StoresNoArguments (env : Env) (world : World) : Prop :=
  ∃ (partition : MtdPartition) (flash : Flash partition) (data : Bytes),
    world.partitions "misc".toList = some ⟨partition, flash⟩ ∧
    MessageFits partition (env.writeSize "misc".toList) ∧
    readPages flash (env.writeSize "misc".toList) = some data ∧
    (messageIn (env.writeSize "misc".toList) data).NoArguments

theorem orIsBootstrapMark_ne (build : Build) : orIsBootstrapMark ≠ commandPath build := by
  rcases build with ⟨_ | _, _ | _⟩ <;> decide

theorem orDoBootstrapMark_ne (build : Build) : orDoBootstrapMark ≠ commandPath build := by
  rcases build with ⟨_ | _, _ | _⟩ <;> decide

/-- A message without arguments leaves the command line without arguments. -/
theorem BootloaderMessage.NoArguments.takeBootArguments
    {message : BootloaderMessage} (hnone : message.NoArguments) (program : Bytes) :
    ∃ program', (takeBootArguments [program] message).1 = [program'] := by
  have hshort : ([program] : List Bytes).length ≤ 1 := le_rfl
  unfold NoArguments at hnone
  unfold OpenRecovery.takeBootArguments
  rw [if_pos hshort]
  unfold bootArguments at hnone ⊢
  simp only at hnone ⊢
  cases hfirst : strtok isNewline [] (message.recovery.toList.take 1023 ++ [0]) with
  | none => exact ⟨program, rfl⟩
  | some found =>
      obtain ⟨first, passed, rest⟩ := found
      rw [hfirst] at hnone
      by_cases hname : first = ascii "recovery"
      · simp only [hname, if_true, Option.getD_some, List.length_cons] at hnone ⊢
        refine ⟨_, congrArg _ (List.length_eq_zero_iff.mp (by omega))⟩
      · simp only [hname, if_false]
        exact ⟨program, rfl⟩

theorem fileArguments_single (file : File) (program : Bytes) :
    fileArguments (some file) [program] =
      (lineTokens (maxArgs - 1) file.data).map (program :: ·) := rfl

theorem lineTokens_eq_some_nil {count : Nat} {data : Bytes}
    (htokens : lineTokens (count + 1) data = some []) : data = [] := by
  by_contra hsome
  obtain ⟨line, rest, ending, -, -, -, hline, -, hfgets⟩ := exists_rawLine hsome
  have hstart : fgets data ≠ [] := by
    rw [hfgets]
    intro hnil
    rw [List.take_eq_nil_iff] at hnil
    rcases hnil with hzero | hnil
    · exact absurd hzero (by decide)
    · exact hline hnil
  rw [lineTokens, if_neg hstart] at htokens
  split at htokens
  · cases htokens
  · rw [Option.map_eq_some_iff] at htokens
    obtain ⟨args, -, hargs⟩ := htokens
    cases hargs

/-- Whatever is read from the command file can be written to the message. -/
theorem lineTokens_isToken
    {count : Nat} {data : Bytes} {args : List Bytes} (htokens : lineTokens count data = some args) :
    (∀ arg ∈ args, IsToken isLineEnd arg) ∧ args.length ≤ count := by
  induction count generalizing data args with
  | zero =>
      obtain rfl : [] = args := Option.some.inj htokens
      simp
  | succ count ih =>
      rw [lineTokens] at htokens
      split at htokens
      · obtain rfl : [] = args := Option.some.inj htokens
        simp
      · split at htokens
        · cases htokens
        case h_2 arg passed rest hstrtok =>
          rw [Option.map_eq_some_iff] at htokens
          obtain ⟨args, hargs, rfl⟩ := htokens
          obtain ⟨htoken, hlength⟩ := ih hargs
          refine ⟨?_, by simpa using hlength⟩
          intro other hother
          rw [List.mem_cons] at hother
          rcases hother with rfl | hother
          · exact strtok_isToken hstrtok
          · exact htoken other hother

theorem IsToken.of_lineEnd {word : Bytes} (hword : IsToken isLineEnd word) :
    IsToken isNewline word := by
  refine ⟨hword.nonempty, fun byte hbyte => ?_⟩
  obtain ⟨hdelim, hzero⟩ := hword.clean byte hbyte
  refine ⟨?_, hzero⟩
  simp only [isLineEnd, isNewline, decide_eq_false_iff_not, not_or] at hdelim ⊢
  exact hdelim.2

theorem CacheAvailable.exists_remounted
    {build : Build} {env : Env} {world : World} (hcache : CacheAvailable build env world) :
    ∃ after, Prog.exec (World.handle env) (ensureRootPathMounted build "CACHE:".toList) world =
      (.ok 0, after) ∧ CacheVisible after ∧ World.Remounted world after := by
  obtain ⟨after, hmounted, hvisible⟩ := hcache
  have hframe := @ensureRootPathMounted_remounted build env world "CACHE:".toList
  rw [hmounted] at hframe
  exact ⟨after, hmounted, hvisible, hframe⟩

theorem CacheVisible.available
    {world : World} (hvisible : CacheVisible world) (build : Build) (env : Env) :
    CacheAvailable build env world :=
  ⟨world, hvisible.ensureRootPathMounted_exec env (getRootInfoForPath_cache build), hvisible⟩

/-- The next boot takes the arguments from the message, as far as they fit. -/
theorem takeBootArguments_argumentMessage
    (boot : BootloaderMessage) {argv : List Bytes} (program : Bytes)
    (htokens : ∀ arg ∈ argv.drop 1, IsToken isLineEnd arg)
    (hcount : (argv.drop 1).length ≤ maxArgs - 1) :
    ∃ found, (takeBootArguments [program] (argumentMessage boot argv)).1 =
        ascii "recovery" :: found ∧
      (found = argv.drop 1 ↔ argumentLength (argv.drop 1) ≤ 1024) := by
  obtain ⟨found, hfound, hfits⟩ := bootArguments_joinArguments boot.recovery
    (fun arg harg => (htokens arg harg).of_lineEnd) hcount
  refine ⟨found, ?_, hfits⟩
  have hshort : ([program] : List Bytes).length ≤ 1 := le_rfl
  have hpair : bootArguments (argumentMessage boot argv).recovery =
      (some (ascii "recovery" :: found),
        (bootArguments (argumentMessage boot argv).recovery).2) := Prod.ext hfound rfl
  rw [takeBootArguments, if_pos hshort, hpair]

theorem anyNonZero_argumentMessage (boot : BootloaderMessage) (argv : List Bytes) :
    anyNonZero (argumentMessage boot argv).bytes = true := by
  obtain ⟨tail, htail⟩ := @exists_strcpy_toList _ boot.command
      ((ascii "boot-recovery").take (32 - 1)) (by decide)
  have hcommand : (argumentMessage boot argv).command.toList =
      (ascii "boot-recovery").take (32 - 1) ++ 0 :: tail := htail
  have hstart : anyNonZero ((ascii "boot-recovery").take (32 - 1)) = true := by decide
  rw [BootloaderMessage.bytes, hcommand, anyNonZero_append, anyNonZero_append, hstart]
  rfl

section Flash

variable {build : Build} {env : Env} {world after : World} {partition : MtdPartition}
variable {flash : Flash partition} {writeSize : Nat} {data : Bytes}

/-- `get_args` on a system that keeps the message on flash. -/
theorem OnFlash.getArgs_exec
    {argv argv' : List Bytes} (hflash : OnFlash env writeSize flash after)
    (hfits : MessageFits partition writeSize) (hread : readPages flash writeSize = some data)
    (hmounted : Prog.exec (World.handle env) (ensureRootPathMounted build "CACHE:".toList) world =
      (.ok 0, after))
    (hvisible : CacheVisible after)
    (hfile : fileArguments (after.files (commandPath build))
      (takeBootArguments argv (messageIn writeSize data)).1 = some argv') :
    ∃ (flash' : Flash partition) (data' : Bytes),
      Prog.exec (World.handle env) (getArgs build argv) world =
        (.ok argv', after.setFlash "misc".toList flash') ∧
      readPages flash' writeSize = some data' ∧
      messageIn writeSize data' =
        argumentMessage (takeBootArguments argv (messageIn writeSize data)).2 argv' := by
  have hlong : writeSize * miscPages ≤ (flash.streamFrom 0).length := by
    rw [readPages_eq flash hfits.size_lt] at hread
    by_contra hshort
    rw [if_neg hshort] at hread
    cases hread
  obtain ⟨-, first, rest, hgood⟩ := messageFits_of_readable hfits.page hfits.block hlong
  have hload := @OnFlash.loadMessage_exec _ build _ _ _ _ hflash hfits .zero
  rw [hread] at hload
  have hstore := @OnFlash.storeMessage_exec _ build _ _ _ _ _ _ _ hflash hfits hgood
      (argumentMessage (takeBootArguments argv (messageIn writeSize data)).2 argv') hread
  have hpages := readPages_setBlock
    (argumentMessage (takeBootArguments argv (messageIn writeSize data)).2 argv') hfits hgood
    (readPages_length hfits hread) (splice_length_le hfits _ hread)
  rw [anyNonZero_splice, anyNonZero_argumentMessage, Bool.true_or, if_pos rfl] at hpages
  refine ⟨_, _, OpenRecovery.getArgs_exec hmounted hvisible hload hfile hstore, hpages, ?_⟩
  apply messageIn_splice
  have hthree : writeSize * miscPages = writeSize * 3 := rfl
  have hdata := readPages_length hfits hread
  omega

/-- The first boot, if the lines of the file can be read. -/
theorem OnFlash.first_boot
    {file : File} {args : List Bytes} (hflash : OnFlash env writeSize flash world)
    (hfits : MessageFits partition writeSize) (hread : readPages flash writeSize = some data)
    (hnone : (messageIn writeSize data).NoArguments)
    (hcache : CacheAvailable build env world)
    (hfile : world.files (commandPath build) = some file)
    (htokens : lineTokens (maxArgs - 1) file.data = some args) (program : Bytes) :
    ∃ (flash' : Flash partition) (program' : Bytes) (boot : BootloaderMessage) (data' : Bytes)
      (final : World),
      Prog.exec (World.handle env) (getArgs build [program]) world =
        (.ok (program' :: args), final) ∧
      OnFlash env writeSize flash' final ∧ final.files = world.files ∧ CacheVisible final ∧
      readPages flash' writeSize = some data' ∧
      messageIn writeSize data' = argumentMessage boot (program' :: args) := by
  obtain ⟨after, hmounted, hvisible, hremounted⟩ := hcache.exists_remounted
  have hafter := hflash.remounted hremounted
  obtain ⟨program', hprogram⟩ := hnone.takeBootArguments program
  have hfileArgs : fileArguments (after.files (commandPath build))
      (takeBootArguments [program] (messageIn writeSize data)).1 = some (program' :: args) := by
    rw [hremounted.files, hfile, hprogram, fileArguments_single, htokens]
    rfl
  obtain ⟨flash', data', hexec, hread', hmessage⟩ :=
    hafter.getArgs_exec hfits hread hmounted hvisible hfileArgs
  refine ⟨flash', program', _, data', _, hexec, hafter.setFlash flash', ?_, ?_, hread', hmessage⟩
  · rw [World.setFlash_files, hremounted.files]
  · exact hvisible.congr rfl

/-- If the first boot returns, the lines of the file could be read. -/
theorem OnFlash.lineTokens_of_exec
    {file : File} {argv : List Bytes} {final : World} (hflash : OnFlash env writeSize flash world)
    (hfits : MessageFits partition writeSize) (hread : readPages flash writeSize = some data)
    (hnone : (messageIn writeSize data).NoArguments)
    (hcache : CacheAvailable build env world)
    (hfile : world.files (commandPath build) = some file) {program : Bytes}
    (hexec : Prog.exec (World.handle env) (getArgs build [program]) world = (.ok argv, final)) :
    lineTokens (maxArgs - 1) file.data = some (argv.drop 1) := by
  obtain ⟨after, hmounted, hvisible, hremounted⟩ := hcache.exists_remounted
  have hload := @OnFlash.loadMessage_exec _ build _ _ _ _ (hflash.remounted hremounted) hfits
      .zero
  rw [hread] at hload
  obtain ⟨program', hprogram⟩ := hnone.takeBootArguments program
  have hargs := fileArguments_of_getArgs hmounted hvisible hload hexec
  rw [hremounted.files, hfile, hprogram, fileArguments_single, Option.map_eq_some_iff] at hargs
  obtain ⟨args, htokens, rfl⟩ := hargs
  exact htokens

/-- The next boot. -/
theorem OnFlash.next_boot
    {argv argv' : List Bytes} {boot : BootloaderMessage}
    (hflash : OnFlash env writeSize flash world) (hfits : MessageFits partition writeSize)
    (hread : readPages flash writeSize = some data)
    (hmessage : messageIn writeSize data = argumentMessage boot argv)
    (hcache : CacheAvailable build env world) (program : Bytes)
    (hfile : fileArguments (world.files (commandPath build))
      (takeBootArguments [program] (argumentMessage boot argv)).1 = some argv') :
    ∃ final, Prog.exec (World.handle env) (getArgs build [program]) world =
      (.ok argv', final) := by
  obtain ⟨after, hmounted, hvisible, hremounted⟩ := hcache.exists_remounted
  have hafter := hflash.remounted hremounted
  rw [← hremounted.files, ← hmessage] at hfile
  obtain ⟨flash', data', hexec, -, -⟩ :=
    hafter.getArgs_exec hfits hread hmounted hvisible hfile
  exact ⟨_, hexec⟩

theorem Rebooted.onFlash
    {env' : Env} {world' : World} (hflash : OnFlash env writeSize flash world)
    (hrebooted : Rebooted build world world')
    (hwriteSize : env'.writeSize "misc".toList = env.writeSize "misc".toList) :
    OnFlash env' writeSize flash world' where
  misc := by rw [hrebooted.partitions, hflash.misc]
  writeSize_eq := by rw [hwriteSize, hflash.writeSize_eq]
  unmarked := by rw [hrebooted.files _ (orIsBootstrapMark_ne build), hflash.unmarked]

/-- The state after a restart at which the command file is gone. -/
theorem rebooted_setFile (build : Build) (world : World) :
    Rebooted build world (world.setFile (commandPath build) none) where
  partitions := rfl
  files _ hpath := World.setFile_files_ne _ _ hpath
  command := .inr (World.setFile_files_self ..)

theorem length_le_of_argumentLength
    {args : List Bytes} (hfits : argumentLength args ≤ 1024) {arg : Bytes} (harg : arg ∈ args) :
    arg.length ≤ 1023 := by
  have hmem := List.le_sum_of_mem (List.mem_map_of_mem (f := fun arg => arg.length + 1) harg)
  unfold argumentLength at hfits
  omega

theorem OnFlash.argumentsSurvive_of_tokens
    {file : File} (hflash : OnFlash env (env.writeSize "misc".toList) flash world)
    (hfits : MessageFits partition (env.writeSize "misc".toList))
    (hread : readPages flash (env.writeSize "misc".toList) = some data)
    (hnone : (messageIn (env.writeSize "misc".toList) data).NoArguments)
    (hcache : CacheAvailable build env world)
    (hfile : world.files (commandPath build) = some file)
    (htokens : ∀ line ∈ (rawLines file.data).take (maxArgs - 1),
      IsToken isLineEnd (lineText line))
    (hroom : argumentLength (((rawLines file.data).take (maxArgs - 1)).map lineText) ≤ 1024) :
    ArgumentsSurvive build env world file.data := by
  obtain ⟨hlines, hmap⟩ := lineTokens_of_tokens fun line hline =>
    ⟨htokens line hline, length_le_of_argumentLength hroom (List.mem_map_of_mem hline)⟩
  obtain ⟨hargs, hcount⟩ := lineTokens_isToken hlines
  rw [← hmap] at hroom
  obtain ⟨args, hlist⟩ : ∃ args, args = (nonBlankLines file.data).take (maxArgs - 1) := ⟨_, rfl⟩
  rw [← hlist] at hlines hargs hcount hroom
  intro program
  obtain ⟨flash', program', boot, data', final, hexec, hfinal, hfiles, -, hread', hmessage⟩ :=
    hflash.first_boot hfits hread hnone hcache hfile hlines program
  refine ⟨program' :: args, final, hexec, hlist, ?_⟩
  intro env' world' program'' hrebooted hwriteSize hcache'
  obtain ⟨found, hfound, hiff⟩ := @takeBootArguments_argumentMessage boot (program' :: args)
      program'' hargs hcount
  obtain rfl : found = args := hiff.mpr hroom
  have hfileArgs : fileArguments (world'.files (commandPath build)) (ascii "recovery" :: found) =
      some (ascii "recovery" :: found) := by
    cases found with
    | nil =>
        rcases hrebooted.command with hsame | hgone
        · rw [hsame, hfiles, hfile, fileArguments_single, hlines]
          rfl
        · rw [hgone]
          rfl
    | cons arg args => rfl
  rw [← hfound] at hfileArgs
  obtain ⟨last, hlast⟩ := (hrebooted.onFlash hfinal hwriteSize).next_boot hfits hread' hmessage
    hcache' program'' hfileArgs
  rw [hfound] at hlast
  exact ⟨_, last, hlast, rfl⟩

theorem OnFlash.tokens_of_argumentsSurvive
    {file : File} (hflash : OnFlash env (env.writeSize "misc".toList) flash world)
    (hfits : MessageFits partition (env.writeSize "misc".toList))
    (hread : readPages flash (env.writeSize "misc".toList) = some data)
    (hnone : (messageIn (env.writeSize "misc".toList) data).NoArguments)
    (hcache : CacheAvailable build env world)
    (hfile : world.files (commandPath build) = some file)
    (hsurvive : ArgumentsSurvive build env world file.data) :
    (∀ line ∈ (rawLines file.data).take (maxArgs - 1), IsToken isLineEnd (lineText line)) ∧
      argumentLength (((rawLines file.data).take (maxArgs - 1)).map lineText) ≤ 1024 := by
  obtain ⟨argv, after, hexec, hargv, hnext⟩ := hsurvive []
  have hlines := hflash.lineTokens_of_exec hfits hread hnone hcache hfile hexec
  rw [hargv] at hlines hnext
  obtain ⟨hargs, hcount⟩ := lineTokens_isToken hlines
  obtain ⟨flash', program', boot, data', final, hexec', hfinal, -, hvisible, hread', hmessage⟩ :=
    hflash.first_boot hfits hread hnone hcache hfile hlines []
  obtain rfl : after = final := (Prod.mk.inj (hexec.symm.trans hexec')).2
  have hrebooted := rebooted_setFile build after
  have hvisible' : CacheVisible (after.setFile (commandPath build) none) := hvisible.congr rfl
  have hcache' := hvisible'.available build env
  obtain ⟨argv', last, hlast, hsame⟩ := hnext env _ [] hrebooted rfl hcache'
  obtain ⟨found, hfound, hiff⟩ := @takeBootArguments_argumentMessage boot
      (program' :: (nonBlankLines file.data).take (maxArgs - 1)) [] hargs hcount
  have hfileArgs : fileArguments
      ((after.setFile (commandPath build) none).files (commandPath build))
      (ascii "recovery" :: found) = some (ascii "recovery" :: found) := by
    rw [World.setFile_files_self]
    cases found with
    | nil => rfl
    | cons arg args => rfl
  rw [← hfound] at hfileArgs
  obtain ⟨last', hlast'⟩ := (hrebooted.onFlash hfinal rfl).next_boot hfits hread' hmessage
    hcache' [] hfileArgs
  have hargv' : argv' = ascii "recovery" :: found := by
    rw [← hfound]
    exact Except.ok.inj (Prod.mk.inj (hlast.symm.trans hlast')).1
  rw [hargv'] at hsame
  have hroom := hiff.mp hsame
  have htokens := tokens_of_lineTokens hlines fun arg harg =>
    length_le_of_argumentLength hroom harg
  refine ⟨fun line hline => (htokens line hline).1, ?_⟩
  rw [← (lineTokens_of_tokens htokens).2]
  exact hroom

end Flash

/-! ## The bootstrap marker -/

/-- The message that the marker file stands for. -/
def bootstrapMessage (marked : Bool) : BootloaderMessage :=
  if marked then
    { BootloaderMessage.zero with
      command := strcpy BootloaderMessage.zero.command (ascii "boot-recovery")
      recovery := strcpy BootloaderMessage.zero.recovery (ascii "recovery\n") }
  else
    { BootloaderMessage.zero with
      command := strcpy BootloaderMessage.zero.command []
      recovery := strcpy BootloaderMessage.zero.recovery [] }

instance (message : BootloaderMessage) : Decidable message.NoArguments :=
  inferInstanceAs (Decidable (_ ≤ _))

theorem bootstrapMessage_noArguments (marked : Bool) : (bootstrapMessage marked).NoArguments := by
  cases marked with
  | false => decide
  | true => decide

section Bootstrap

variable {build : Build} {env : Env} {world : World} {mark : File}

theorem loadMessage_exec_bootstrap (hmark : world.files orIsBootstrapMark = some mark) :
    Prog.exec (World.handle env) (loadMessage build .zero) world =
      (.ok (0, bootstrapMessage (world.files orDoBootstrapMark).isSome), world) := by
  have hstat : ∀ path, Prog.exec (World.handle env) (call (.stat path)) world =
      (.ok ((world.files path).map fun file =>
        ⟨file.data.length, file.mode, file.uid, file.gid, true⟩), world) := fun _ => rfl
  rw [loadMessage, Prog.exec_bind_ok (hstat _), hmark]
  simp only [Option.map_some]
  rw [Prog.exec_bind_ok (hstat _)]
  cases world.files orDoBootstrapMark with
  | none => rfl
  | some file => rfl

/-- Storing a message touches only the marker. -/
theorem storeMessage_exec_bootstrap
    (hmark : world.files orIsBootstrapMark = some mark) (message : BootloaderMessage) :
    ∃ file, Prog.exec (World.handle env) (storeMessage build message) world =
      (.ok 0, world.setFile orDoBootstrapMark file) := by
  have hstat : Prog.exec (World.handle env) (call (.stat orIsBootstrapMark)) world =
      (.ok (some ⟨mark.data.length, mark.mode, mark.uid, mark.gid, true⟩), world) := by
    rw [call, Prog.exec_lift, Prog.ask, Prog.run_request, Prog.run_pure]
    simp only [World.handle, hmark, Option.map_some]
  rw [storeMessage, Prog.exec_bind_ok hstat]
  simp only
  unfold setBootstrapMark
  split_ifs
  · exact ⟨_, rfl⟩
  · exact ⟨_, rfl⟩

/-- Only the command file can give arguments. -/
theorem getArgs_exec_bootstrap
    {args : List Bytes} (hmark : world.files orIsBootstrapMark = some mark)
    (hcache : CacheAvailable build env world)
    (hargs : ∀ program, fileArguments (world.files (commandPath build)) [program] =
      some (program :: args)) (program : Bytes) :
    ∃ program' mounts file,
      Prog.exec (World.handle env) (getArgs build [program]) world =
        (.ok (program' :: args),
          ({ world with mounts := mounts } : World).setFile orDoBootstrapMark file) ∧
      CacheVisible { world with mounts := mounts } := by
  obtain ⟨after, hmounted, hvisible, mounts, rfl⟩ := hcache.exists_remounted
  have hload := @loadMessage_exec_bootstrap build env { world with mounts := mounts } _ hmark
  obtain ⟨program', hprogram⟩ := (bootstrapMessage_noArguments
    (world.files orDoBootstrapMark).isSome).takeBootArguments program
  obtain ⟨file, hstore⟩ := @storeMessage_exec_bootstrap build env { world with mounts := mounts }
      _ hmark (argumentMessage (takeBootArguments [program]
      (bootstrapMessage (world.files orDoBootstrapMark).isSome)).2 (program' :: args))
  refine ⟨program', mounts, file, getArgs_exec hmounted hvisible hload ?_ hstore, hvisible⟩
  rw [hprogram]
  exact hargs program'

/-- With the marker only the absence of arguments survives. -/
theorem argumentsSurvive_bootstrap_iff
    {file : File} (hmark : world.files orIsBootstrapMark = some mark)
    (hcache : CacheAvailable build env world)
    (hfile : world.files (commandPath build) = some file) :
    ArgumentsSurvive build env world file.data ↔ file.data = [] := by
  constructor
  · intro hsurvive
    obtain ⟨argv, after, hexec, hargv, hnext⟩ := hsurvive []
    obtain ⟨middle, hmounted, hvisible, mounts, rfl⟩ := hcache.exists_remounted
    have hload := @loadMessage_exec_bootstrap build env { world with mounts := mounts } _ hmark
    obtain ⟨program, hprogram⟩ := (bootstrapMessage_noArguments
      (world.files orDoBootstrapMark).isSome).takeBootArguments []
    have hread := fileArguments_of_getArgs hmounted hvisible hload hexec
    rw [hprogram, hfile, fileArguments_single, Option.map_eq_some_iff] at hread
    obtain ⟨args, hlines, rfl⟩ := hread
    have hargs : ∀ program, fileArguments (world.files (commandPath build)) [program] =
        some (program :: args) := by
      intro program
      rw [hfile, fileArguments_single, hlines]
      rfl
    obtain ⟨program', mounts', marker, hexec', hvisible'⟩ :=
      getArgs_exec_bootstrap hmark hcache hargs []
    obtain rfl := (Prod.mk.inj (hexec.symm.trans hexec')).2
    have hvisible'' : CacheVisible ((({ world with mounts := mounts' } : World).setFile
        orDoBootstrapMark marker).setFile (commandPath build) none) := hvisible'.congr rfl
    have hcache' := hvisible''.available build env
    have hmark' : ((({ world with mounts := mounts' } : World).setFile
        orDoBootstrapMark marker).setFile (commandPath build) none).files orIsBootstrapMark =
          some mark := by
      rw [World.setFile_files_ne _ _ (orIsBootstrapMark_ne build),
        World.setFile_files_ne _ _ (by decide)]
      exact hmark
    obtain ⟨argv', last, hlast, hsame⟩ := hnext env _ [] (rebooted_setFile build _) rfl hcache'
    obtain ⟨program'', mounts'', marker', hlast', -⟩ := @getArgs_exec_bootstrap _ _ _ _ [] hmark'
        hcache' (by
        intro program
        rw [World.setFile_files_self]
        rfl) []
    obtain rfl : argv' = [program''] := Except.ok.inj (Prod.mk.inj (hlast.symm.trans hlast')).1
    obtain rfl : [] = args := hsame
    exact lineTokens_eq_some_nil hlines
  · intro hempty program
    have hargs : ∀ program, fileArguments (world.files (commandPath build)) [program] =
        some [program] := by
      intro program
      rw [hfile, fileArguments_single, hempty, lineTokens_nil]
      rfl
    obtain ⟨program', mounts, marker, hexec, -⟩ := getArgs_exec_bootstrap hmark hcache hargs program
    refine ⟨[program'], _, hexec, by rw [hempty]; rfl, ?_⟩
    intro env' world' program'' hrebooted hwriteSize hcache'
    have hmark' : world'.files orIsBootstrapMark = some mark := by
      rw [hrebooted.files _ (orIsBootstrapMark_ne build), World.setFile_files_ne _ _ (by decide)]
      exact hmark
    have hargs' : ∀ program, fileArguments (world'.files (commandPath build)) [program] =
        some [program] := by
      intro program
      rcases hrebooted.command with hsame | hgone
      · rw [hsame, World.setFile_files_ne _ _ (orDoBootstrapMark_ne build).symm]
        exact hargs program
      · rw [hgone]
        rfl
    obtain ⟨last, mounts', marker', hlast, -⟩ :=
      getArgs_exec_bootstrap hmark' hcache' hargs' program''
    exact ⟨_, _, hlast, rfl⟩

end Bootstrap

/-- The arguments survive a restart exactly if every line that is read is a
token, and the message has room for them; with the bootstrap marker, if there
are none. -/
theorem getArgs_survives_iff
    (build : Build) (env : Env) (world : World) (file : File)
    (hfile : world.files (commandPath build) = some file)
    (hcache : CacheAvailable build env world)
    (hstored : world.files orIsBootstrapMark = none → StoresNoArguments env world) :
    ArgumentsSurvive build env world file.data ↔
      if world.files orIsBootstrapMark = none then
        (∀ line ∈ (rawLines file.data).take (maxArgs - 1), IsToken isLineEnd (lineText line)) ∧
          argumentLength (((rawLines file.data).take (maxArgs - 1)).map lineText) ≤ 1024
      else file.data = [] := by
  split
  case isTrue hunmarked =>
    obtain ⟨partition, flash, data, hmisc, hfits, hread, hnone⟩ := hstored hunmarked
    have hflash : OnFlash env (env.writeSize "misc".toList) flash world := ⟨hmisc, rfl, hunmarked⟩
    constructor
    · exact hflash.tokens_of_argumentsSurvive hfits hread hnone hcache hfile
    · rintro ⟨htokens, hroom⟩
      exact hflash.argumentsSurvive_of_tokens hfits hread hnone hcache hfile htokens hroom
  case isFalse hmarked =>
    obtain ⟨mark, hmark⟩ := Option.ne_none_iff_exists'.mp hmarked
    exact argumentsSurvive_bootstrap_iff hmark hcache hfile

/-! ## A factory reset -/

/-- The build that calls `get_args`. -/
def liteBuild : Build := ⟨true, true⟩

def wipeData : File := ⟨ascii "--wipe_data\n", 0o644, 0, 0⟩

/-- A system that was told to erase the user data, with or without the
bootstrap mark. -/
def resetWorld (marked : Bool) : World where
  files path :=
    if path = commandPath liteBuild then some wipeData
    else if marked ∧ path = orIsBootstrapMark then some ⟨[], 0, 0, 0⟩
    else none
  partitions name := if name = "misc".toList then some ⟨samplePartition, sampleFlash⟩ else none
  stdout := []
  mounts := [cacheMount]

theorem resetWorld_command (marked : Bool) :
    (resetWorld marked).files (commandPath liteBuild) = some wipeData := by
  simp [resetWorld]

theorem resetWorld_available (marked : Bool) (env : Env) :
    CacheAvailable liteBuild env (resetWorld marked) := by
  have hmounts : scannedVolumes [cacheMount] = [cacheMount] := by
    decide
  have hvisible : CacheVisible (resetWorld marked) := by
    rw [CacheVisible, scanFits_iff_scanned, resetWorld, hmounts]
    decide
  exact hvisible.available liteBuild env

theorem sampleFlash_readPages : readPages sampleFlash 2048 = some (List.replicate 6144 0xFF) := by
  have hlong : 2048 * miscPages ≤ (sampleFlash.streamFrom 0).length := by
    rw [sampleFlash_streamFrom_length]
    decide
  rw [readPages_eq _ (by decide), if_pos hlong, sampleFlash_streamFrom,
    List.take_append_of_le_length (by rw [List.length_replicate]; decide), List.take_replicate]
  rfl

theorem getArgs_survives_wipe_data :
    ArgumentsSurvive liteBuild sampleEnv (resetWorld false) wipeData.data := by
  refine (getArgs_survives_iff liteBuild sampleEnv (resetWorld false) wipeData
    (resetWorld_command false) (resetWorld_available false _) fun _ => ?_).mpr ?_
  · refine ⟨samplePartition, sampleFlash, _, by simp [resetWorld], ⟨by decide, by decide, by decide⟩,
      sampleFlash_readPages, ?_⟩
    decide +kernel
  · have hunmarked : (resetWorld false).files orIsBootstrapMark = none := by decide
    rw [if_pos hunmarked]
    refine ⟨?_, by decide⟩
    intro line hline
    obtain rfl : line = wipeData.data := by
      have hlines : (rawLines wipeData.data).take (maxArgs - 1) = [wipeData.data] := by decide
      rwa [hlines, List.mem_singleton] at hline
    exact ⟨by decide, forall_mem_of_all (by decide)⟩

/-- With the bootstrap mark a factory reset is forgotten at the next boot. -/
theorem getArgs_loses_wipe_data :
    ¬ ArgumentsSurvive liteBuild sampleEnv (resetWorld true) wipeData.data := by
  rw [@argumentsSurvive_bootstrap_iff _ _ _ ⟨[], 0, 0, 0⟩ _ (by decide)
      (resetWorld_available true _) (resetWorld_command true)]
  decide

end OpenRecovery
