import OpenRecovery.Edify
import OpenRecovery.RecoveryArgs
import Mathlib

/-!
# The scanner of `edify/lexer.l`

At every place of the script the scanner takes the longest text that one of its
rules matches, and the first rule if several match it.  The contents of a quoted
string are collected in a buffer of fixed size.  A text with a quoted string that
does not fit is `Stuck`; a string that is not closed ends the script.
-/

namespace OpenRecovery.Edify

inductive Token where
  | string (text : Bytes)
  | and
  | or
  | eq
  | ne
  | «if»
  | «then»
  | «else»
  | endif
  | plus
  | lparen
  | rparen
  | comma
  | not
  | semicolon
  | bad
  deriving DecidableEq

/-- A token with its place in the script. -/
structure Lexeme where
  token : Token
  start : Nat
  stop : Nat
  deriving DecidableEq

def maxStringLen : Nat := 1024

/-- `[a-zA-Z0-9_:/.]`. -/
def isWordByte (byte : UInt8) : Bool :=
  (97 ≤ byte && byte ≤ 122) || (65 ≤ byte && byte ≤ 90) || (48 ≤ byte && byte ≤ 57) ||
    byte = 95 || byte = 58 || byte = 47 || byte = 46

def isBlank (byte : UInt8) : Bool :=
  byte = 32 || byte = 9

/-- The token of a word, which may be a keyword. -/
def wordToken (word : Bytes) : Token :=
  if word = ascii "if" then .if
  else if word = ascii "then" then .then
  else if word = ascii "else" then .else
  else if word = ascii "endif" then .endif
  else .string word

def hexValue (byte : UInt8) : Option UInt8 :=
  if 48 ≤ byte && byte ≤ 57 then some (byte - 48)
  else if 97 ≤ byte && byte ≤ 102 then some (byte - 87)
  else if 65 ≤ byte && byte ≤ 70 then some (byte - 55)
  else none

/-- The byte that two hexadecimal digits stand for. -/
def hexByte (high low : UInt8) : Option UInt8 := do
  let high ← hexValue high
  let low ← hexValue low
  pure (16 * high + low)

/-- What was stored in the buffer, how many bytes of the script were taken, and
the rest of the script if the string was closed. -/
structure StringScan where
  stored : Bytes
  taken : Nat
  rest : Option Bytes

def StringScan.push (byte : UInt8) (taken : Nat) (scan : StringScan) : StringScan :=
  ⟨byte :: scan.stored, taken + scan.taken, scan.rest⟩

/-- The rules for the inside of a string. -/
def scanString : Bytes → StringScan
  | [] => ⟨[], 0, none⟩
  | byte :: rest =>
      if byte = 34 then ⟨[], 1, some rest⟩
      else if byte = 92 then
        match rest with
        | 110 :: rest' => (scanString rest').push 10 2
        | 116 :: rest' => (scanString rest').push 9 2
        | 34 :: rest' => (scanString rest').push 34 2
        | 92 :: rest' => (scanString rest').push 92 2
        | 120 :: high :: low :: rest' =>
            match hexByte high low with
            | some value => (scanString rest').push value 4
            | none => (scanString (120 :: high :: low :: rest')).push 92 1
        | rest => (scanString rest).push 92 1
      else (scanString rest).push byte 1

/-- What the scanner does next. -/
inductive Step where
  | done
  | overrun
  | skip (pos : Nat) (rest : Bytes)
  | lexeme (lexeme : Lexeme) (pos : Nat) (rest : Bytes)

/-- A token that `ADVANCE` puts at the current place. -/
def Step.advance (token : Token) (pos length : Nat) (rest : Bytes) : Step :=
  .lexeme ⟨token, pos, pos + length⟩ (pos + length) rest

/-- The end of a quoted string: a zero byte is stored after its contents. -/
def closeString (pos : Nat) (scan : StringScan) : Step :=
  match scan.rest with
  | some rest =>
      if scan.stored.length < maxStringLen then
        .advance (.string (cString scan.stored)) pos (scan.taken + 1) rest
      else .overrun
  | none => if scan.stored.length ≤ maxStringLen then .done else .overrun

/-- The rules for operators, and the last rule, which does not advance. -/
def operatorStep (pos : Nat) (byte : UInt8) (rest : Bytes) : Step :=
  match byte, rest with
  | 38, 38 :: rest => .advance .and pos 2 rest
  | 124, 124 :: rest => .advance .or pos 2 rest
  | 61, 61 :: rest => .advance .eq pos 2 rest
  | 33, 61 :: rest => .advance .ne pos 2 rest
  | 43, rest => .advance .plus pos 1 rest
  | 40, rest => .advance .lparen pos 1 rest
  | 41, rest => .advance .rparen pos 1 rest
  | 44, rest => .advance .comma pos 1 rest
  | 33, rest => .advance .not pos 1 rest
  | 59, rest => .advance .semicolon pos 1 rest
  | _, rest => .lexeme ⟨.bad, pos, pos⟩ pos rest

/-- One rule of the scanner; `pos` is `gPos`. -/
def scanStep (pos : Nat) : Bytes → Step
  | [] => .done
  | byte :: rest =>
      if byte = 34 then closeString pos (scanString rest)
      else if isWordByte byte then
        let word := (byte :: rest).takeWhile isWordByte
        .advance (wordToken word) pos word.length ((byte :: rest).drop word.length)
      else if isBlank byte then
        let blanks := (byte :: rest).takeWhile isBlank
        .skip (pos + blanks.length) ((byte :: rest).drop blanks.length)
      else if byte = newline then .skip (pos + 1) rest
      else if byte = 35 ∧ newline ∈ rest then
        let comment := rest.takeWhile (· ≠ newline)
        .skip (pos + comment.length + 2) (rest.drop (comment.length + 1))
      else operatorStep pos byte rest

/-- Scan with at most `fuel` rules. -/
def scanLoop : (fuel pos : Nat) → Bytes → Except Stuck (List Lexeme)
  | 0, _, _ => .ok []
  | fuel + 1, pos, input =>
      match scanStep pos input with
      | .done => .ok []
      | .overrun => .error .outOfBounds
      | .skip pos rest => scanLoop fuel pos rest
      | .lexeme lexeme pos rest => do
          let lexemes ← scanLoop fuel pos rest
          pure (lexeme :: lexemes)

/-- All the tokens of a script.  Every rule takes at least one byte. -/
def scan (pos : Nat) (input : Bytes) : Except Stuck (List Lexeme) :=
  scanLoop (input.length + 1) pos input

/-! ## Every rule takes at least one byte -/

theorem scanString_rest_length {input rest : Bytes} (hrest : (scanString input).rest = some rest) :
    rest.length < input.length := by
  fun_induction scanString input with
  | case1 => cases hrest
  | case2 =>
      obtain rfl := Option.some.inj hrest
      exact Nat.lt_succ_self _
  | _ =>
      rename_i ih
      have hlength := ih hrest
      simp only [List.length_cons] at hlength ⊢
      omega

/-- What is left of the script after a step is shorter. -/
def Step.Shortens (length : Nat) : Step → Prop
  | .done => True
  | .overrun => True
  | .skip _ rest => rest.length < length
  | .lexeme _ _ rest => rest.length < length

theorem closeString_shortens (pos : Nat) (input : Bytes) :
    (closeString pos (scanString input)).Shortens (input.length + 1) := by
  unfold closeString
  cases hrest : (scanString input).rest with
  | none =>
      dsimp only
      split <;> trivial
  | some rest =>
      have hlength := scanString_rest_length hrest
      dsimp only
      split
      · exact Nat.lt_succ_of_lt hlength
      · trivial

theorem operatorStep_shortens (pos : Nat) (byte : UInt8) (rest : Bytes) :
    (operatorStep pos byte rest).Shortens (rest.length + 1) := by
  unfold operatorStep
  split <;> simp [Step.Shortens, Step.advance]

theorem drop_length_takeWhile (accepts : UInt8 → Bool) (text : Bytes) :
    text.drop (text.takeWhile accepts).length = text.dropWhile accepts := by
  calc
    text.drop (text.takeWhile accepts).length =
        (text.takeWhile accepts ++ text.dropWhile accepts).drop (text.takeWhile accepts).length := by
          rw [List.takeWhile_append_dropWhile]
    _ = text.dropWhile accepts := List.drop_left

theorem length_drop_takeWhile_lt {accepts : UInt8 → Bool} {byte : UInt8} (rest : Bytes)
    (hbyte : accepts byte) :
    ((byte :: rest).drop ((byte :: rest).takeWhile accepts).length).length < rest.length + 1 := by
  rw [List.takeWhile_cons_of_pos hbyte]
  simp only [List.length_cons, List.drop_succ_cons, List.length_drop]
  omega

theorem scanStep_shortens (pos : Nat) (input : Bytes) :
    (scanStep pos input).Shortens input.length := by
  cases input with
  | nil => trivial
  | cons byte rest =>
      rw [scanStep]
      split
      · exact closeString_shortens pos rest
      split
      · rename_i hword
        exact length_drop_takeWhile_lt rest hword
      split
      · rename_i hblank
        exact length_drop_takeWhile_lt rest hblank
      split
      · exact Nat.lt_succ_self rest.length
      split
      · simp only [Step.Shortens, List.length_drop, List.length_cons]
        omega
      · exact operatorStep_shortens pos byte rest

/-- More fuel than bytes changes nothing. -/
theorem scanLoop_fuel {fuel fuel' : Nat} (pos : Nat) {input : Bytes}
    (hfuel : input.length < fuel) (hfuel' : input.length < fuel') :
    scanLoop fuel pos input = scanLoop fuel' pos input := by
  induction fuel generalizing fuel' pos input with
  | zero => exact absurd hfuel (Nat.not_lt_zero _)
  | succ fuel ih =>
      obtain ⟨fuel', rfl⟩ := Nat.exists_eq_succ_of_ne_zero (Nat.ne_zero_of_lt hfuel')
      have hshortens := scanStep_shortens pos input
      rw [scanLoop, scanLoop]
      cases hstep : scanStep pos input with
      | done => rfl
      | overrun => rfl
      | skip pos' rest =>
          rw [hstep] at hshortens
          have hrest : rest.length < input.length := hshortens
          exact ih pos' (by omega) (by omega)
      | lexeme lexeme pos' rest =>
          rw [hstep] at hshortens
          have hrest : rest.length < input.length := hshortens
          dsimp only
          rw [ih pos' (by omega : rest.length < fuel) (by omega : rest.length < fuel')]

theorem scan_done {pos : Nat} {input : Bytes} (hstep : scanStep pos input = .done) :
    scan pos input = .ok [] := by
  rw [scan, scanLoop, hstep]

theorem scan_skip {pos pos' : Nat} {input rest : Bytes}
    (hstep : scanStep pos input = .skip pos' rest) : scan pos input = scan pos' rest := by
  have hshortens := scanStep_shortens pos input
  rw [hstep] at hshortens
  have hrest : rest.length < input.length := hshortens
  rw [scan, scanLoop, hstep]
  exact scanLoop_fuel pos' hrest (Nat.lt_succ_self _)

theorem scan_lexeme {pos pos' : Nat} {input rest : Bytes} {lexeme : Lexeme}
    (hstep : scanStep pos input = .lexeme lexeme pos' rest) :
    scan pos input = (scan pos' rest).map (lexeme :: ·) := by
  have hshortens := scanStep_shortens pos input
  rw [hstep] at hshortens
  have hrest : rest.length < input.length := hshortens
  rw [scan, scanLoop, hstep]
  dsimp only
  rw [scanLoop_fuel pos' hrest (Nat.lt_succ_self _), ← scan]
  cases scan pos' rest <;> rfl

end OpenRecovery.Edify
