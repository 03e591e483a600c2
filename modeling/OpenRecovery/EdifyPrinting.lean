import OpenRecovery.EdifyParser
import Mathlib

/-!
# Parsing undoes printing

An expression of the language is printed with parentheses only where the declared
precedences need them.  Scanning the text gives back its tokens, because no two
neighbouring tokens run into each other, and parsing the tokens gives back the tree:
an expression that was printed for an operand of a given precedence is reduced to
one symbol before any operator that follows it is looked at.
-/

namespace OpenRecovery.Edify

/-! ## Expressions -/

/-- The contents of a quoted string. -/
structure StringLiteral where
  text : Bytes
  nulFree : 0 ∉ text
  fits : text.length < maxStringLen

/-- An entry of the table of functions. -/
structure Registered where
  name : Bytes
  fn : UpdaterFn
  registered : (name, fn) ∈ fnTable

inductive BinaryOp where
  | sequence
  | or
  | and
  | eq
  | ne
  | concat

def BinaryOp.token : BinaryOp → Token
  | .sequence => .semicolon
  | .or => .or
  | .and => .and
  | .eq => .eq
  | .ne => .ne
  | .concat => .plus

def BinaryOp.level : BinaryOp → Nat
  | .sequence => 1
  | .or => 3
  | .and => 4
  | .eq => 5
  | .ne => 5
  | .concat => 6

def BinaryOp.builtin : BinaryOp → Builtin
  | .sequence => .sequence
  | .or => .logicalOr
  | .and => .logicalAnd
  | .eq => .equality
  | .ne => .inequality
  | .concat => .concat

inductive Term where
  | literal (text : StringLiteral)
  | call (fn : Registered) (args : List Term)
  | binary (op : BinaryOp) (left right : Term)
  | not (operand : Term)
  | ifThen (cond yes : Term)
  | ifElse (cond yes no : Term)

/-- A node that the grammar builds for an operator. -/
def operatorNode (fn : Builtin) (argv : List (Expr UpdaterFn)) : Expr UpdaterFn :=
  build updaterRegistry fn 0 0 argv

mutual

/-- The tree of an expression, with all its nodes at the same place. -/
def Term.tree : Term → Expr UpdaterFn
  | .literal text => .node (.core .literal) text.text [] 0 0
  | .call fn args => .node fn.fn fn.name (Term.trees args) 0 0
  | .binary op left right => operatorNode op.builtin [left.tree, right.tree]
  | .not operand => operatorNode .logicalNot [operand.tree]
  | .ifThen cond yes => operatorNode .ifElse [cond.tree, yes.tree]
  | .ifElse cond yes no => operatorNode .ifElse [cond.tree, yes.tree, no.tree]

def Term.trees : List Term → List (Expr UpdaterFn)
  | [] => []
  | term :: terms => term.tree :: Term.trees terms

end

mutual

/-- Forget the places of all nodes. -/
def Expr.strip {F : Type} : Expr F → Expr F
  | .node fn name argv _ _ => .node fn name (Expr.stripAll argv) 0 0

def Expr.stripAll {F : Type} : List (Expr F) → List (Expr F)
  | [] => []
  | expr :: argv => expr.strip :: Expr.stripAll argv

end

/-! ## Printing -/

def hexDigitOf (digit : UInt8) : UInt8 :=
  if digit < 10 then 48 + digit else 87 + digit

/-- A byte inside a quoted string. -/
def printByte (byte : UInt8) : Bytes :=
  if byte = 10 then ascii "\\n"
  else if byte = 9 then ascii "\\t"
  else if byte = 34 then ascii "\\\""
  else if byte = 92 then ascii "\\\\"
  else if 32 ≤ byte ∧ byte < 127 then [byte]
  else ascii "\\x" ++ [hexDigitOf (byte / 16), hexDigitOf (byte % 16)]

def printLiteral (text : Bytes) : Bytes :=
  ascii "\"" ++ text.flatMap printByte ++ ascii "\""

def blank : UInt8 := 32

/-- A word with a blank on both sides. -/
def spaced (word : Bytes) : Bytes :=
  blank :: (word ++ [blank])

def BinaryOp.text : BinaryOp → Bytes
  | .sequence => ascii ";" ++ [blank]
  | .or => spaced (ascii "||")
  | .and => spaced (ascii "&&")
  | .eq => spaced (ascii "==")
  | .ne => spaced (ascii "!=")
  | .concat => spaced (ascii "+")

def parenthesize (needed : Bool) (text : Bytes) : Bytes :=
  if needed then ascii "(" ++ (text ++ ascii ")") else text

mutual

/-- The text of an expression at a place for operands that bind at least as tight as
`level`.  The left operand of an operator may bind as tight as the operator itself,
the right one has to bind tighter. -/
def Term.print : Term → (level : Nat) → Bytes
  | .literal text, _ => printLiteral text.text
  | .call fn args, _ => fn.name ++ (ascii "(" ++ (Term.printArgs args ++ ascii ")"))
  | .binary op left right, level =>
      parenthesize (op.level < level)
        (left.print op.level ++ (op.text ++ right.print (op.level + 1)))
  | .not operand, _ => ascii "!" ++ operand.print 7
  | .ifThen cond yes, _ =>
      ascii "if" ++ blank :: (cond.print 0 ++ (spaced (ascii "then") ++ (yes.print 0 ++
        blank :: ascii "endif")))
  | .ifElse cond yes no, _ =>
      ascii "if" ++ blank :: (cond.print 0 ++ (spaced (ascii "then") ++ (yes.print 0 ++
        (spaced (ascii "else") ++ (no.print 0 ++ blank :: ascii "endif")))))

def Term.printArgs : List Term → Bytes
  | [] => []
  | arg :: args => arg.print 0 ++ Term.printRest args

/-- The arguments after the first. -/
def Term.printRest : List Term → Bytes
  | [] => []
  | arg :: args => ascii "," ++ blank :: (arg.print 0 ++ Term.printRest args)

end

/-! ## The tokens of a printed expression -/

def parenthesizeTokens (needed : Bool) (tokens : List Token) : List Token :=
  if needed then .lparen :: (tokens ++ [.rparen]) else tokens

mutual

def Term.tokens : Term → (level : Nat) → List Token
  | .literal text, _ => [.string text.text]
  | .call fn args, _ => .string fn.name :: .lparen :: (Term.argTokens args ++ [.rparen])
  | .binary op left right, level =>
      parenthesizeTokens (op.level < level)
        (left.tokens op.level ++ op.token :: right.tokens (op.level + 1))
  | .not operand, _ => .not :: operand.tokens 7
  | .ifThen cond yes, _ =>
      .if :: (cond.tokens 0 ++ .then :: (yes.tokens 0 ++ [.endif]))
  | .ifElse cond yes no, _ =>
      .if :: (cond.tokens 0 ++ .then :: (yes.tokens 0 ++ .else :: (no.tokens 0 ++ [.endif])))

def Term.argTokens : List Term → List Token
  | [] => []
  | arg :: args => arg.tokens 0 ++ Term.restTokens args

def Term.restTokens : List Term → List Token
  | [] => []
  | arg :: args => .comma :: (arg.tokens 0 ++ Term.restTokens args)

end

/-! ## Scanning a printed text -/

/-- The ways in which the printer writes a token. -/
inductive Spelling : Token → Bytes → Prop where
  | quoted (literal : StringLiteral) : Spelling (.string literal.text) (printLiteral literal.text)
  | word {word : Bytes} (hne : word ≠ []) (hword : ∀ byte ∈ word, isWordByte byte) :
      Spelling (wordToken word) word
  | and : Spelling .and (ascii "&&")
  | or : Spelling .or (ascii "||")
  | eq : Spelling .eq (ascii "==")
  | ne : Spelling .ne (ascii "!=")
  | plus : Spelling .plus (ascii "+")
  | lparen : Spelling .lparen (ascii "(")
  | rparen : Spelling .rparen (ascii ")")
  | comma : Spelling .comma (ascii ",")
  | not : Spelling .not (ascii "!")
  | semicolon : Spelling .semicolon (ascii ";")

/-- No rule matches more than the word, if the text comes after it. -/
def Separates (word text : Bytes) : Prop :=
  ∀ byte ∈ text.head?, (word.head?.any isWordByte → ¬isWordByte byte) ∧ (word = ascii "!" → byte ≠ 61)

/-- The text is made of the tokens, with blanks between them. -/
inductive Spells : List Token → Bytes → Prop where
  | nil : Spells [] []
  | skip {tokens : List Token} {text : Bytes} (htext : Spells tokens text) :
      Spells tokens (blank :: text)
  | token {token : Token} {tokens : List Token} {word text : Bytes}
      (hword : Spelling token word) (hseparates : Separates word text) (htext : Spells tokens text) :
      Spells (token :: tokens) (word ++ text)

theorem hexValue_hexDigitOf {digit : UInt8} (hdigit : digit < 16) :
    hexValue (hexDigitOf digit) = some digit := by
  have hall : ∀ n : Fin 16, hexValue (hexDigitOf (UInt8.ofNat n)) = some (UInt8.ofNat n) := by
    decide
  have hn := hall ⟨digit.toNat, hdigit⟩
  rwa [UInt8.ofNat_toNat] at hn

theorem hexByte_hexDigitOf (byte : UInt8) :
    hexByte (hexDigitOf (byte / 16)) (hexDigitOf (byte % 16)) = some byte := by
  have hbyte : 16 * (byte / 16) + byte % 16 = byte := by grind
  have hhigh : byte / 16 < 16 := by grind
  have hlow : byte % 16 < 16 := by grind
  rw [hexByte, hexValue_hexDigitOf hhigh, hexValue_hexDigitOf hlow]
  exact congrArg some hbyte

theorem scanString_printByte (byte : UInt8) (rest : Bytes) :
    scanString (printByte byte ++ rest) = (scanString rest).push byte (printByte byte).length := by
  unfold printByte
  split
  · rename_i hbyte
    rw [hbyte]
    rfl
  split
  · rename_i hbyte
    rw [hbyte]
    rfl
  split
  · rename_i hbyte
    rw [hbyte]
    rfl
  split
  · rename_i hbyte
    rw [hbyte]
    rfl
  split
  · rename_i hquote hbackslash _
    simp only [List.cons_append, List.nil_append, List.length_singleton]
    rw [scanString.eq_def]
    simp [hquote, hbackslash]
  · change scanString (92 :: 120 :: hexDigitOf (byte / 16) :: hexDigitOf (byte % 16) :: rest) = _
    rw [scanString.eq_def]
    simp [hexByte_hexDigitOf, ascii]

theorem scanString_printed (text rest : Bytes) :
    scanString (text.flatMap printByte ++ 34 :: rest) =
      ⟨text, (text.flatMap printByte).length + 1, some rest⟩ := by
  induction text with
  | nil =>
      rw [List.flatMap_nil, List.nil_append, scanString.eq_def]
      rfl
  | cons byte text ih =>
      rw [List.flatMap_cons, List.append_assoc, scanString_printByte, ih, StringScan.push]
      simp only [List.length_append, Nat.add_assoc]

theorem scanStep_quoted (pos : Nat) (literal : StringLiteral) (rest : Bytes) :
    scanStep pos (printLiteral literal.text ++ rest) =
      .advance (.string literal.text) pos (printLiteral literal.text).length rest := by
  have hstring : cString literal.text = literal.text :=
    List.takeWhile_eq_self_iff.mpr fun byte hbyte =>
      decide_eq_true fun hzero => literal.nulFree (hzero ▸ hbyte)
  have htext : printLiteral literal.text ++ rest =
      34 :: (literal.text.flatMap printByte ++ 34 :: rest) := by
    simp [printLiteral, ascii]
  have hlength : (printLiteral literal.text).length =
      (literal.text.flatMap printByte).length + 1 + 1 := by
    simp [printLiteral, ascii]
  rw [htext, scanStep, if_pos rfl, scanString_printed, closeString]
  simp only [if_pos literal.fits, hstring, hlength]

theorem scanStep_word (pos : Nat) {word rest : Bytes} (hne : word ≠ [])
    (hword : ∀ byte ∈ word, isWordByte byte) (hrest : ∀ byte ∈ rest.head?, ¬isWordByte byte) :
    scanStep pos (word ++ rest) = .advance (wordToken word) pos word.length rest := by
  have htake : (word ++ rest).takeWhile isWordByte = word := by
    rw [List.takeWhile_append_of_pos hword]
    cases rest with
    | nil => simp
    | cons byte rest => rw [List.takeWhile_cons_of_neg (hrest byte rfl), List.append_nil]
  cases word with
  | nil => exact absurd rfl hne
  | cons byte word =>
      have hbyte : isWordByte byte := hword byte (List.mem_cons_self ..)
      have hquote : byte ≠ 34 := by
        rintro rfl
        exact absurd hbyte (by decide)
      rw [List.cons_append] at htake ⊢
      rw [scanStep, if_neg hquote, if_pos hbyte, htake]
      simp

theorem Spelling.scanStep {token : Token} {word text : Bytes} (hword : Spelling token word)
    (hseparates : Separates word text) (pos : Nat) :
    scanStep pos (word ++ text) = .advance token pos word.length text := by
  cases hword with
  | quoted literal => exact scanStep_quoted pos literal text
  | word hne hword =>
      refine scanStep_word pos hne hword fun byte hbyte => (hseparates byte hbyte).1 ?_
      cases word with
      | nil => exact absurd rfl hne
      | cons first word => exact hword first (List.mem_cons_self ..)
  | not =>
      cases text with
      | nil => rfl
      | cons byte text =>
          have hbyte := (hseparates byte rfl).2 rfl
          change operatorStep pos 33 (byte :: text) = _
          unfold operatorStep
          split <;> simp_all [ascii]
  | _ => rfl

theorem scanStep_blank (pos : Nat) {byte : UInt8} (text : Bytes) (hblank : isBlank byte) :
    scanStep pos (byte :: text) =
      .skip (pos + 1 + (text.takeWhile isBlank).length) (text.dropWhile isBlank) := by
  have hnot : byte ≠ 34 ∧ ¬isWordByte byte := by
    simp only [isBlank, Bool.or_eq_true, decide_eq_true_eq] at hblank
    rcases hblank with rfl | rfl <;> decide
  rw [scanStep, if_neg hnot.1, if_neg hnot.2, if_pos hblank, List.takeWhile_cons_of_pos hblank]
  simp only [List.length_cons, List.drop_succ_cons, drop_length_takeWhile, Nat.add_assoc,
    Nat.add_comm 1]

/-- A blank is skipped together with the blanks after it, as they would be alone. -/
theorem scan_blank (pos : Nat) (text : Bytes) :
    scan pos (blank :: text) = scan (pos + 1) text := by
  rw [scan_skip (scanStep_blank pos text rfl)]
  cases text with
  | nil => rfl
  | cons byte text =>
      by_cases hblank : isBlank byte
      · rw [scan_skip (scanStep_blank (pos + 1) text hblank), List.takeWhile_cons_of_pos hblank,
          List.dropWhile_cons_of_pos hblank, List.length_cons]
        congr 1
        omega
      · rw [List.takeWhile_cons_of_neg hblank, List.dropWhile_cons_of_neg hblank]
        rfl

theorem Spells.scan {tokens : List Token} {text : Bytes} (htext : Spells tokens text) (pos : Nat) :
    ∃ lexemes, scan pos text = .ok lexemes ∧ lexemes.map Lexeme.token = tokens := by
  induction htext generalizing pos with
  | nil => exact ⟨[], rfl, rfl⟩
  | skip _ ih =>
      obtain ⟨lexemes, hscan, hlexemes⟩ := ih (pos + 1)
      exact ⟨lexemes, (scan_blank pos _).trans hscan, hlexemes⟩
  | @token token tokens word text hword hseparates _ ih =>
      obtain ⟨lexemes, hscan, hlexemes⟩ := ih (pos + word.length)
      refine ⟨⟨token, pos, pos + word.length⟩ :: lexemes, ?_, ?_⟩
      · rw [scan_lexeme (hword.scanStep hseparates pos), hscan]
        rfl
      · rw [List.map_cons, hlexemes]

/-- A text that can come after any token. -/
def Closing (text : Bytes) : Prop :=
  ∀ byte ∈ text.head?, ¬isWordByte byte ∧ byte ≠ 61

theorem Spells.append {tokens tokens' : List Token} {text text' : Bytes}
    (htext : Spells tokens text) (htext' : Spells tokens' text') (hclosing : Closing text') :
    Spells (tokens ++ tokens') (text ++ text') := by
  induction htext with
  | nil => exact htext'
  | skip _ ih => exact .skip ih
  | @token token tokens word text hword hseparates _ ih =>
      rw [List.cons_append, List.append_assoc]
      refine .token hword ?_ ih
      intro byte hbyte
      cases text with
      | nil => exact ⟨fun _ => (hclosing byte hbyte).1, fun _ => (hclosing byte hbyte).2⟩
      | cons first text => exact hseparates byte hbyte

/-- A token whose spelling cannot be continued. -/
theorem Spells.mark {token : Token} {tokens : List Token} {word text : Bytes}
    (hword : Spelling token word) (hmark : word.head?.any isWordByte = false)
    (hnot : word ≠ ascii "!") (htext : Spells tokens text) :
    Spells (token :: tokens) (word ++ text) := by
  refine .token hword (fun byte _ => ⟨fun hhead => ?_, fun heq => absurd heq hnot⟩) htext
  rw [hmark] at hhead
  cases hhead

theorem Spells.keyword {word text : Bytes} {tokens : List Token} (hne : word ≠ [])
    (hword : ∀ byte ∈ word, isWordByte byte) (htext : Spells tokens text) :
    Spells (wordToken word :: tokens) (word ++ blank :: text) := by
  refine .token (.word hne hword) ?_ (.skip htext)
  intro byte hbyte
  obtain rfl := Option.some.inj hbyte
  exact ⟨fun _ => by decide, fun _ => by decide⟩

theorem fnTable_words : ∀ entry ∈ fnTable, entry.1 ≠ [] ∧ (∀ byte ∈ entry.1, isWordByte byte) ∧
    wordToken entry.1 = .string entry.1 := by
  have hall : (fnTable.all fun entry => decide (entry.1 ≠ []) &&
      (entry.1.all fun byte => decide (isWordByte byte)) &&
        decide (wordToken entry.1 = .string entry.1)) = true := by
    decide
  intro entry hentry
  have hgood := List.all_eq_true.mp hall entry hentry
  simp only [Bool.and_eq_true, decide_eq_true_eq, List.all_eq_true] at hgood
  exact ⟨hgood.1.1, hgood.1.2, hgood.2⟩

theorem Registered.word (fn : Registered) : fn.name ≠ [] ∧ (∀ byte ∈ fn.name, isWordByte byte) ∧
    wordToken fn.name = .string fn.name :=
  fnTable_words _ fn.registered

theorem spaced_append (word text : Bytes) :
    spaced word ++ text = blank :: (word ++ blank :: text) := by
  simp [spaced]

theorem BinaryOp.spells (op : BinaryOp) {tokens : List Token} {text : Bytes}
    (htext : Spells tokens text) : Spells (op.token :: tokens) (op.text ++ text) := by
  cases op with
  | sequence =>
      rw [BinaryOp.text, List.append_assoc]
      exact Spells.mark .semicolon rfl (by decide) (.skip htext)
  | or =>
      rw [BinaryOp.text, spaced_append]
      exact .skip (Spells.mark .or rfl (by decide) (.skip htext))
  | and =>
      rw [BinaryOp.text, spaced_append]
      exact .skip (Spells.mark .and rfl (by decide) (.skip htext))
  | eq =>
      rw [BinaryOp.text, spaced_append]
      exact .skip (Spells.mark .eq rfl (by decide) (.skip htext))
  | ne =>
      rw [BinaryOp.text, spaced_append]
      exact .skip (Spells.mark .ne rfl (by decide) (.skip htext))
  | concat =>
      rw [BinaryOp.text, spaced_append]
      exact .skip (Spells.mark .plus rfl (by decide) (.skip htext))

theorem closing_of_head {first : UInt8} {text : Bytes} (hword : ¬isWordByte first)
    (hne : first ≠ 61) : Closing (first :: text) := by
  intro byte hbyte
  obtain rfl := Option.some.inj hbyte
  exact ⟨hword, hne⟩

theorem BinaryOp.closing (op : BinaryOp) (text : Bytes) : Closing (op.text ++ text) := by
  cases op <;> exact closing_of_head (by decide) (by decide)

theorem spells_rparen : Spells [.rparen] (ascii ")") :=
  Spells.mark .rparen rfl (by decide) .nil

theorem closing_rparen (text : Bytes) : Closing (ascii ")" ++ text) :=
  closing_of_head (by decide) (by decide)

/-- The text of an expression does not begin with an equals sign. -/
theorem Term.print_head : ∀ (term : Term) (level : Nat) (rest : Bytes),
    ∀ byte ∈ (term.print level ++ rest).head?, byte ≠ 61
  | .literal text, level, rest => by
      intro byte hbyte
      obtain rfl := Option.some.inj hbyte
      decide
  | .call fn args, level, rest => by
      intro byte hbyte
      obtain ⟨hne, hword, -⟩ := fn.word
      obtain ⟨first, word, hname⟩ := List.exists_cons_of_ne_nil hne
      rw [Term.print, hname] at hbyte
      obtain rfl := Option.some.inj hbyte
      rintro rfl
      exact absurd (hword 61 (by rw [hname]; exact List.mem_cons_self ..)) (by decide)
  | .binary op left right, level, rest => by
      intro byte hbyte
      rw [Term.print, parenthesize] at hbyte
      split at hbyte
      · obtain rfl := Option.some.inj hbyte
        decide
      · rw [List.append_assoc] at hbyte
        exact left.print_head _ _ byte hbyte
  | .not operand, level, rest => by
      intro byte hbyte
      obtain rfl := Option.some.inj hbyte
      decide
  | .ifThen cond yes, level, rest => by
      intro byte hbyte
      obtain rfl := Option.some.inj hbyte
      decide
  | .ifElse cond yes no, level, rest => by
      intro byte hbyte
      obtain rfl := Option.some.inj hbyte
      decide

theorem closing_spaced (word text : Bytes) : Closing (spaced word ++ text) :=
  closing_of_head (by decide) (by decide)

theorem spells_endif : Spells [.endif] (blank :: ascii "endif") := by
  refine .skip ?_
  rw [← List.append_nil (ascii "endif")]
  have hword : Spelling .endif (ascii "endif") :=
    @Spelling.word (ascii "endif") (by decide) (forall_mem_of_all (by decide))
  exact .token hword (fun byte hbyte => nomatch hbyte) .nil

theorem Spells.spacedWord {word text : Bytes} {tokens : List Token} (hne : word ≠ [])
    (hword : ∀ byte ∈ word, isWordByte byte) (htext : Spells tokens text) :
    Spells (wordToken word :: tokens) (spaced word ++ text) := by
  rw [spaced_append]
  exact .skip (htext.keyword hne hword)

mutual

/-- The printed text of an expression is made of its tokens. -/
theorem Term.spells : ∀ (term : Term) (level : Nat), Spells (term.tokens level) (term.print level)
  | .literal text, level => by
      rw [Term.tokens, Term.print, ← List.append_nil (printLiteral text.text)]
      exact Spells.mark (.quoted text) rfl (by simp [printLiteral, ascii]) .nil
  | .call fn args, level => by
      obtain ⟨hne, hword, htoken⟩ := fn.word
      have hargs := (Term.spells_args args).append spells_rparen (closing_rparen [])
      rw [Term.tokens, Term.print]
      have hname : Spelling (.string fn.name) fn.name := htoken ▸ .word hne hword
      refine .token hname ?_ (Spells.mark .lparen rfl (by decide) hargs)
      intro byte hbyte
      obtain rfl := Option.some.inj hbyte
      exact ⟨fun _ => by decide, fun _ => by decide⟩
  | .binary op left right, level => by
      have hbody := (left.spells op.level).append (op.spells (right.spells (op.level + 1)))
        (op.closing _)
      rw [Term.tokens, Term.print, parenthesize, parenthesizeTokens]
      split
      · exact Spells.mark .lparen rfl (by decide) (hbody.append spells_rparen (closing_rparen []))
      · exact hbody
  | .not operand, level => by
      have hoperand := operand.spells 7
      rw [Term.tokens, Term.print]
      refine .token .not (fun byte hbyte => ⟨(fun hhead => nomatch hhead), fun _ => ?_⟩) hoperand
      exact operand.print_head 7 [] byte (by rwa [List.append_nil])
  | .ifThen cond yes, level => by
      have hyes := (yes.spells 0).append spells_endif (closing_of_head (by decide) (by decide))
      have hthen := @Spells.spacedWord (ascii "then") _ _ (by decide)
        (forall_mem_of_all (by decide)) hyes
      have hcond := (cond.spells 0).append hthen (closing_spaced _ _)
      exact @Spells.keyword (ascii "if") _ _ (by decide)
        (forall_mem_of_all (by decide)) hcond
  | .ifElse cond yes no, level => by
      have hno := (no.spells 0).append spells_endif (closing_of_head (by decide) (by decide))
      have helse := @Spells.spacedWord (ascii "else") _ _ (by decide)
        (forall_mem_of_all (by decide)) hno
      have hyes := (yes.spells 0).append helse (closing_spaced _ _)
      have hthen := @Spells.spacedWord (ascii "then") _ _ (by decide)
        (forall_mem_of_all (by decide)) hyes
      have hcond := (cond.spells 0).append hthen (closing_spaced _ _)
      exact @Spells.keyword (ascii "if") _ _ (by decide)
        (forall_mem_of_all (by decide)) hcond

theorem Term.spells_args : ∀ args : List Term, Spells (Term.argTokens args) (Term.printArgs args)
  | [] => .nil
  | arg :: args => by
      rw [Term.argTokens, Term.printArgs]
      exact (arg.spells 0).append (Term.spells_rest args).1 (Term.spells_rest args).2

theorem Term.spells_rest : ∀ args : List Term,
    Spells (Term.restTokens args) (Term.printRest args) ∧ Closing (Term.printRest args)
  | [] => ⟨.nil, fun _ hbyte => nomatch hbyte⟩
  | arg :: args => by
      rw [Term.restTokens, Term.printRest]
      have hrest := (arg.spells 0).append (Term.spells_rest args).1 (Term.spells_rest args).2
      exact ⟨Spells.mark .comma rfl (by decide) (.skip hrest),
        closing_of_head (by decide) (by decide)⟩

end

/-! ## Moves of the parser -/

section Moves

variable {F : Type} (registry : Registry F)

/-- The next token. -/
def look (input : List Lexeme) : Option Token :=
  input.head?.map Lexeme.token

/-- The parser gets from one configuration to another in a number of moves. -/
inductive Moves : Nat → List (Item F) → List Lexeme → List (Item F) → List Lexeme → Prop where
  | refl (stack : List (Item F)) (input : List Lexeme) : Moves 0 stack input stack input
  | step {count : Nat} {stack stack' stack'' : List (Item F)} {input input' input'' : List Lexeme}
      (hmove : move registry stack input = .inr (stack', input'))
      (hrest : Moves count stack' input' stack'' input'') :
      Moves (count + 1) stack input stack'' input''

/-- Whatever an expression can begin with is shifted. -/
def Ready (stack : List (Item F)) : Prop :=
  ∀ token, token.startsExpr → action registry stack (some token) = .shift

variable {registry}
variable {count count' : Nat} {stack stack' stack'' : List (Item F)}
variable {input input' input'' : List Lexeme}

theorem Moves.trans (hfirst : Moves registry count stack input stack' input')
    (hsecond : Moves registry count' stack' input' stack'' input'') :
    Moves registry (count + count') stack input stack'' input'' := by
  induction hfirst with
  | refl => rwa [Nat.zero_add]
  | step hmove _ ih =>
      rw [Nat.add_right_comm]
      exact .step hmove (ih hsecond)

theorem Moves.parseLoop (hmoves : Moves registry count stack input stack' input') (fuel : Nat) :
    parseLoop registry (count + fuel) stack input = parseLoop registry fuel stack' input' := by
  induction hmoves with
  | refl => rw [Nat.zero_add]
  | step hmove _ ih => rw [Nat.add_right_comm, Edify.parseLoop, hmove, ← ih]

theorem moves_shift {lexeme : Lexeme}
    (hshift : action registry stack (some lexeme.token) = .shift) :
    Moves registry 1 stack (lexeme :: input)
      (⟨.token lexeme.token, lexeme.start, lexeme.stop⟩ :: stack) input := by
  refine .step ?_ (.refl _ _)
  simp only [move, List.head?_cons, Option.map_some, hshift]

theorem moves_reduce (hreduce : action registry stack (look input) = .reduce stack') :
    Moves registry 1 stack input stack' input := by
  refine .step ?_ (.refl _ _)
  unfold look at hreduce
  simp only [move, hreduce]

theorem ready_of_expectExpr
    (hexpect : ∀ token, action registry stack (some token) = expectExpr (some token)) :
    Ready registry stack := by
  intro token hstarts
  rw [hexpect, expectExpr, Option.any_some, hstarts]
  rfl

theorem ready_nil : Ready registry [] :=
  ready_of_expectExpr fun _ => rfl

theorem ready_not (start stop : Nat) : Ready registry (⟨.token .not, start, stop⟩ :: stack) :=
  ready_of_expectExpr fun _ => rfl

theorem ready_if (start stop : Nat) : Ready registry (⟨.token .if, start, stop⟩ :: stack) :=
  ready_of_expectExpr fun _ => rfl

theorem ready_then (start stop : Nat) : Ready registry (⟨.token .then, start, stop⟩ :: stack) :=
  ready_of_expectExpr fun _ => rfl

theorem ready_else (start stop : Nat) : Ready registry (⟨.token .else, start, stop⟩ :: stack) :=
  ready_of_expectExpr fun _ => rfl

theorem ready_comma (start stop : Nat) : Ready registry (⟨.token .comma, start, stop⟩ :: stack) :=
  ready_of_expectExpr fun _ => rfl

theorem endsArgument_of_startsExpr {token : Token} (hstarts : token.startsExpr) :
    token.endsArgument = false := by
  cases token <;> first | rfl | cases hstarts

/-- After the parenthesis of a call there can also be its end, with which no expression begins. -/
theorem ready_call (name : Bytes) (start stop nstart nstop : Nat) :
    Ready registry (⟨.token .lparen, start, stop⟩ :: ⟨.token (.string name), nstart, nstop⟩ ::
      stack) := by
  intro token hstarts
  have hends : ¬ (some token).any Token.endsArgument = true := by
    rw [Option.any_some, endsArgument_of_startsExpr hstarts]
    exact Bool.false_ne_true
  refine (if_neg hends).trans ?_
  rw [expectExpr, Option.any_some, hstarts]
  rfl

theorem ready_lparen (start stop : Nat) :
    Ready registry (⟨.token .lparen, start, stop⟩ :: stack) := by
  cases stack with
  | nil => exact ready_of_expectExpr fun _ => rfl
  | cons item stack =>
      obtain ⟨symbol, istart, istop⟩ := item
      cases symbol with
      | expr expr => exact ready_of_expectExpr fun _ => rfl
      | arglist argv => exact ready_of_expectExpr fun _ => rfl
      | token token =>
          cases token with
          | string name => exact ready_call name start stop istart istop
          | _ => exact ready_of_expectExpr fun _ => rfl

theorem ready_operator (op : BinaryOp) {left : Expr F} (start stop lstart lstop : Nat) :
    Ready registry (⟨.token op.token, start, stop⟩ :: ⟨.expr left, lstart, lstop⟩ :: stack) := by
  cases op with
  | sequence => exact fun _ hstarts => if_pos hstarts
  | _ => exact ready_of_expectExpr fun _ => rfl

end Moves

/-! ## Parsing the tokens of an expression -/

/-- The tokens are reduced to one expression, which is the given one up to places. -/
def Reduces (tree : Expr UpdaterFn) (stack : List (Item UpdaterFn)) (lexemes rest : List Lexeme) :
    Prop :=
  ∃ expr start stop count, count ≤ 3 * lexemes.length ∧ Expr.strip expr = tree ∧
    Moves updaterRegistry count stack (lexemes ++ rest) (⟨.expr expr, start, stop⟩ :: stack) rest

/-- What can come after an operand that was printed for the given level. -/
structure Ends (level : Nat) (rest : List Lexeme) : Prop where
  loose : bindsTighter level (look rest) = false
  noCall : look rest ≠ some .lparen

theorem bindsTighter_mono {level level' : Nat} {next : Option Token} (hle : level ≤ level')
    (hloose : bindsTighter level next = false) : bindsTighter level' next = false := by
  cases next with
  | none => rfl
  | some token =>
      cases hop : token.operator with
      | none => simp [bindsTighter, hop]
      | some operator =>
          simp only [bindsTighter, Option.any_some, hop, decide_eq_false_iff_not] at hloose ⊢
          omega

theorem Ends.mono {level level' : Nat} {rest : List Lexeme} (hends : Ends level rest)
    (hle : level ≤ level') : Ends level' rest :=
  ⟨bindsTighter_mono hle hends.loose, hends.noCall⟩

/-- Tokens that cannot continue an expression. -/
theorem ends_of_token {lexeme : Lexeme} {rest : List Lexeme} {token : Token} (level : Nat)
    (htoken : lexeme.token = token) (hoperator : token.operator = none) (hcall : token ≠ .lparen) :
    Ends level (lexeme :: rest) := by
  refine ⟨?_, ?_⟩
  · simp [look, bindsTighter, htoken, hoperator]
  · simp [look, htoken, hcall]

theorem BinaryOp.ends (op : BinaryOp) {lexeme : Lexeme} {rest : List Lexeme}
    (htoken : lexeme.token = op.token) : Ends op.level (lexeme :: rest) := by
  refine ⟨?_, ?_⟩
  · cases op <;> simp [look, bindsTighter, htoken, BinaryOp.token, BinaryOp.level, Token.operator]
  · cases op <;> simp [look, htoken, BinaryOp.token]

theorem ends_seven {level : Nat} {rest : List Lexeme} (hends : Ends level rest) :
    Ends 7 rest := by
  refine ⟨?_, hends.noCall⟩
  cases hlook : look rest with
  | none => rfl
  | some token => cases token <;> rfl

@[simp] theorem strip_at {F : Type} (expr : Expr F) (start stop : Nat) :
    (expr.at start stop).strip = expr.strip := by
  cases expr with
  | node fn name argv start' stop' => rw [Expr.at, Expr.strip, Expr.strip]

section Productions

variable {stack : List (Item UpdaterFn)} {lexemes rest : List Lexeme}

theorem reduces_literal {lexeme : Lexeme} {text : Bytes} (htoken : lexeme.token = .string text)
    (hready : Ready updaterRegistry stack) (hcall : look rest ≠ some .lparen) :
    Reduces (.node (.core .literal) text [] 0 0) stack [lexeme] rest := by
  have hshift := @moves_shift _ _ _ rest _ (hready lexeme.token (by rw [htoken]; rfl))
  have hreduce : action updaterRegistry
      (⟨.token lexeme.token, lexeme.start, lexeme.stop⟩ :: stack) (look rest) =
        .reduce (⟨.expr (.node (.core .literal) text [] lexeme.start lexeme.stop), lexeme.start,
          lexeme.stop⟩ :: stack) := by
    rw [htoken]
    exact if_neg hcall
  exact ⟨_, _, _, 2, Nat.le_succ 2, rfl, hshift.trans (moves_reduce hreduce)⟩

/-- A parenthesis after a name would begin a call. -/
theorem Ready.not_name (hready : Ready updaterRegistry stack) (name : Bytes) (start stop : Nat)
    (below : List (Item UpdaterFn)) : stack ≠ ⟨.token (.string name), start, stop⟩ :: below := by
  rintro rfl
  have hshift := hready .not rfl
  have hreduce : action updaterRegistry (⟨.token (.string name), start, stop⟩ :: below)
      (some .not) = .reduce (⟨.expr (.node (.core .literal) name [] start stop), start, stop⟩ ::
        below) := rfl
  rw [hreduce] at hshift
  cases hshift

theorem action_close (hready : Ready updaterRegistry stack) (expr : Expr UpdaterFn)
    (start stop lstart lstop : Nat) :
    action updaterRegistry (⟨.expr expr, start, stop⟩ :: ⟨.token .lparen, lstart, lstop⟩ :: stack)
      (some .rparen) = .shift := by
  have hname := hready.not_name
  cases stack with
  | nil => rfl
  | cons item stack =>
      obtain ⟨symbol, start, stop⟩ := item
      cases symbol with
      | expr expr => rfl
      | arglist argv => rfl
      | token token =>
          cases token with
          | string name => exact absurd rfl (hname name start stop stack)
          | _ => rfl

theorem reduces_paren {tree : Expr UpdaterFn} {first last : Lexeme} (hfirst : first.token = .lparen)
    (hlast : last.token = .rparen) (hready : Ready updaterRegistry stack)
    (hinner : Reduces tree (⟨.token .lparen, first.start, first.stop⟩ :: stack) lexemes
      (last :: rest)) :
    Reduces tree stack (first :: (lexemes ++ [last])) rest := by
  obtain ⟨expr, start, stop, count, hcount, hstrip, hmoves⟩ := hinner
  have hshift := @moves_shift _ _ _ (lexemes ++ last :: rest) _
      (hready first.token (by rw [hfirst]; rfl))
  rw [hfirst] at hshift
  have hclose := @moves_shift _ _ _ rest last
      (hlast ▸ action_close hready expr start stop first.start first.stop)
  rw [hlast] at hclose
  have hreduce := @moves_reduce _ updaterRegistry
      (⟨.token .rparen, last.start, last.stop⟩ :: ⟨.expr expr, start, stop⟩ ::
      ⟨.token .lparen, first.start, first.stop⟩ :: stack) _ rest rfl
  refine ⟨expr.at first.start last.stop, first.start, last.stop, 1 + (count + (1 + 1)), ?_,
    (strip_at expr _ _).trans hstrip, ?_⟩
  · simp only [List.length_cons, List.length_append, List.length_nil]
    omega
  · rw [List.cons_append, List.append_assoc]
    exact hshift.trans (hmoves.trans (hclose.trans hreduce))

theorem reduces_not {tree : Expr UpdaterFn} {first : Lexeme} (hfirst : first.token = .not)
    (hready : Ready updaterRegistry stack)
    (hinner : Reduces tree (⟨.token .not, first.start, first.stop⟩ :: stack) lexemes rest) :
    Reduces (operatorNode .logicalNot [tree]) stack (first :: lexemes) rest := by
  obtain ⟨expr, start, stop, count, hcount, rfl, hmoves⟩ := hinner
  have hshift := @moves_shift _ _ _ (lexemes ++ rest) _
      (hready first.token (by rw [hfirst]; rfl))
  rw [hfirst] at hshift
  have hreduce := @moves_reduce _ updaterRegistry
      (⟨.expr expr, start, stop⟩ :: ⟨.token .not, first.start, first.stop⟩ :: stack) _ rest rfl
  refine ⟨_, _, _, _, ?_, ?_, hshift.trans (hmoves.trans hreduce)⟩
  · simp only [List.length_cons]
    omega
  · rfl

theorem action_operand (op : BinaryOp) (hloose : bindsTighter op.level (look rest) = false)
    (left right : Expr UpdaterFn) (start stop ostart ostop lstart lstop : Nat) :
    action updaterRegistry (⟨.expr right, start, stop⟩ :: ⟨.token op.token, ostart, ostop⟩ ::
        ⟨.expr left, lstart, lstop⟩ :: stack) (look rest) =
      .reduce (⟨.expr (build updaterRegistry op.builtin lstart stop [left, right]), lstart, stop⟩ ::
        stack) := by
  cases op <;> exact if_neg (ne_true_of_eq_false hloose)

theorem reduces_binary (op : BinaryOp) {left right : Expr UpdaterFn} {middle : Lexeme}
    {lexemes' : List Lexeme} (hmiddle : middle.token = op.token)
    (hshift : ∀ expr start stop,
      action updaterRegistry (⟨.expr expr, start, stop⟩ :: stack) (some op.token) = .shift)
    (hloose : bindsTighter op.level (look rest) = false)
    (hleft : Reduces left stack lexemes (middle :: (lexemes' ++ rest)))
    (hright : ∀ expr start stop, Reduces right (⟨.token op.token, middle.start, middle.stop⟩ ::
      ⟨.expr expr, start, stop⟩ :: stack) lexemes' rest) :
    Reduces (operatorNode op.builtin [left, right]) stack (lexemes ++ middle :: lexemes') rest := by
  obtain ⟨lexpr, lstart, lstop, lcount, hlcount, rfl, hlmoves⟩ := hleft
  obtain ⟨rexpr, rstart, rstop, rcount, hrcount, rfl, hrmoves⟩ := hright lexpr lstart lstop
  have hoperator := @moves_shift _ _ _ (lexemes' ++ rest) middle
      (hmiddle ▸ hshift lexpr lstart lstop)
  rw [hmiddle] at hoperator
  have hreduce := @moves_reduce _ updaterRegistry _ _ rest
      (@action_operand stack _ op hloose lexpr rexpr rstart rstop middle.start middle.stop
      lstart lstop)
  refine ⟨build updaterRegistry op.builtin lstart rstop [lexpr, rexpr], lstart, rstop,
    lcount + (1 + (rcount + 1)), ?_, rfl, ?_⟩
  · simp only [List.length_append, List.length_cons]
    omega
  · rw [List.append_assoc, List.cons_append]
    exact hlmoves.trans (hoperator.trans (hrmoves.trans hreduce))

/-- The parts of a conditional up to its second branch. -/
theorem moves_ifThen {cond yes : Expr UpdaterFn} {first second : Lexeme} {lexemes' : List Lexeme}
    (hfirst : first.token = .if) (hsecond : second.token = .then)
    (hready : Ready updaterRegistry stack)
    (hcond : Reduces cond (⟨.token .if, first.start, first.stop⟩ :: stack) lexemes
      (second :: (lexemes' ++ rest)))
    (hyes : ∀ expr start stop, Reduces yes (⟨.token .then, second.start, second.stop⟩ ::
      ⟨.expr expr, start, stop⟩ :: ⟨.token .if, first.start, first.stop⟩ :: stack) lexemes' rest) :
    ∃ cexpr cstart cstop yexpr ystart ystop count,
      count ≤ 3 * lexemes.length + 3 * lexemes'.length + 2 ∧ Expr.strip cexpr = cond ∧
      Expr.strip yexpr = yes ∧
      Moves updaterRegistry count stack (first :: (lexemes ++ second :: (lexemes' ++ rest)))
        (⟨.expr yexpr, ystart, ystop⟩ :: ⟨.token .then, second.start, second.stop⟩ ::
          ⟨.expr cexpr, cstart, cstop⟩ :: ⟨.token .if, first.start, first.stop⟩ :: stack) rest := by
  obtain ⟨cexpr, cstart, cstop, ccount, hccount, hcstrip, hcmoves⟩ := hcond
  obtain ⟨yexpr, ystart, ystop, ycount, hycount, hystrip, hymoves⟩ := hyes cexpr cstart cstop
  have hif := @moves_shift _ _ _ (lexemes ++ second :: (lexemes' ++ rest)) _
      (hready first.token (by rw [hfirst]; rfl))
  rw [hfirst] at hif
  have hthen := @moves_shift _ updaterRegistry (⟨.expr cexpr, cstart, cstop⟩ ::
      ⟨.token .if, first.start, first.stop⟩ :: stack) (lexemes' ++ rest) second
      (by rw [hsecond]; rfl)
  rw [hsecond] at hthen
  exact ⟨cexpr, cstart, cstop, yexpr, ystart, ystop, 1 + (ccount + (1 + ycount)), by omega,
    hcstrip, hystrip, hif.trans (hcmoves.trans (hthen.trans hymoves))⟩

theorem reduces_ifThen {cond yes : Expr UpdaterFn} {first second last : Lexeme}
    {lexemes' : List Lexeme} (hfirst : first.token = .if) (hsecond : second.token = .then)
    (hlast : last.token = .endif) (hready : Ready updaterRegistry stack)
    (hcond : Reduces cond (⟨.token .if, first.start, first.stop⟩ :: stack) lexemes
      (second :: (lexemes' ++ last :: rest)))
    (hyes : ∀ expr start stop, Reduces yes (⟨.token .then, second.start, second.stop⟩ ::
      ⟨.expr expr, start, stop⟩ :: ⟨.token .if, first.start, first.stop⟩ :: stack) lexemes'
      (last :: rest)) :
    Reduces (operatorNode .ifElse [cond, yes]) stack
      (first :: (lexemes ++ second :: (lexemes' ++ [last]))) rest := by
  obtain ⟨cexpr, cstart, cstop, yexpr, ystart, ystop, count, hcount, rfl, rfl, hmoves⟩ :=
    moves_ifThen hfirst hsecond hready hcond hyes
  have hendif := @moves_shift _ updaterRegistry
      (⟨.expr yexpr, ystart, ystop⟩ :: ⟨.token .then, second.start, second.stop⟩ ::
      ⟨.expr cexpr, cstart, cstop⟩ :: ⟨.token .if, first.start, first.stop⟩ :: stack) rest last
      (by rw [hlast]; rfl)
  rw [hlast] at hendif
  have hreduce := @moves_reduce _ updaterRegistry
      (⟨.token .endif, last.start, last.stop⟩ :: ⟨.expr yexpr, ystart, ystop⟩ ::
      ⟨.token .then, second.start, second.stop⟩ :: ⟨.expr cexpr, cstart, cstop⟩ ::
      ⟨.token .if, first.start, first.stop⟩ :: stack) _ rest rfl
  refine ⟨build updaterRegistry .ifElse first.start last.stop [cexpr, yexpr], first.start,
    last.stop, count + (1 + 1), ?_, rfl, ?_⟩
  · simp only [List.length_cons, List.length_append, List.length_nil]
    omega
  · simp only [List.cons_append, List.append_assoc, List.nil_append]
    exact hmoves.trans (hendif.trans hreduce)

theorem reduces_ifElse {cond yes no : Expr UpdaterFn} {first second third last : Lexeme}
    {lexemes' lexemes'' : List Lexeme} (hfirst : first.token = .if)
    (hsecond : second.token = .then) (hthird : third.token = .else) (hlast : last.token = .endif)
    (hready : Ready updaterRegistry stack)
    (hcond : Reduces cond (⟨.token .if, first.start, first.stop⟩ :: stack) lexemes
      (second :: (lexemes' ++ third :: (lexemes'' ++ last :: rest))))
    (hyes : ∀ expr start stop, Reduces yes (⟨.token .then, second.start, second.stop⟩ ::
      ⟨.expr expr, start, stop⟩ :: ⟨.token .if, first.start, first.stop⟩ :: stack) lexemes'
      (third :: (lexemes'' ++ last :: rest)))
    (hno : ∀ stack, Reduces no (⟨.token .else, third.start, third.stop⟩ :: stack) lexemes''
      (last :: rest)) :
    Reduces (operatorNode .ifElse [cond, yes, no]) stack
      (first :: (lexemes ++ second :: (lexemes' ++ third :: (lexemes'' ++ [last])))) rest := by
  obtain ⟨cexpr, cstart, cstop, yexpr, ystart, ystop, count, hcount, rfl, rfl, hmoves⟩ :=
    moves_ifThen hfirst hsecond hready hcond hyes
  obtain ⟨nexpr, nstart, nstop, ncount, hncount, rfl, hnmoves⟩ :=
    hno (⟨.expr yexpr, ystart, ystop⟩ :: ⟨.token .then, second.start, second.stop⟩ ::
      ⟨.expr cexpr, cstart, cstop⟩ :: ⟨.token .if, first.start, first.stop⟩ :: stack)
  have helse := @moves_shift _ updaterRegistry
      (⟨.expr yexpr, ystart, ystop⟩ :: ⟨.token .then, second.start, second.stop⟩ ::
      ⟨.expr cexpr, cstart, cstop⟩ :: ⟨.token .if, first.start, first.stop⟩ :: stack)
      (lexemes'' ++ last :: rest) third (by rw [hthird]; rfl)
  rw [hthird] at helse
  have hendif := @moves_shift _ updaterRegistry
      (⟨.expr nexpr, nstart, nstop⟩ :: ⟨.token .else, third.start, third.stop⟩ ::
      ⟨.expr yexpr, ystart, ystop⟩ :: ⟨.token .then, second.start, second.stop⟩ ::
      ⟨.expr cexpr, cstart, cstop⟩ :: ⟨.token .if, first.start, first.stop⟩ :: stack) rest last
      (by rw [hlast]; rfl)
  rw [hlast] at hendif
  have hreduce := @moves_reduce _ updaterRegistry
      (⟨.token .endif, last.start, last.stop⟩ :: ⟨.expr nexpr, nstart, nstop⟩ ::
      ⟨.token .else, third.start, third.stop⟩ :: ⟨.expr yexpr, ystart, ystop⟩ ::
      ⟨.token .then, second.start, second.stop⟩ :: ⟨.expr cexpr, cstart, cstop⟩ ::
      ⟨.token .if, first.start, first.stop⟩ :: stack) _ rest rfl
  refine ⟨build updaterRegistry .ifElse first.start last.stop [cexpr, yexpr, nexpr], first.start,
    last.stop, count + (1 + (ncount + (1 + 1))), ?_, rfl, ?_⟩
  · simp only [List.length_cons, List.length_append, List.length_nil]
    omega
  · simp only [List.cons_append, List.append_assoc, List.nil_append]
    exact hmoves.trans (helse.trans (hnmoves.trans (hendif.trans hreduce)))

/-- The arguments of a call, once the name and the parenthesis are on the stack. -/
def ReducesArgs (trees : List (Expr UpdaterFn)) (stack : List (Item UpdaterFn))
    (lexemes rest : List Lexeme) : Prop :=
  ∃ argv start stop count, count ≤ 3 * lexemes.length + 1 ∧ Expr.stripAll argv = trees ∧
    Moves updaterRegistry count stack (lexemes ++ rest) (⟨.arglist argv, start, stop⟩ :: stack) rest

theorem lookup_registered : ∀ entry ∈ fnTable, fnTable.lookup entry.1 = some entry.2 := by
  decide

theorem reduces_call (fn : Registered) {trees : List (Expr UpdaterFn)} {first second last : Lexeme}
    (hfirst : first.token = .string fn.name) (hsecond : second.token = .lparen)
    (hlast : last.token = .rparen) (hready : Ready updaterRegistry stack)
    (hargs : ReducesArgs trees (⟨.token .lparen, second.start, second.stop⟩ ::
      ⟨.token (.string fn.name), first.start, first.stop⟩ :: stack) lexemes (last :: rest)) :
    Reduces (.node fn.fn fn.name trees 0 0) stack (first :: second :: (lexemes ++ [last])) rest := by
  obtain ⟨argv, start, stop, count, hcount, rfl, hmoves⟩ := hargs
  have hname := @moves_shift _ _ _ (second :: (lexemes ++ last :: rest)) _
      (hready first.token (by rw [hfirst]; rfl))
  rw [hfirst] at hname
  have hopen := @moves_shift _ updaterRegistry
      (⟨.token (.string fn.name), first.start, first.stop⟩ :: stack) (lexemes ++ last :: rest)
      second (by rw [hsecond]; rfl)
  rw [hsecond] at hopen
  have hclose := @moves_shift _ updaterRegistry
      (⟨.arglist argv, start, stop⟩ :: ⟨.token .lparen, second.start, second.stop⟩ ::
      ⟨.token (.string fn.name), first.start, first.stop⟩ :: stack) rest last
      (by rw [hlast]; rfl)
  rw [hlast] at hclose
  have hfind : updaterRegistry.findFunction fn.name = some fn.fn :=
    lookup_registered _ fn.registered
  have hreduce := @moves_reduce _ updaterRegistry
      (⟨.token .rparen, last.start, last.stop⟩ :: ⟨.arglist argv, start, stop⟩ ::
      ⟨.token .lparen, second.start, second.stop⟩ ::
      ⟨.token (.string fn.name), first.start, first.stop⟩ :: stack)
      (⟨.expr (.node fn.fn fn.name argv first.start last.stop), first.start, last.stop⟩ ::
      stack) rest (by simp only [action, hfind])
  refine ⟨.node fn.fn fn.name argv first.start last.stop, first.start, last.stop,
    1 + (1 + (count + (1 + 1))), ?_, rfl, ?_⟩
  · simp only [List.length_cons, List.length_append, List.length_nil]
    omega
  · simp only [List.cons_append, List.append_assoc, List.nil_append]
    exact hname.trans (hopen.trans (hmoves.trans (hclose.trans hreduce)))

end Productions

/-! ## Contexts -/

/-- A place at which an expression of the given level can stand: it can begin there, and
an operator of that level after it is shifted. -/
structure Context (level : Nat) (stack : List (Item UpdaterFn)) : Prop where
  ready : Ready updaterRegistry stack
  shifts : ∀ (op : BinaryOp) (expr : Expr UpdaterFn) (start stop : Nat), level ≤ op.level →
    action updaterRegistry (⟨.expr expr, start, stop⟩ :: stack) (some op.token) = .shift

namespace Context

variable {stack : List (Item UpdaterFn)} {level level' : Nat} (start stop : Nat)

theorem mono (hcontext : Context level stack) (hle : level ≤ level') : Context level' stack :=
  ⟨hcontext.ready, fun op expr start stop hlevel =>
    hcontext.shifts op expr start stop (hle.trans hlevel)⟩

theorem nil : Context 0 [] :=
  ⟨ready_nil, fun op _ _ _ _ => by cases op <;> rfl⟩

theorem not : Context 7 (⟨.token .not, start, stop⟩ :: stack) := by
  refine ⟨ready_not start stop, ?_⟩
  intro op _ _ _ hlevel
  cases op <;> exact absurd hlevel (by decide)

theorem lparen : Context 0 (⟨.token .lparen, start, stop⟩ :: stack) := by
  refine ⟨ready_lparen start stop, ?_⟩
  intro op _ _ _ _
  cases stack with
  | nil => cases op <;> rfl
  | cons item stack =>
      obtain ⟨symbol, start, stop⟩ := item
      cases symbol with
      | expr expr => cases op <;> rfl
      | arglist argv => cases op <;> rfl
      | token token => cases token <;> cases op <;> rfl

theorem comma (argv : List (Expr UpdaterFn)) (astart astop : Nat) :
    Context 0 (⟨.token .comma, start, stop⟩ :: ⟨.arglist argv, astart, astop⟩ :: stack) :=
  ⟨ready_comma start stop, fun op _ _ _ _ => by cases op <;> rfl⟩

theorem «if» : Context 0 (⟨.token .if, start, stop⟩ :: stack) :=
  ⟨ready_if start stop, fun op _ _ _ _ => by cases op <;> rfl⟩

theorem «then» : Context 0 (⟨.token .then, start, stop⟩ :: stack) :=
  ⟨ready_then start stop, fun op _ _ _ _ => by cases op <;> rfl⟩

theorem «else» : Context 0 (⟨.token .else, start, stop⟩ :: stack) :=
  ⟨ready_else start stop, fun op _ _ _ _ => by cases op <;> rfl⟩

theorem operator (op : BinaryOp) (left : Expr UpdaterFn) (lstart lstop : Nat) :
    Context (op.level + 1)
      (⟨.token op.token, start, stop⟩ :: ⟨.expr left, lstart, lstop⟩ :: stack) := by
  refine ⟨ready_operator op start stop lstart lstop, ?_⟩
  intro next _ _ _ hlevel
  cases op <;> cases next <;> first | rfl | exact absurd hlevel (by decide)

end Context

theorem stripAll_append {F : Type} (first second : List (Expr F)) :
    Expr.stripAll (first ++ second) = Expr.stripAll first ++ Expr.stripAll second := by
  induction first with
  | nil => rfl
  | cons expr first ih => rw [List.cons_append, Expr.stripAll, Expr.stripAll, ih, List.cons_append]

/-- The next token after an argument. -/
theorem restTokens_look {args : List Term} {lexemes rest : List Lexeme}
    (hlexemes : lexemes.map Lexeme.token = Term.restTokens args)
    (hrest : look rest = some .rparen) :
    look (lexemes ++ rest) = some .rparen ∨ look (lexemes ++ rest) = some .comma := by
  cases args with
  | nil =>
      obtain rfl := List.map_eq_nil_iff.mp hlexemes
      exact .inl hrest
  | cons arg args =>
      obtain ⟨lexeme, lexemes, rfl, hcomma, -⟩ := List.map_eq_cons_iff.mp hlexemes
      exact .inr (congrArg some hcomma)

theorem ends_of_look {level : Nat} {rest : List Lexeme}
    (hrest : look rest = some .rparen ∨ look rest = some .comma) : Ends level rest := by
  rcases hrest with hrest | hrest
  · exact ⟨by rw [hrest]; rfl, by rw [hrest]; decide⟩
  · exact ⟨by rw [hrest]; rfl, by rw [hrest]; decide⟩

theorem any_endsArgument {rest : List Lexeme}
    (hrest : look rest = some .rparen ∨ look rest = some .comma) :
    (look rest).any Token.endsArgument = true := by
  rcases hrest with hrest | hrest <;> rw [hrest] <;> rfl

section Arguments

variable {stack : List (Item UpdaterFn)} {rest : List Lexeme}
variable (hrest : look rest = some .rparen ∨ look rest = some .comma)
include hrest

theorem moves_firstArgument (expr : Expr UpdaterFn) (name : Bytes)
    (start stop lstart lstop nstart nstop : Nat) :
    Moves updaterRegistry 1 (⟨.expr expr, start, stop⟩ :: ⟨.token .lparen, lstart, lstop⟩ ::
        ⟨.token (.string name), nstart, nstop⟩ :: stack) rest
      (⟨.arglist [expr], start, stop⟩ :: ⟨.token .lparen, lstart, lstop⟩ ::
        ⟨.token (.string name), nstart, nstop⟩ :: stack) rest :=
  moves_reduce (if_pos (any_endsArgument hrest))

theorem moves_nextArgument (expr : Expr UpdaterFn) (argv : List (Expr UpdaterFn))
    (start stop cstart cstop astart astop : Nat) :
    Moves updaterRegistry 1 (⟨.expr expr, start, stop⟩ :: ⟨.token .comma, cstart, cstop⟩ ::
        ⟨.arglist argv, astart, astop⟩ :: stack) rest
      (⟨.arglist (argv ++ [expr]), astart, stop⟩ :: stack) rest :=
  moves_reduce (if_pos (any_endsArgument hrest))

end Arguments

mutual

/-- The tokens of a printed expression are reduced to its tree. -/
theorem Term.parses : ∀ (term : Term) (level : Nat) {stack : List (Item UpdaterFn)}
    {lexemes rest : List Lexeme}, lexemes.map Lexeme.token = term.tokens level →
    Context level stack → Ends level rest → Reduces term.tree stack lexemes rest
  | .literal text, level, stack, lexemes, rest => by
      intro hlexemes hcontext hends
      obtain ⟨lexeme, lexemes, rfl, htoken, hnil⟩ := List.map_eq_cons_iff.mp hlexemes
      obtain rfl := List.map_eq_nil_iff.mp hnil
      exact reduces_literal htoken hcontext.ready hends.noCall
  | .call fn args, level, stack, lexemes, rest => by
      intro hlexemes hcontext hends
      obtain ⟨first, lexemes, rfl, hfirst, hlexemes⟩ := List.map_eq_cons_iff.mp hlexemes
      obtain ⟨second, lexemes, rfl, hsecond, hlexemes⟩ := List.map_eq_cons_iff.mp hlexemes
      obtain ⟨lexemes, tail, rfl, hargs, htail⟩ := List.map_eq_append_iff.mp hlexemes
      obtain ⟨last, tail, rfl, hlast, hnil⟩ := List.map_eq_cons_iff.mp htail
      obtain rfl := List.map_eq_nil_iff.mp hnil
      exact reduces_call fn hfirst hsecond hlast hcontext.ready
        (Term.parses_args args hargs (congrArg some hlast))
  | .binary op left right, level, stack, lexemes, rest => by
      intro hlexemes hcontext hends
      have hbody : ∀ {level : Nat} {stack : List (Item UpdaterFn)} {lexemes rest : List Lexeme},
          level ≤ op.level →
          lexemes.map Lexeme.token =
            left.tokens op.level ++ op.token :: right.tokens (op.level + 1) →
          Context level stack → Ends level rest →
          Reduces (Term.binary op left right).tree stack lexemes rest := by
        intro level stack lexemes rest hlevel hlexemes hcontext hends
        obtain ⟨lexemes, tail, rfl, hleft, htail⟩ := List.map_eq_append_iff.mp hlexemes
        obtain ⟨middle, lexemes', rfl, hmiddle, hright⟩ := List.map_eq_cons_iff.mp htail
        refine reduces_binary op hmiddle ?_ (hends.mono hlevel).loose ?_ ?_
        · exact fun expr start stop => hcontext.shifts op expr start stop hlevel
        · exact left.parses op.level hleft (hcontext.mono hlevel) (op.ends hmiddle)
        · intro expr start stop
          exact right.parses (op.level + 1) hright (Context.operator _ _ op _ _ _)
            (hends.mono (Nat.le_succ_of_le hlevel))
      rw [Term.tokens, parenthesizeTokens] at hlexemes
      split at hlexemes
      · obtain ⟨first, lexemes, rfl, hfirst, hlexemes⟩ := List.map_eq_cons_iff.mp hlexemes
        obtain ⟨lexemes, tail, rfl, hinner, htail⟩ := List.map_eq_append_iff.mp hlexemes
        obtain ⟨last, tail, rfl, hlast, hnil⟩ := List.map_eq_cons_iff.mp htail
        obtain rfl := List.map_eq_nil_iff.mp hnil
        refine reduces_paren hfirst hlast hcontext.ready ?_
        exact hbody (Nat.zero_le _) hinner (Context.lparen _ _)
          (ends_of_token 0 hlast rfl (by decide))
      · rename_i hlevel
        exact hbody (not_lt.mp (by simpa using hlevel)) hlexemes hcontext hends
  | .not operand, level, stack, lexemes, rest => by
      intro hlexemes hcontext hends
      obtain ⟨first, lexemes, rfl, hfirst, hlexemes⟩ := List.map_eq_cons_iff.mp hlexemes
      exact reduces_not hfirst hcontext.ready
        (operand.parses 7 hlexemes (Context.not _ _) (ends_seven hends))
  | .ifThen cond yes, level, stack, lexemes, rest => by
      intro hlexemes hcontext hends
      obtain ⟨first, lexemes, rfl, hfirst, hlexemes⟩ := List.map_eq_cons_iff.mp hlexemes
      obtain ⟨lexemes, tail, rfl, hcond, htail⟩ := List.map_eq_append_iff.mp hlexemes
      obtain ⟨second, tail, rfl, hsecond, htail⟩ := List.map_eq_cons_iff.mp htail
      obtain ⟨lexemes', tail, rfl, hyes, htail⟩ := List.map_eq_append_iff.mp htail
      obtain ⟨last, tail, rfl, hlast, hnil⟩ := List.map_eq_cons_iff.mp htail
      obtain rfl := List.map_eq_nil_iff.mp hnil
      refine reduces_ifThen hfirst hsecond hlast hcontext.ready ?_ ?_
      · exact cond.parses 0 hcond (Context.if _ _) (ends_of_token 0 hsecond rfl (by decide))
      · intro expr start stop
        exact yes.parses 0 hyes (Context.then _ _) (ends_of_token 0 hlast rfl (by decide))
  | .ifElse cond yes no, level, stack, lexemes, rest => by
      intro hlexemes hcontext hends
      obtain ⟨first, lexemes, rfl, hfirst, hlexemes⟩ := List.map_eq_cons_iff.mp hlexemes
      obtain ⟨lexemes, tail, rfl, hcond, htail⟩ := List.map_eq_append_iff.mp hlexemes
      obtain ⟨second, tail, rfl, hsecond, htail⟩ := List.map_eq_cons_iff.mp htail
      obtain ⟨lexemes', tail, rfl, hyes, htail⟩ := List.map_eq_append_iff.mp htail
      obtain ⟨third, tail, rfl, hthird, htail⟩ := List.map_eq_cons_iff.mp htail
      obtain ⟨lexemes'', tail, rfl, hno, htail⟩ := List.map_eq_append_iff.mp htail
      obtain ⟨last, tail, rfl, hlast, hnil⟩ := List.map_eq_cons_iff.mp htail
      obtain rfl := List.map_eq_nil_iff.mp hnil
      refine reduces_ifElse hfirst hsecond hthird hlast hcontext.ready ?_ ?_ ?_
      · exact cond.parses 0 hcond (Context.if _ _) (ends_of_token 0 hsecond rfl (by decide))
      · intro expr start stop
        exact yes.parses 0 hyes (Context.then _ _) (ends_of_token 0 hthird rfl (by decide))
      · intro stack
        exact no.parses 0 hno (Context.else _ _) (ends_of_token 0 hlast rfl (by decide))

theorem Term.parses_args : ∀ (args : List Term) {stack : List (Item UpdaterFn)}
    {lexemes rest : List Lexeme} {name : Bytes} {lstart lstop nstart nstop : Nat},
    lexemes.map Lexeme.token = Term.argTokens args → look rest = some .rparen →
    ReducesArgs (Term.trees args) (⟨.token .lparen, lstart, lstop⟩ ::
      ⟨.token (.string name), nstart, nstop⟩ :: stack) lexemes rest
  | [], stack, lexemes, rest, name, lstart, lstop, nstart, nstop => by
      intro hlexemes hrest
      obtain rfl := List.map_eq_nil_iff.mp hlexemes
      have hreduce := @moves_reduce _ updaterRegistry
          (⟨.token .lparen, lstart, lstop⟩ :: ⟨.token (.string name), nstart, nstop⟩ ::
          stack) _ rest (by rw [hrest]; rfl)
      exact ⟨_, _, _, 1, le_refl 1, rfl, hreduce⟩
  | arg :: args, stack, lexemes, rest, name, lstart, lstop, nstart, nstop => by
      intro hlexemes hrest
      obtain ⟨lexemes, tail, rfl, harg, htail⟩ := List.map_eq_append_iff.mp hlexemes
      have hnext := restTokens_look htail hrest
      obtain ⟨expr, start, stop, count, hcount, hstrip, hmoves⟩ :=
        @Term.parses arg 0 (⟨.token .lparen, lstart, lstop⟩ ::
          ⟨.token (.string name), nstart, nstop⟩ :: stack) _ (tail ++ rest) harg
            (Context.lparen _ _) (ends_of_look hnext)
      have hreduce := @moves_firstArgument stack _ hnext expr name start stop lstart lstop nstart
          nstop
      obtain ⟨argv, astart, astop, acount, hacount, hargv, hamoves⟩ :=
        @Term.parses_rest args stack _ _ name lstart lstop nstart nstop start stop [expr] htail
            hrest
      refine ⟨argv, astart, astop, count + (1 + acount), ?_, ?_, ?_⟩
      · rw [List.length_append]
        omega
      · rw [hargv, Term.trees, ← hstrip]
        rfl
      · rw [List.append_assoc]
        exact hmoves.trans (hreduce.trans hamoves)

theorem Term.parses_rest : ∀ (args : List Term) {stack : List (Item UpdaterFn)}
    {lexemes rest : List Lexeme} {name : Bytes} {lstart lstop nstart nstop astart astop : Nat}
    {argv : List (Expr UpdaterFn)},
    lexemes.map Lexeme.token = Term.restTokens args → look rest = some .rparen →
    ∃ argv' start stop count, count ≤ 3 * lexemes.length ∧
      Expr.stripAll argv' = Expr.stripAll argv ++ Term.trees args ∧
      Moves updaterRegistry count
        (⟨.arglist argv, astart, astop⟩ :: ⟨.token .lparen, lstart, lstop⟩ ::
          ⟨.token (.string name), nstart, nstop⟩ :: stack) (lexemes ++ rest)
        (⟨.arglist argv', start, stop⟩ :: ⟨.token .lparen, lstart, lstop⟩ ::
          ⟨.token (.string name), nstart, nstop⟩ :: stack) rest
  | [], stack, lexemes, rest, name, lstart, lstop, nstart, nstop, astart, astop, argv => by
      intro hlexemes hrest
      obtain rfl := List.map_eq_nil_iff.mp hlexemes
      exact ⟨argv, astart, astop, 0, Nat.zero_le _, (List.append_nil _).symm, .refl _ _⟩
  | arg :: args, stack, lexemes, rest, name, lstart, lstop, nstart, nstop, astart, astop, argv => by
      intro hlexemes hrest
      obtain ⟨comma, lexemes, rfl, hcomma, hlexemes⟩ := List.map_eq_cons_iff.mp hlexemes
      obtain ⟨lexemes, tail, rfl, harg, htail⟩ := List.map_eq_append_iff.mp hlexemes
      have hnext := restTokens_look htail hrest
      have hshift := @moves_shift _ updaterRegistry
          (⟨.arglist argv, astart, astop⟩ :: ⟨.token .lparen, lstart, lstop⟩ ::
          ⟨.token (.string name), nstart, nstop⟩ :: stack) (lexemes ++ (tail ++ rest)) comma
          (by rw [hcomma]; rfl)
      rw [hcomma] at hshift
      obtain ⟨expr, start, stop, count, hcount, hstrip, hmoves⟩ :=
        @Term.parses arg 0 (⟨.token .comma, comma.start, comma.stop⟩ ::
          ⟨.arglist argv, astart, astop⟩ :: ⟨.token .lparen, lstart, lstop⟩ ::
          ⟨.token (.string name), nstart, nstop⟩ :: stack) _ (tail ++ rest) harg
            (Context.comma _ _ _ _ _) (ends_of_look hnext)
      have hreduce := @moves_nextArgument (⟨.token .lparen, lstart, lstop⟩ ::
        ⟨.token (.string name), nstart, nstop⟩ :: stack) _ hnext expr argv start stop comma.start
          comma.stop astart astop
      obtain ⟨argv', astart', astop', acount, hacount, hargv, hamoves⟩ :=
        @Term.parses_rest args stack _ _ name lstart lstop nstart nstop astart stop
            (argv ++ [expr]) htail hrest
      refine ⟨argv', astart', astop', 1 + (count + (1 + acount)), ?_, ?_, ?_⟩
      · rw [List.length_cons, List.length_append]
        omega
      · rw [hargv, stripAll_append, Term.trees, ← hstrip, List.append_assoc]
        rfl
      · rw [List.cons_append, List.append_assoc]
        exact hshift.trans (hmoves.trans (hreduce.trans hamoves))

end

/-- Scanning and parsing the printed text of an expression gives its tree, up to the places
of its nodes. -/
theorem parseScript_print (term : Term) :
    ∃ expr, parseScript updaterRegistry (term.print 0) = .ok (some expr) ∧
      Expr.strip expr = term.tree := by
  obtain ⟨lexemes, hscan, hlexemes⟩ := (term.spells 0).scan 0
  obtain ⟨expr, start, stop, count, hcount, hstrip, hmoves⟩ :=
    @Term.parses term 0 _ _ [] hlexemes Context.nil ⟨rfl, by decide⟩
  rw [List.append_nil] at hmoves
  refine ⟨expr, ?_, hstrip⟩
  obtain ⟨fuel, hfuel⟩ := Nat.exists_eq_add_of_le hcount
  have hparse : parse updaterRegistry lexemes = some expr := by
    rw [parse, hfuel, Nat.add_assoc, hmoves.parseLoop (fuel + 1)]
    rfl
  rw [parseScript, hscan]
  exact congrArg Except.ok hparse

end OpenRecovery.Edify
