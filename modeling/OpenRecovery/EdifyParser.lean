import OpenRecovery.EdifyLexer
import OpenRecovery.Updater
import Mathlib

/-!
# The grammar of `edify/parser.y`

The parser keeps a stack of symbols and decides from the symbols on top of it and
from the next token whether to shift the token or to reduce a production.  Where
the grammar is ambiguous the declared precedences decide: an operator on the stack
is reduced unless the next token is an operator that binds tighter.  A script with
any error is refused, so recovery after an error is left out.
-/

namespace OpenRecovery.Edify

/-- The functions that the grammar uses, and those that can be called by name. -/
structure Registry (F : Type) where
  core : Builtin → F
  findFunction : Bytes → Option F

inductive Symbol (F : Type) where
  | token (token : Token)
  | expr (expr : Expr F)
  | arglist (argv : List (Expr F))

/-- A symbol with its location. -/
structure Item (F : Type) where
  symbol : Symbol F
  start : Nat
  stop : Nat

/-- The declared precedence of an operator with two operands, and its function. -/
def Token.operator : Token → Option (Nat × Builtin)
  | .semicolon => some (1, .sequence)
  | .or => some (3, .logicalOr)
  | .and => some (4, .logicalAnd)
  | .eq => some (5, .equality)
  | .ne => some (5, .inequality)
  | .plus => some (6, .concat)
  | _ => none

/-- Whether an expression can begin with the token. -/
def Token.startsExpr : Token → Bool
  | .string _ => true
  | .lparen => true
  | .not => true
  | .if => true
  | _ => false

/-- Whether the token can come after a complete argument. -/
def Token.endsArgument : Token → Bool
  | .rparen => true
  | .comma => true
  | _ => false

inductive Action (F : Type) where
  | shift
  | reduce (stack : List (Item F))
  | accept (root : Expr F)
  | error

section Parser

variable {F : Type} (registry : Registry F)

def operatorName : Bytes := ascii "(operator)"

/-- `Build`. -/
def build (fn : Builtin) (start stop : Nat) (argv : List (Expr F)) : Expr F :=
  .node (registry.core fn) operatorName argv start stop

/-- The same expression at another place. -/
def Expr.at (start stop : Nat) : Expr F → Expr F
  | .node fn name argv _ _ => .node fn name argv start stop

def shiftIf (allowed : Bool) : Action F :=
  if allowed then .shift else .error

/-- Shift a token with which an expression can begin. -/
def expectExpr (look : Option Token) : Action F :=
  shiftIf (look.any Token.startsExpr)

/-- An expression is on top of the stack, and what is below it is not an operator:
go on with an operator, or with one of the tokens that can end the expression. -/
def continueExpr (look : Option Token) (ends : Token → Bool) : Action F :=
  shiftIf (look.any fun token => token.operator.isSome || ends token)

/-- An operand is on top of the stack, and an operator of precedence `level` below it:
shift if the next operator binds tighter. -/
def bindsTighter (level : Nat) (look : Option Token) : Bool :=
  look.any fun token => token.operator.any fun operator => level < operator.1

/-- What to do when an expression is on top of the stack. -/
def exprAction (expr : Expr F) (start stop : Nat) (look : Option Token) :
    List (Item F) → Action F
  | [] =>
      match look with
      | none => .accept expr
      | some _ => continueExpr look fun _ => false
  | ⟨.token .not, start, _⟩ :: stack =>
      .reduce (⟨.expr (build registry .logicalNot start stop [expr]), start, stop⟩ :: stack)
  | ⟨.token .lparen, lstart, lstop⟩ :: ⟨.token (.string name), nstart, nstop⟩ :: stack =>
      if look.any Token.endsArgument then
        .reduce (⟨.arglist [expr], start, stop⟩ :: ⟨.token .lparen, lstart, lstop⟩ ::
          ⟨.token (.string name), nstart, nstop⟩ :: stack)
      else continueExpr look fun _ => false
  | ⟨.token .comma, _, _⟩ :: ⟨.arglist argv, start, _⟩ :: stack =>
      if look.any Token.endsArgument then
        .reduce (⟨.arglist (argv ++ [expr]), start, stop⟩ :: stack)
      else continueExpr look fun _ => false
  | ⟨.token .lparen, _, _⟩ :: _ => continueExpr look (· = .rparen)
  | ⟨.token .if, _, _⟩ :: _ => continueExpr look (· = .then)
  | ⟨.token .then, _, _⟩ :: _ => continueExpr look fun token => token = .else ∨ token = .endif
  | ⟨.token .else, _, _⟩ :: _ => continueExpr look (· = .endif)
  | ⟨.token token, _, _⟩ :: ⟨.expr left, start, _⟩ :: stack =>
      match token.operator with
      | some (level, fn) =>
          if bindsTighter level look then .shift
          else .reduce (⟨.expr (build registry fn start stop [left, expr]), start, stop⟩ :: stack)
      | none => .error
  | _ => .error

/-- The next move of the parser, from the stack and the next token. -/
def action (stack : List (Item F)) (look : Option Token) : Action F :=
  match stack with
  | ⟨.expr expr, start, stop⟩ :: stack => exprAction registry expr start stop look stack
  | ⟨.token (.string text), start, stop⟩ :: stack =>
      if look = some .lparen then .shift
      else
        .reduce (⟨.expr (.node (registry.core .literal) text [] start stop), start, stop⟩ :: stack)
  | ⟨.token .rparen, _, stop⟩ :: ⟨.expr expr, _, _⟩ :: ⟨.token .lparen, start, _⟩ :: stack =>
      .reduce (⟨.expr (expr.at start stop), start, stop⟩ :: stack)
  | ⟨.token .rparen, _, stop⟩ :: ⟨.arglist argv, _, _⟩ :: ⟨.token .lparen, _, _⟩ ::
      ⟨.token (.string name), start, _⟩ :: stack =>
      match registry.findFunction name with
      | some fn => .reduce (⟨.expr (.node fn name argv start stop), start, stop⟩ :: stack)
      | none => .error
  | ⟨.token .endif, _, stop⟩ :: ⟨.expr yes, _, _⟩ :: ⟨.token .then, _, _⟩ ::
      ⟨.expr cond, _, _⟩ :: ⟨.token .if, start, _⟩ :: stack =>
      .reduce (⟨.expr (build registry .ifElse start stop [cond, yes]), start, stop⟩ :: stack)
  | ⟨.token .endif, _, stop⟩ :: ⟨.expr no, _, _⟩ :: ⟨.token .else, _, _⟩ ::
      ⟨.expr yes, _, _⟩ :: ⟨.token .then, _, _⟩ :: ⟨.expr cond, _, _⟩ ::
      ⟨.token .if, start, _⟩ :: stack =>
      .reduce (⟨.expr (build registry .ifElse start stop [cond, yes, no]), start, stop⟩ :: stack)
  | ⟨.token .semicolon, _, stop⟩ :: ⟨.expr expr, start, exprStop⟩ :: stack =>
      if look.any Token.startsExpr then .shift
      else .reduce (⟨.expr (expr.at start exprStop), start, stop⟩ :: stack)
  | ⟨.token .lparen, lstart, lstop⟩ :: ⟨.token (.string name), start, stop⟩ :: stack =>
      if look.any Token.endsArgument then
        .reduce (⟨.arglist [], lstart, lstop⟩ :: ⟨.token .lparen, lstart, lstop⟩ ::
          ⟨.token (.string name), start, stop⟩ :: stack)
      else expectExpr look
  | ⟨.arglist _, _, _⟩ :: _ => shiftIf (look.any Token.endsArgument)
  | ⟨.token .rparen, _, _⟩ :: _ => .error
  | ⟨.token .endif, _, _⟩ :: _ => .error
  | ⟨.token .bad, _, _⟩ :: _ => .error
  | _ => expectExpr look

/-- One move; `inl` is the result of the whole parse. -/
def move (stack : List (Item F)) (input : List Lexeme) :
    Option (Expr F) ⊕ (List (Item F) × List Lexeme) :=
  match action registry stack (input.head?.map Lexeme.token) with
  | .accept root => .inl (some root)
  | .error => .inl none
  | .reduce stack => .inr (stack, input)
  | .shift =>
      match input with
      | lexeme :: input =>
          .inr (⟨.token lexeme.token, lexeme.start, lexeme.stop⟩ :: stack, input)
      | [] => .inl none

def parseLoop : (fuel : Nat) → List (Item F) → List Lexeme → Option (Expr F)
  | 0, _, _ => none
  | fuel + 1, stack, input =>
      match move registry stack input with
      | .inl root => root
      | .inr (stack, input) => parseLoop fuel stack input

/-- `yyparse` on the tokens of a script.  A token is shifted once and takes part in
at most two reductions as the token that completes a production. -/
def parse (input : List Lexeme) : Option (Expr F) :=
  parseLoop registry (3 * input.length + 1) [] input

/-- Scan and parse a script; the tree is missing if there was an error. -/
def parseScript (script : Bytes) : Except Stuck (Option (Expr F)) := do
  let lexemes ← scan 0 script
  pure (parse registry lexemes)

end Parser

/-! ## The functions of the updater -/

inductive UpdaterFn where
  | core (fn : Builtin)
  | install (fn : InstallFunction)
  deriving DecidableEq

/-- The functions that `RegisterBuiltins` registers. -/
def namedBuiltins : List (Bytes × Builtin) :=
  [(ascii "ifelse", .ifElse), (ascii "abort", .abort), (ascii "assert", .assert),
    (ascii "concat", .concat), (ascii "is_substring", .substring), (ascii "stdout", .stdout),
    (ascii "sleep", .sleep), (ascii "less_than_int", .lessThanInt),
    (ascii "greater_than_int", .greaterThanInt)]

/-- The functions that `RegisterInstallFunctions` registers, in its order. -/
def installFunctions : List InstallFunction :=
  [.mount, .isMounted, .unmount, .format, .showProgress, .setProgress, .delete, .deleteRecursive,
    .packageExtractDir, .packageExtractFile, .symlink, .setPerm, .setPermRecursive, .getprop,
    .fileGetprop, .writeRawImage, .applyPatch, .applyPatchCheck, .applyPatchSpace, .readFile,
    .sha1Check, .uiPrint, .runProgram]

def fnTable : List (Bytes × UpdaterFn) :=
  namedBuiltins.map (fun entry => (entry.1, .core entry.2)) ++
    installFunctions.map fun fn => (fn.name, .install fn)

/-- The functions of the updater.  The table is sorted by name before the first search
in it, and no name is registered twice. -/
def updaterRegistry : Registry UpdaterFn where
  core := .core
  findFunction name := fnTable.lookup name

/-- The code of a function. -/
def UpdaterFn.fn (platform : Platform) : UpdaterFn → UpdaterFunction
  | .core fn => fn.fn
  | .install fn => fn.fn platform

end OpenRecovery.Edify
