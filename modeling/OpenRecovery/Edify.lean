import OpenRecovery.BsPatch
import OpenRecovery.Bootloader
import Mathlib

/-!
# The expression evaluator of `edify/expr.c`

An expression is a call of a function.  The function is given its arguments
unevaluated and decides itself which of them to evaluate, so it sees every
argument as a computation that can be started, together with the place of the
argument in the script.  Evaluation may issue requests, changes the error
message of the state, and is `Stuck` where the code would read a missing
argument.  Messages to `stderr` are left out.
-/

namespace OpenRecovery.Edify

open Effects

/-- The requests of the evaluator itself, and those of the functions that are
added to it. -/
inductive EdifyOp (Op : Type) where
  | sleep (seconds : Nat)
  | stdout (text : Bytes)
  | other (op : Op)

@[reducible] def EdifyOp.Reply {Op : Type} (Reply : Op → Type) : EdifyOp Op → Type
  | .sleep _ => Unit
  | .stdout _ => Unit
  | .other op => Reply op

/-- A string, or a blob, which may be without data. -/
inductive Value where
  | string (data : Bytes)
  | blob (data : Option Bytes)
  deriving DecidableEq

structure State where
  script : Bytes
  errmsg : Option Bytes
  deriving DecidableEq

/-- What keeps an evaluation from returning: it reads an argument that the call does
not have, or the code of a function gets stuck. -/
inductive Fault where
  | missingArgument
  | stuck (reason : Stuck)
  deriving DecidableEq

section Evaluation

variable (ε Op : Type) (Reply : Op → Type)

/-- Computations with a state and requests, which may end in an error of type `ε`. -/
abbrev EvalT (α : Type) :=
  StateT State (ExceptT ε (Prog (EdifyOp Op) (EdifyOp.Reply Reply))) α

abbrev Eval (α : Type) := EvalT Fault Op Reply α

/-- An argument as the called function sees it: what `EvaluateValue` does with
it, and where it stands in the script. -/
structure Arg where
  evaluateValue : Eval Op Reply (Option Value)
  start : Nat
  stop : Nat

/-- A function is called with its name and its arguments.  The result `none`
is a null pointer. -/
abbrev Function := Bytes → List (Arg Op Reply) → Eval Op Reply (Option Value)

end Evaluation

inductive Expr (F : Type) where
  | node (fn : F) (name : Bytes) (argv : List (Expr F)) (start stop : Nat)

namespace Expr

variable {F : Type}

def start : Expr F → Nat
  | .node _ _ _ start _ => start

def stop : Expr F → Nat
  | .node _ _ _ _ stop => stop

end Expr

variable {ε Op : Type} {Reply : Op → Type}

def request (op : EdifyOp Op) : EvalT ε Op Reply (EdifyOp.Reply Reply op) :=
  fun state => ExceptT.lift (Prog.ask op >>= fun reply => .pure (reply, state))

def stuck {α : Type} (error : ε) : EvalT ε Op Reply α :=
  fun _ => throw error

/-- Replace the error message and return a null pointer. -/
def fail {α : Type} (message : Bytes) : EvalT ε Op Reply (Option α) :=
  fun state => pure (none, { state with errmsg := some message })

/-- `ErrorAbort` with the message already formatted: it is cut to the size of
the buffer. -/
def errorAbort {α : Type} (message : Bytes) : EvalT ε Op Reply (Option α) :=
  fail (message.take 4095)

def booleanString (s : Bytes) : Bool :=
  s ≠ []

/-- The result of `Evaluate` from that of `EvaluateValue`. -/
def stringOf : Option Value → Eval Op Reply (Option Bytes)
  | none => pure none
  | some (.string data) => pure (some data)
  | some (.blob _) => errorAbort (ascii "expecting string, got value type 2")

/-- `Evaluate` on an argument. -/
def evaluate (arg : Arg Op Reply) : Eval Op Reply (Option Bytes) :=
  arg.evaluateValue >>= stringOf

def stringValue (str : Bytes) : EvalT ε Op Reply (Option Value) :=
  pure (some (.string str))

/-- `argv[i]`. -/
def argAt (argv : List (Arg Op Reply)) (i : Nat) : Eval Op Reply (Arg Op Reply) :=
  match argv[i]? with
  | some arg => pure arg
  | none => stuck .missingArgument

/-- Go on with the string unless it is a null pointer. -/
def unlessNull {α β : Type} (first : EvalT ε Op Reply (Option α))
    (rest : α → EvalT ε Op Reply (Option β)) : EvalT ε Op Reply (Option β) :=
  first >>= fun
    | none => pure none
    | some value => rest value

/-! ## Reading arguments -/

/-- The loop of `ReadArgs` and `ReadValueArgs`: the first `count` arguments, up
to one that fails. -/
def readCount {α : Type} (read : Arg Op Reply → Eval Op Reply (Option α)) :
    (count : Nat) → List (Arg Op Reply) → Eval Op Reply (Option (List α))
  | 0, _ => pure (some [])
  | _ + 1, [] => stuck .missingArgument
  | count + 1, arg :: argv =>
      unlessNull (read arg) fun value =>
        unlessNull (readCount read count argv) fun values => pure (some (value :: values))

def readArgs (argv : List (Arg Op Reply)) (count : Nat) : Eval Op Reply (Option (List Bytes)) :=
  readCount evaluate count argv

def readVarArgs (argv : List (Arg Op Reply)) : Eval Op Reply (Option (List Bytes)) :=
  readCount evaluate argv.length argv

def readValueVarArgs (argv : List (Arg Op Reply)) : Eval Op Reply (Option (List Value)) :=
  readCount Arg.evaluateValue argv.length argv

/-! ## Numbers -/

def isSpace (byte : UInt8) : Bool :=
  byte = 32 || (9 ≤ byte && byte ≤ 13)

def isDigit (byte : UInt8) : Bool :=
  48 ≤ byte && byte ≤ 57

def decimal (digits : Bytes) : Nat :=
  digits.foldl (fun value digit => 10 * value + (digit.toNat - 48)) 0

/-- A number as a `long` of 32 bits. -/
def saturate (value : Int) : Int :=
  max (-2 ^ 31) (min value (2 ^ 31 - 1))

/-- The sign in front of a number, and what follows it. -/
def splitSign : Bytes → Bool × Bytes
  | 45 :: rest => (true, rest)
  | 43 :: rest => (false, rest)
  | rest => (false, rest)

/-- `strtol` in base ten: the number, and the text from where the scan ended. -/
def strtol (text : Bytes) : Int × Bytes :=
  let (negative, rest) := splitSign (text.dropWhile isSpace)
  let digits := rest.takeWhile isDigit
  if digits = [] then (0, text)
  else
    (saturate (if negative then -(decimal digits : Int) else decimal digits),
      rest.drop digits.length)

/-- The number that a whole string stands for. -/
def wholeInt (text : Bytes) : Option Int :=
  let (value, stop) := strtol text
  if text = [] ∨ stop ≠ [] then none else some value

/-- The text from the first occurrence of `needle` on. -/
def strstr (haystack needle : Bytes) : Option Bytes :=
  if needle.isPrefixOf haystack then some haystack
  else
    match haystack with
    | [] => none
    | _ :: rest => strstr rest needle

/-- The string for a truth value. -/
def boolean (value : Bool) : Bytes :=
  if value then ascii "t" else []

/-! ## The functions of `expr.c` -/

def literal : Function Op Reply := fun name _ =>
  stringValue name

def concatFn : Function Op Reply := fun _ argv =>
  unlessNull (readVarArgs argv) fun strings => stringValue strings.flatten

def ifElseFn : Function Op Reply := fun _ argv =>
  if argv.length ≠ 2 ∧ argv.length ≠ 3 then
    fail (ascii "ifelse expects 2 or 3 arguments")
  else do
    let first ← argAt argv 0
    unlessNull (evaluate first) fun cond =>
      if booleanString cond then do
        let second ← argAt argv 1
        second.evaluateValue
      else if argv.length = 3 then do
        let third ← argAt argv 2
        third.evaluateValue
      else
        stringValue cond

/-- The message of `abort`, which is missing also when its evaluation failed. -/
def abortMessage (argv : List (Arg Op Reply)) : Eval Op Reply (Option Bytes) :=
  match argv with
  | [] => pure none
  | arg :: _ => evaluate arg

def abortFn : Function Op Reply := fun _ argv => do
  match ← abortMessage argv with
  | some msg => fail msg
  | none => fail (ascii "called abort()")

/-- Copy the text of an argument from the script. -/
def sourceText (arg : Arg Op Reply) : Eval Op Reply Bytes := fun state =>
  match slice state.script arg.start (arg.stop - arg.start) with
  | .ok text => pure (text, state)
  | .error reason => throw (.stuck reason)

def assertLoop : List (Arg Op Reply) → Eval Op Reply (Option Value)
  | [] => stringValue []
  | arg :: argv =>
      unlessNull (evaluate arg) fun v =>
        if booleanString v then assertLoop argv
        else do
          let text ← sourceText arg
          fail (ascii "assert failed: " ++ text)

def assertFn : Function Op Reply := fun _ argv =>
  assertLoop argv

def sleepFn : Function Op Reply := fun _ argv => do
  let arg ← argAt argv 0
  unlessNull (evaluate arg) fun val => do
    request (.sleep ((strtol val).1 % 2 ^ 32).toNat)
    stringValue val

def stdoutLoop : List (Arg Op Reply) → Eval Op Reply (Option Value)
  | [] => stringValue []
  | arg :: argv =>
      unlessNull (evaluate arg) fun v => do
        request (.stdout v)
        stdoutLoop argv

def stdoutFn : Function Op Reply := fun _ argv =>
  stdoutLoop argv

/-- `LogicalAndFn` and `LogicalOrFn`: the second operand is evaluated if the
first one has the given truth value. -/
def logicalFn (goOn : Bool) : Function Op Reply := fun _ argv => do
  let first ← argAt argv 0
  unlessNull (evaluate first) fun left =>
    if booleanString left = goOn then do
      let second ← argAt argv 1
      second.evaluateValue
    else
      stringValue left

def logicalAndFn : Function Op Reply := logicalFn true

def logicalOrFn : Function Op Reply := logicalFn false

def logicalNotFn : Function Op Reply := fun _ argv => do
  let arg ← argAt argv 0
  unlessNull (evaluate arg) fun val => stringValue (boolean !booleanString val)

/-- A function of two strings that gives a truth value. -/
def comparisonFn (holds : Bytes → Bytes → Bool) : Function Op Reply := fun _ argv => do
  let first ← argAt argv 0
  unlessNull (evaluate first) fun left => do
    let second ← argAt argv 1
    unlessNull (evaluate second) fun right => stringValue (boolean (holds left right))

def substringFn : Function Op Reply :=
  comparisonFn fun needle haystack => (strstr haystack needle).isSome

def equalityFn : Function Op Reply :=
  comparisonFn fun left right => left = right

def inequalityFn : Function Op Reply :=
  comparisonFn fun left right => left ≠ right

def sequenceFn : Function Op Reply := fun _ argv => do
  let first ← argAt argv 0
  unlessNull first.evaluateValue fun _ => do
    let second ← argAt argv 1
    second.evaluateValue

/-- Whether both strings are numbers, the first one below the second. -/
def lessThan (left right : Bytes) : Bool :=
  match wholeInt left, wholeInt right with
  | some l, some r => l < r
  | _, _ => false

/-- The two arguments that `ReadArgs` has stored. -/
def withTwo {α : Type} (args : List Bytes) (rest : Bytes → Bytes → Eval Op Reply α) :
    Eval Op Reply α :=
  match args with
  | [left, right] => rest left right
  | _ => stuck (.stuck .outOfBounds)

def lessThanIntFn : Function Op Reply := fun _ argv =>
  if argv.length ≠ 2 then
    fail (ascii "less_than_int expects 2 arguments")
  else
    unlessNull (readArgs argv 2) fun args =>
      withTwo args fun left right => stringValue (boolean (lessThan left right))

def greaterThanIntFn : Function Op Reply := fun name argv =>
  if argv.length ≠ 2 then
    fail (ascii "greater_than_int expects 2 arguments")
  else do
    let second ← argAt argv 1
    let first ← argAt argv 0
    lessThanIntFn name [second, first]

/-- The functions of `expr.c` that a tree can call. -/
inductive Builtin where
  | literal
  | concat
  | ifElse
  | abort
  | assert
  | sleep
  | stdout
  | logicalAnd
  | logicalOr
  | logicalNot
  | substring
  | equality
  | inequality
  | sequence
  | lessThanInt
  | greaterThanInt
  deriving DecidableEq

def Builtin.fn : Builtin → Function Op Reply
  | .literal => Edify.literal
  | .concat => concatFn
  | .ifElse => ifElseFn
  | .abort => abortFn
  | .assert => assertFn
  | .sleep => sleepFn
  | .stdout => stdoutFn
  | .logicalAnd => logicalAndFn
  | .logicalOr => logicalOrFn
  | .logicalNot => logicalNotFn
  | .substring => substringFn
  | .equality => equalityFn
  | .inequality => inequalityFn
  | .sequence => sequenceFn
  | .lessThanInt => lessThanIntFn
  | .greaterThanInt => greaterThanIntFn

/-! ## Whole trees -/

variable {F : Type}

mutual

/-- `EvaluateValue`, where `table` gives the code of a function. -/
def evaluateValue (table : F → Function Op Reply) : Expr F → Eval Op Reply (Option Value)
  | .node fn name argv _ _ => table fn name (arguments table argv)

/-- The arguments of a call, as the called function sees them. -/
def arguments (table : F → Function Op Reply) : List (Expr F) → List (Arg Op Reply)
  | [] => []
  | expr :: argv => ⟨evaluateValue table expr, expr.start, expr.stop⟩ :: arguments table argv

end

/-- `Evaluate` on a tree. -/
def evaluateExpr (table : F → Function Op Reply) (expr : Expr F) :
    Eval Op Reply (Option Bytes) :=
  evaluateValue table expr >>= stringOf

end OpenRecovery.Edify
