import OpenRecovery.Edify
import Mathlib

/-!
# What an expression means

The language overview describes evaluation without saying how functions read
their arguments.  `Denotes` writes this description down as a big-step
semantics: an expression has a sequence of effects, and it either has a value
or aborts with a message.  The evaluator agrees with it: evaluating an
expression issues the requests of its effects, and nothing else, and then
returns its value, or a null pointer with the message in the state.
-/

namespace OpenRecovery.Edify

open Effects

inductive Effect where
  | sleep (seconds : Nat)
  | stdout (text : Bytes)
  deriving DecidableEq

inductive Outcome where
  | value (text : Bytes)
  | aborted (message : Bytes)
  deriving DecidableEq

/-- The string for a proposition: empty if it is false. -/
noncomputable def truth (holds : Prop) : Bytes :=
  open Classical in if holds then ascii "t" else []

/-- The text is written as an integer, with blanks and a sign before its digits,
and has the given value as a `long`. -/
def WrittenInt (text : Bytes) (value : Int) : Prop :=
  ∃ blanks digits : Bytes, (∀ byte ∈ blanks, isSpace byte) ∧
    digits ≠ [] ∧ (∀ byte ∈ digits, isDigit byte) ∧
    ((text = blanks ++ digits ∨ text = blanks ++ ascii "+" ++ digits) ∧
        value = saturate (decimal digits) ∨
      text = blanks ++ ascii "-" ++ digits ∧ value = saturate (-decimal digits))

/-- The functions of two strings that evaluate both. -/
noncomputable def Builtin.compare : Builtin → Bytes → Bytes → Option Bytes
  | .equality, left, right => some (truth (left = right))
  | .inequality, left, right => some (truth (left ≠ right))
  | .substring, left, right => some (truth (left <:+: right))
  | .lessThanInt, left, right =>
      some (truth (∃ l r, WrittenInt left l ∧ WrittenInt right r ∧ l < r))
  | _, _, _ => none

section Denotes

variable (script : Bytes)

/-- The text of an expression in its script. -/
def sourceOf (expr : Expr Builtin) : Bytes :=
  (script.drop expr.start).take (expr.stop - expr.start)

/-- `Denotes script expr trace outcome`.  First come the operators and `ifelse`,
which evaluate the operands they need, then the functions that evaluate all
their arguments, then those with effects, then assertions and aborts.  An
abort of the first argument aborts every call but `abort` itself; one of a
later argument is only seen by functions that get as far. -/
inductive Denotes : Expr Builtin → List Effect → Outcome → Prop where
  | literal {name : Bytes} {start stop : Nat} :
      Denotes (.node .literal name [] start stop) [] (.value name)
  | logicalAnd_false {name left right start stop trace} (hleft : Denotes left trace (.value [])) :
      Denotes (.node .logicalAnd name [left, right] start stop) trace (.value [])
  | logicalAnd_true {name left right start stop trace trace' text outcome}
      (hleft : Denotes left trace (.value text)) (htrue : text ≠ [])
      (hright : Denotes right trace' outcome) :
      Denotes (.node .logicalAnd name [left, right] start stop) (trace ++ trace') outcome
  | logicalOr_true {name left right start stop trace text}
      (hleft : Denotes left trace (.value text)) (htrue : text ≠ []) :
      Denotes (.node .logicalOr name [left, right] start stop) trace (.value text)
  | logicalOr_false {name left right start stop trace trace' outcome}
      (hleft : Denotes left trace (.value [])) (hright : Denotes right trace' outcome) :
      Denotes (.node .logicalOr name [left, right] start stop) (trace ++ trace') outcome
  | ifElse_true {name cond yes no start stop trace trace' text outcome}
      (hcond : Denotes cond trace (.value text)) (htrue : text ≠ [])
      (hyes : Denotes yes trace' outcome) (hno : no.length ≤ 1) :
      Denotes (.node .ifElse name (cond :: yes :: no) start stop) (trace ++ trace') outcome
  | ifElse_false {name cond yes no start stop trace trace' outcome}
      (hcond : Denotes cond trace (.value [])) (hno : Denotes no trace' outcome) :
      Denotes (.node .ifElse name [cond, yes, no] start stop) (trace ++ trace') outcome
  | if_false {name cond yes start stop trace} (hcond : Denotes cond trace (.value [])) :
      Denotes (.node .ifElse name [cond, yes] start stop) trace (.value [])
  | sequence {name left right start stop trace trace' text outcome}
      (hleft : Denotes left trace (.value text)) (hright : Denotes right trace' outcome) :
      Denotes (.node .sequence name [left, right] start stop) (trace ++ trace') outcome
  | logicalNot {name arg start stop trace text} (harg : Denotes arg trace (.value text)) :
      Denotes (.node .logicalNot name [arg] start stop) trace (.value (truth (text = [])))
  | concat_nil {name start stop} :
      Denotes (.node .concat name [] start stop) [] (.value [])
  | concat_cons {name arg argv start stop trace trace' text text'}
      (harg : Denotes arg trace (.value text))
      (hargv : Denotes (.node .concat name argv start stop) trace' (.value text')) :
      Denotes (.node .concat name (arg :: argv) start stop) (trace ++ trace')
        (.value (text ++ text'))
  | compare {fn name left right start stop trace trace' text text' result}
      (hleft : Denotes left trace (.value text)) (hright : Denotes right trace' (.value text'))
      (hresult : fn.compare text text' = some result) :
      Denotes (.node fn name [left, right] start stop) (trace ++ trace') (.value result)
  | greaterThanInt {name left right start stop trace outcome}
      (hless : Denotes (.node .lessThanInt name [right, left] start stop) trace outcome) :
      Denotes (.node .greaterThanInt name [left, right] start stop) trace outcome
  | sleep {name arg start stop trace text} (harg : Denotes arg trace (.value text)) :
      Denotes (.node .sleep name [arg] start stop)
        (trace ++ [.sleep ((strtol text).1 % 2 ^ 32).toNat]) (.value text)
  | stdout_nil {name start stop} :
      Denotes (.node .stdout name [] start stop) [] (.value [])
  | stdout_cons {name arg argv start stop trace trace' text outcome}
      (harg : Denotes arg trace (.value text))
      (hargv : Denotes (.node .stdout name argv start stop) trace' outcome) :
      Denotes (.node .stdout name (arg :: argv) start stop)
        (trace ++ .stdout text :: trace') outcome
  | assert_nil {name start stop} :
      Denotes (.node .assert name [] start stop) [] (.value [])
  | assert_true {name arg argv start stop trace trace' text outcome}
      (harg : Denotes arg trace (.value text)) (htrue : text ≠ [])
      (hargv : Denotes (.node .assert name argv start stop) trace' outcome) :
      Denotes (.node .assert name (arg :: argv) start stop) (trace ++ trace') outcome
  | assert_false {name arg argv start stop trace} (harg : Denotes arg trace (.value [])) :
      Denotes (.node .assert name (arg :: argv) start stop) trace
        (.aborted (ascii "assert failed: " ++ sourceOf script arg))
  | abort_nil {name start stop} :
      Denotes (.node .abort name [] start stop) [] (.aborted (ascii "called abort()"))
  | abort_message {name arg start stop trace text} (harg : Denotes arg trace (.value text)) :
      Denotes (.node .abort name [arg] start stop) trace (.aborted text)
  | abort_aborted {name arg start stop trace message}
      (harg : Denotes arg trace (.aborted message)) :
      Denotes (.node .abort name [arg] start stop) trace (.aborted (ascii "called abort()"))
  | first_aborted {fn name arg argv start stop trace message}
      (harg : Denotes arg trace (.aborted message)) (hfn : fn ≠ .abort)
      (hgreater : fn ≠ .greaterThanInt) :
      Denotes (.node fn name (arg :: argv) start stop) trace (.aborted message)
  | concat_aborted {name arg argv start stop trace trace' text message}
      (harg : Denotes arg trace (.value text))
      (hargv : Denotes (.node .concat name argv start stop) trace' (.aborted message)) :
      Denotes (.node .concat name (arg :: argv) start stop) (trace ++ trace') (.aborted message)
  | compare_aborted {fn name left right start stop trace trace' text message}
      (hleft : Denotes left trace (.value text)) (hright : Denotes right trace' (.aborted message))
      (hfn : (fn.compare [] []).isSome) :
      Denotes (.node fn name [left, right] start stop) (trace ++ trace') (.aborted message)

end Denotes

/-! ## The expressions of a script -/

/-- The numbers of arguments that a function is meant to be called with. -/
def Builtin.Accepts : Builtin → Nat → Prop
  | .literal, argc => argc = 0
  | .concat, _ => True
  | .assert, _ => True
  | .stdout, _ => True
  | .ifElse, argc => argc = 2 ∨ argc = 3
  | .abort, argc => argc ≤ 1
  | .sleep, argc => argc = 1
  | .logicalNot, argc => argc = 1
  | _, argc => argc = 2

/-- Every call has a right number of arguments, and what `assert` would quote
lies in the script. -/
inductive WellFormed (script : Bytes) : Expr Builtin → Prop where
  | node {fn : Builtin} {name : Bytes} {argv : List (Expr Builtin)} {start stop : Nat}
      (harity : fn.Accepts argv.length) (hargv : ∀ arg ∈ argv, WellFormed script arg)
      (hquote : fn = .assert → ∀ arg ∈ argv, arg.start ≤ arg.stop ∧ arg.stop ≤ script.length) :
      WellFormed script (.node fn name argv start stop)

/-! ## Runs that issue given effects -/

variable {Op : Type} {Reply : Op → Type} {α β : Type}

def Effect.perform : Effect → Prog (EdifyOp Op) (EdifyOp.Reply Reply) Unit
  | .sleep seconds => Prog.ask (EdifyOp.sleep seconds)
  | .stdout text => Prog.ask (EdifyOp.stdout text)

/-- The program that performs the effects in order. -/
def emit : List Effect → Prog (EdifyOp Op) (EdifyOp.Reply Reply) Unit
  | [] => .pure ()
  | effect :: trace => effect.perform >>= fun _ => emit trace

theorem emit_append (trace trace' : List Effect) :
    (emit (trace ++ trace') : Prog (EdifyOp Op) (EdifyOp.Reply Reply) Unit) =
      emit trace >>= fun _ => emit trace' := by
  induction trace with
  | nil => rfl
  | cons effect trace ih =>
      rw [List.cons_append, emit, emit, ih, bind_assoc]

/-- A program that performs the effects and then converts its result has
performed them before. -/
theorem of_map_eq_emit
    {program : Prog (EdifyOp Op) (EdifyOp.Reply Reply) α} {convert : α → β} {trace : List Effect}
    {result : β}
    (heq : (program >>= fun value => .pure (convert value)) =
      emit trace >>= fun _ => .pure result) :
    ∃ value, program = (emit trace >>= fun _ => .pure value) ∧ convert value = result := by
  induction trace generalizing program with
  | nil =>
      cases program with
      | pure value => exact ⟨value, rfl, Prog.pure.inj heq⟩
      | request op next => cases heq
  | cons effect trace ih =>
      cases program with
      | pure value => cases effect <;> cases heq
      | request op next =>
          cases effect with
          | sleep seconds =>
              obtain ⟨rfl, hnext⟩ := Prog.request.inj heq
              obtain ⟨value, hvalue, hresult⟩ := ih (congrFun (eq_of_heq hnext) ())
              exact ⟨value, congrArg (Prog.request _) (funext fun _ => hvalue), hresult⟩
          | stdout text =>
              obtain ⟨rfl, hnext⟩ := Prog.request.inj heq
              obtain ⟨value, hvalue, hresult⟩ := ih (congrFun (eq_of_heq hnext) ())
              exact ⟨value, congrArg (Prog.request _) (funext fun _ => hvalue), hresult⟩

/-- The effects and the result can be read off the program. -/
theorem emit_inj
    {trace trace' : List Effect} {value value' : α}
    (heq : (emit trace >>= fun _ => .pure value :
        Prog (EdifyOp Op) (EdifyOp.Reply Reply) α) = emit trace' >>= fun _ => .pure value') :
    trace = trace' ∧ value = value' := by
  induction trace generalizing trace' with
  | nil =>
      cases trace' with
      | nil => exact ⟨rfl, Prog.pure.inj heq⟩
      | cons effect trace' => cases effect <;> cases heq
  | cons effect trace ih =>
      cases trace' with
      | nil => cases effect <;> cases heq
      | cons effect' trace' =>
          cases effect <;> cases effect' <;> try cases heq
          all_goals
            obtain ⟨hop, hnext⟩ := Prog.request.inj heq
            cases hop
            obtain ⟨rfl, hvalue⟩ := ih (congrFun (eq_of_heq hnext) ())
            exact ⟨rfl, hvalue⟩

/-- The computation performs exactly the effects of `trace` and then returns. -/
def Runs (program : Eval Op Reply α) (state : State) (trace : List Effect) (result : α)
    (after : State) : Prop :=
  (program.run state).run = emit trace >>= fun _ => .pure (.ok (result, after))

namespace Runs

variable {state middle after : State} {trace trace' : List Effect} {value : α} {result : β}

theorem pure : Runs (Pure.pure value : Eval Op Reply α) state [] value state := rfl

theorem bind {program : Eval Op Reply α} {rest : α → Eval Op Reply β}
    (hfirst : Runs program state trace value middle)
    (hrest : Runs (rest value) middle trace' result after) :
    Runs (program >>= rest) state (trace ++ trace') result after := by
  unfold Runs at hfirst hrest ⊢
  rw [StateT.run_bind, ExceptT.run_bind, hfirst, emit_append, bind_assoc, bind_assoc]
  exact congrArg (emit trace >>= ·) (funext fun _ => hrest)

theorem fail {message : Bytes} :
    Runs (Edify.fail message : Eval Op Reply (Option α)) state [] none
      { state with errmsg := some message } := rfl

theorem sleep {seconds : Nat} :
    Runs (request (.sleep seconds) : Eval Op Reply Unit) state [.sleep seconds] () state :=
  rfl

theorem stdout {text : Bytes} :
    Runs (request (.stdout text) : Eval Op Reply Unit) state [.stdout text] () state :=
  rfl

/-- A computation that goes on after its effects has performed all of them. -/
theorem of_map {program : Eval Op Reply α} {convert : α → β}
    (hruns : Runs (program >>= fun value => Pure.pure (convert value)) state trace result after) :
    ∃ value, Runs program state trace value after ∧ convert value = result := by
  have hmap : ((program.run state).run >>= fun reply =>
      .pure (reply.map fun pair => (convert pair.1, pair.2))) =
        (emit trace >>= fun _ => .pure (.ok (result, after)) :
          Prog (EdifyOp Op) (EdifyOp.Reply Reply) (Except Fault (β × State))) := by
    rw [← hruns, StateT.run_bind, ExceptT.run_bind]
    refine congrArg ((program.run state).run >>= ·) (funext fun reply => ?_)
    cases reply <;> rfl
  obtain ⟨reply, hprogram, hreply⟩ := of_map_eq_emit hmap
  cases reply with
  | error reason => cases hreply
  | ok pair =>
      obtain ⟨value, last⟩ := pair
      obtain ⟨rfl, rfl⟩ := Prod.mk.inj (Except.ok.inj hreply)
      exact ⟨value, hprogram, rfl⟩

theorem unlessNull_some {program : Eval Op Reply (Option α)} {rest : α → Eval Op Reply (Option β)}
    {last : Option β} (hfirst : Runs program state trace (some value) middle)
    (hrest : Runs (rest value) middle trace' last after) :
    Runs (unlessNull program rest) state (trace ++ trace') last after :=
  bind hfirst hrest

theorem unlessNull_none {program : Eval Op Reply (Option α)} {rest : α → Eval Op Reply (Option β)}
    (hfirst : Runs program state trace none after) :
    Runs (unlessNull program rest) state trace none after := by
  unfold unlessNull
  rw [← List.append_nil trace]
  exact bind hfirst pure

/-- Two computations in a row, of which the second has no effects. -/
theorem unlessNull_pure {program : Eval Op Reply (Option α)} {rest : α → Eval Op Reply (Option β)}
    {last : Option β} (hfirst : Runs program state trace (some value) middle)
    (hrest : Runs (rest value) middle [] last after) :
    Runs (unlessNull program rest) state trace last after := by
  have hbind := unlessNull_some hfirst hrest
  rwa [List.append_nil] at hbind

end Runs

/-! ## The functions agree with the rules -/

def Outcome.text : Outcome → Option Bytes
  | .value text => some text
  | .aborted _ => none

/-- The state that an outcome leaves. -/
def Outcome.after (state : State) : Outcome → State
  | .value _ => state
  | .aborted message => { state with errmsg := some message }

@[simp] theorem Outcome.after_script (state : State) (outcome : Outcome) :
    (outcome.after state).script = state.script := by
  cases outcome <;> rfl

/-- Evaluating the argument performs `trace` and ends in `outcome`. -/
def Arg.Yields (arg : Arg Op Reply) (state : State) (trace : List Effect) (outcome : Outcome) :
    Prop :=
  Runs arg.evaluateValue state trace (outcome.text.map .string) (outcome.after state)

/-- Calling the function performs `trace` and ends in `outcome`. -/
def Calls (fn : Function Op Reply) (name : Bytes) (argv : List (Arg Op Reply)) (state : State)
    (trace : List Effect) (outcome : Outcome) : Prop :=
  Runs (fn name argv) state trace (outcome.text.map .string) (outcome.after state)

section Functions

variable {state : State} {trace trace' : List Effect} {outcome : Outcome}
variable {name text text' message : Bytes} {arg first second third : Arg Op Reply}
variable {argv : List (Arg Op Reply)}

theorem Arg.Yields.evaluate (hyields : arg.Yields state trace outcome) :
    Runs (evaluate arg) state trace outcome.text (outcome.after state) := by
  have hstring : Runs (stringOf (outcome.text.map .string) : Eval Op Reply (Option Bytes))
      (outcome.after state) [] outcome.text (outcome.after state) := by
    cases outcome <;> exact Runs.pure
  have hbind := Runs.bind hyields hstring
  rwa [List.append_nil] at hbind

@[simp] theorem argAt_zero (arg : Arg Op Reply) (argv : List (Arg Op Reply)) :
    argAt (arg :: argv) 0 = pure arg := rfl

@[simp] theorem argAt_one (first second : Arg Op Reply) (argv : List (Arg Op Reply)) :
    argAt (first :: second :: argv) 1 = pure second := rfl

@[simp] theorem argAt_two (first second third : Arg Op Reply) (argv : List (Arg Op Reply)) :
    argAt (first :: second :: third :: argv) 2 = pure third := rfl

theorem booleanString_nil : booleanString [] = false := rfl

theorem booleanString_of_ne (htrue : text ≠ []) : booleanString text = true :=
  decide_eq_true htrue

theorem calls_logical_stop {goOn : Bool} (hfirst : first.Yields state trace (.value text))
    (hstop : booleanString text ≠ goOn) :
    Calls (logicalFn goOn) name (first :: argv) state trace (.value text) := by
  unfold Calls logicalFn
  rw [argAt_zero, pure_bind]
  refine Runs.unlessNull_pure hfirst.evaluate ?_
  rw [if_neg hstop]
  exact Runs.pure

theorem calls_logical_go {goOn : Bool} (hfirst : first.Yields state trace (.value text))
    (hgo : booleanString text = goOn) (hsecond : second.Yields state trace' outcome) :
    Calls (logicalFn goOn) name (first :: second :: argv) state (trace ++ trace') outcome := by
  unfold Calls logicalFn
  rw [argAt_zero, pure_bind]
  refine Runs.unlessNull_some hfirst.evaluate ?_
  rw [if_pos hgo, argAt_one, pure_bind]
  exact hsecond

theorem calls_ifElse_true (hargv : argv.length ≤ 1)
    (hfirst : first.Yields state trace (.value text)) (htrue : text ≠ [])
    (hsecond : second.Yields state trace' outcome) :
    Calls ifElseFn name (first :: second :: argv) state (trace ++ trace') outcome := by
  unfold Calls ifElseFn
  have harity : ¬((first :: second :: argv).length ≠ 2 ∧ (first :: second :: argv).length ≠ 3) := by
    simp only [List.length_cons]
    omega
  rw [if_neg harity, argAt_zero, pure_bind]
  refine Runs.unlessNull_some hfirst.evaluate ?_
  rw [if_pos (booleanString_of_ne htrue), argAt_one, pure_bind]
  exact hsecond

theorem calls_ifElse_false (hfirst : first.Yields state trace (.value []))
    (hthird : third.Yields state trace' outcome) :
    Calls ifElseFn name [first, second, third] state (trace ++ trace') outcome := by
  unfold Calls ifElseFn
  rw [if_neg (by simp), argAt_zero, pure_bind]
  refine Runs.unlessNull_some hfirst.evaluate ?_
  rw [booleanString_nil, if_neg Bool.false_ne_true, if_pos (show [first, second, third].length = 3
    from rfl), argAt_two, pure_bind]
  exact hthird

theorem calls_if_false (hfirst : first.Yields state trace (.value [])) :
    Calls ifElseFn name [first, second] state trace (.value []) := by
  unfold Calls ifElseFn
  rw [if_neg (by simp), argAt_zero, pure_bind]
  refine Runs.unlessNull_pure hfirst.evaluate ?_
  rw [booleanString_nil, if_neg Bool.false_ne_true, if_neg (by simp)]
  exact Runs.pure

theorem calls_sequence (hfirst : first.Yields state trace (.value text))
    (hsecond : second.Yields state trace' outcome) :
    Calls sequenceFn name (first :: second :: argv) state (trace ++ trace') outcome := by
  unfold Calls sequenceFn
  rw [argAt_zero, pure_bind]
  refine Runs.unlessNull_some hfirst ?_
  rw [argAt_one, pure_bind]
  exact hsecond

theorem boolean_eq_truth {value : Bool} {holds : Prop} (hiff : value = true ↔ holds) :
    boolean value = truth holds := by
  unfold boolean truth
  by_cases hholds : holds
  · rw [if_pos hholds, if_pos (hiff.mpr hholds)]
  · rw [if_neg hholds, if_neg (mt hiff.mp hholds)]

theorem calls_logicalNot (harg : arg.Yields state trace (.value text)) :
    Calls logicalNotFn name (arg :: argv) state trace (.value (truth (text = []))) := by
  unfold Calls logicalNotFn
  rw [argAt_zero, pure_bind]
  refine Runs.unlessNull_pure harg.evaluate ?_
  have htruth : boolean (!booleanString text) = truth (text = []) :=
    boolean_eq_truth (by simp [booleanString])
  rw [htruth]
  exact Runs.pure

theorem calls_comparison {holds : Bytes → Bytes → Bool}
    (hfirst : first.Yields state trace (.value text))
    (hsecond : second.Yields state trace' (.value text')) :
    Calls (comparisonFn holds) name (first :: second :: argv) state (trace ++ trace')
      (.value (boolean (holds text text'))) := by
  unfold Calls comparisonFn
  rw [argAt_zero, pure_bind]
  refine Runs.unlessNull_some hfirst.evaluate ?_
  rw [argAt_one, pure_bind]
  exact Runs.unlessNull_pure hsecond.evaluate Runs.pure

theorem calls_comparison_aborted {holds : Bytes → Bytes → Bool}
    (hfirst : first.Yields state trace (.value text))
    (hsecond : second.Yields state trace' (.aborted message)) :
    Calls (comparisonFn holds) name (first :: second :: argv) state (trace ++ trace')
      (.aborted message) := by
  unfold Calls comparisonFn
  rw [argAt_zero, pure_bind]
  refine Runs.unlessNull_some hfirst.evaluate ?_
  rw [argAt_one, pure_bind]
  exact Runs.unlessNull_none hsecond.evaluate

theorem calls_lessThanInt
    (hfirst : first.Yields state trace (.value text))
    (hsecond : second.Yields state trace' (.value text')) :
    Calls lessThanIntFn name [first, second] state (trace ++ trace')
      (.value (boolean (lessThan text text'))) := by
  have hread : Runs (readArgs [first, second] 2) state (trace ++ trace') (some [text, text'])
      state :=
    Runs.unlessNull_some hfirst.evaluate
      (Runs.unlessNull_pure (Runs.unlessNull_pure hsecond.evaluate Runs.pure) Runs.pure)
  unfold Calls lessThanIntFn
  rw [if_neg (by simp)]
  exact Runs.unlessNull_pure hread Runs.pure

theorem calls_lessThanInt_aborted
    (hfirst : first.Yields state trace (.value text))
    (hsecond : second.Yields state trace' (.aborted message)) :
    Calls lessThanIntFn name [first, second] state (trace ++ trace') (.aborted message) := by
  have hread : Runs (readArgs [first, second] 2) state (trace ++ trace') none
      (Outcome.after state (.aborted message)) :=
    Runs.unlessNull_some hfirst.evaluate
      (Runs.unlessNull_none (Runs.unlessNull_none hsecond.evaluate))
  unfold Calls lessThanIntFn
  rw [if_neg (by simp)]
  exact Runs.unlessNull_none hread

theorem calls_greaterThanInt (hless : Calls lessThanIntFn name [second, first] state trace outcome) :
    Calls greaterThanIntFn name [first, second] state trace outcome := by
  unfold Calls greaterThanIntFn
  rw [if_neg (by simp), argAt_one, pure_bind, argAt_zero, pure_bind]
  exact hless

/-- What `concatFn` returns tells what its arguments were read as. -/
theorem Calls.readVarArgs (hcalls : Calls concatFn name argv state trace outcome) :
    ∃ strings, Runs (readVarArgs argv) state trace strings (outcome.after state) ∧
      strings.map List.flatten = outcome.text := by
  have hmap : concatFn name argv = Edify.readVarArgs argv >>= fun strings =>
      pure (strings.map fun strings => Value.string strings.flatten) := by
    refine congrArg (Edify.readVarArgs argv >>= ·) (funext fun strings => ?_)
    cases strings <;> rfl
  unfold Calls at hcalls
  rw [hmap] at hcalls
  obtain ⟨strings, hruns, hstrings⟩ := hcalls.of_map
  refine ⟨strings, hruns, ?_⟩
  have hinj : Function.Injective (Option.map Value.string) :=
    Option.map_injective fun _ _ h => Value.string.inj h
  exact hinj (by rw [← hstrings, Option.map_map]; rfl)

theorem calls_concat_cons (hfirst : arg.Yields state trace (.value text))
    (hargv : Calls concatFn name argv state trace' (.value text')) :
    Calls concatFn name (arg :: argv) state (trace ++ trace') (.value (text ++ text')) := by
  obtain ⟨strings, hruns, hstrings⟩ := hargv.readVarArgs
  obtain ⟨strings, rfl, rfl⟩ := Option.map_eq_some_iff.mp hstrings
  have hread : Runs (readVarArgs (arg :: argv)) state (trace ++ trace') (some (text :: strings))
      state :=
    Runs.unlessNull_some hfirst.evaluate (Runs.unlessNull_pure hruns Runs.pure)
  exact Runs.unlessNull_pure hread Runs.pure

theorem calls_concat_aborted (hfirst : arg.Yields state trace (.value text))
    (hargv : Calls concatFn name argv state trace' (.aborted message)) :
    Calls concatFn name (arg :: argv) state (trace ++ trace') (.aborted message) := by
  obtain ⟨strings, hruns, hstrings⟩ := hargv.readVarArgs
  obtain rfl := Option.map_eq_none_iff.mp hstrings
  have hread : Runs (readVarArgs (arg :: argv)) state (trace ++ trace') none
      (Outcome.after state (.aborted message)) :=
    Runs.unlessNull_some hfirst.evaluate (Runs.unlessNull_none hruns)
  exact Runs.unlessNull_none hread

theorem calls_sleep (harg : arg.Yields state trace (.value text)) :
    Calls sleepFn name (arg :: argv) state
      (trace ++ [.sleep ((strtol text).1 % 2 ^ 32).toNat]) (.value text) := by
  unfold Calls sleepFn
  rw [argAt_zero, pure_bind]
  exact Runs.unlessNull_some harg.evaluate (Runs.bind Runs.sleep Runs.pure)

theorem calls_stdout_cons (harg : arg.Yields state trace (.value text))
    (hargv : Calls stdoutFn name argv state trace' outcome) :
    Calls stdoutFn name (arg :: argv) state (trace ++ .stdout text :: trace') outcome :=
  Runs.unlessNull_some harg.evaluate (Runs.bind Runs.stdout hargv)

theorem calls_assert_true (harg : arg.Yields state trace (.value text)) (htrue : text ≠ [])
    (hargv : Calls assertFn name argv state trace' outcome) :
    Calls assertFn name (arg :: argv) state (trace ++ trace') outcome := by
  refine Runs.unlessNull_some harg.evaluate ?_
  rw [if_pos (booleanString_of_ne htrue)]
  exact hargv

theorem calls_assert_false (harg : arg.Yields state trace (.value []))
    (hstart : arg.start ≤ arg.stop) (hstop : arg.stop ≤ state.script.length) :
    Calls assertFn name (arg :: argv) state trace
      (.aborted (ascii "assert failed: " ++
        (state.script.drop arg.start).take (arg.stop - arg.start))) := by
  refine Runs.unlessNull_pure harg.evaluate ?_
  have htext : slice state.script arg.start (arg.stop - arg.start) =
      .ok ((state.script.drop arg.start).take (arg.stop - arg.start)) := by
    unfold slice
    rw [if_pos (by omega)]
    congr 2
    omega
  have hsource : Runs (sourceText arg) state []
      ((state.script.drop arg.start).take (arg.stop - arg.start)) state := by
    unfold Runs sourceText
    simp only [StateT.run, htext]
    rfl
  rw [booleanString_nil, if_neg Bool.false_ne_true]
  exact Runs.bind hsource Runs.fail

theorem runs_abortFn {msg : Option Bytes} {middle : State}
    (hmsg : Runs (abortMessage argv) state trace msg middle) :
    Runs (abortFn name argv) state trace none
      { middle with errmsg := some (msg.getD (ascii "called abort()")) } := by
  rw [← List.append_nil trace]
  refine Runs.bind hmsg ?_
  cases msg <;> exact Runs.fail

theorem calls_abort_nil :
    Calls (abortFn : Function Op Reply) name [] state [] (.aborted (ascii "called abort()")) :=
  @runs_abortFn _ _ _ _ _ [] _ _ Runs.pure

theorem calls_abort_message (harg : arg.Yields state trace (.value text)) :
    Calls abortFn name (arg :: argv) state trace (.aborted text) :=
  @runs_abortFn _ _ _ _ _ (arg :: argv) _ _ harg.evaluate

theorem calls_abort_aborted (harg : arg.Yields state trace (.aborted message)) :
    Calls abortFn name (arg :: argv) state trace (.aborted (ascii "called abort()")) :=
  @runs_abortFn _ _ _ _ _ (arg :: argv) _ _ harg.evaluate

/-- Every function but two evaluates its first argument first and gives up if it
fails. -/
theorem calls_first_aborted {fn : Builtin} (harity : fn.Accepts (argv.length + 1))
    (hfn : fn ≠ .abort) (hgreater : fn ≠ .greaterThanInt)
    (harg : arg.Yields state trace (.aborted message)) :
    Calls fn.fn name (arg :: argv) state trace (.aborted message) := by
  have hnone := harg.evaluate
  cases fn with
  | literal => cases harity
  | concat => exact Runs.unlessNull_none (Runs.unlessNull_none hnone)
  | ifElse =>
      change Calls ifElseFn name (arg :: argv) state trace (.aborted message)
      unfold Calls ifElseFn
      rw [if_neg (by rcases harity with harity | harity <;> simp [harity]), argAt_zero, pure_bind]
      exact Runs.unlessNull_none hnone
  | abort => exact absurd rfl hfn
  | assert => exact Runs.unlessNull_none hnone
  | stdout => exact Runs.unlessNull_none hnone
  | sleep => exact Runs.bind Runs.pure (Runs.unlessNull_none hnone)
  | logicalAnd => exact Runs.bind Runs.pure (Runs.unlessNull_none hnone)
  | logicalOr => exact Runs.bind Runs.pure (Runs.unlessNull_none hnone)
  | logicalNot => exact Runs.bind Runs.pure (Runs.unlessNull_none hnone)
  | substring => exact Runs.bind Runs.pure (Runs.unlessNull_none hnone)
  | equality => exact Runs.bind Runs.pure (Runs.unlessNull_none hnone)
  | inequality => exact Runs.bind Runs.pure (Runs.unlessNull_none hnone)
  | sequence => exact Runs.bind Runs.pure (Runs.unlessNull_none harg)
  | lessThanInt =>
      change Calls lessThanIntFn name (arg :: argv) state trace (.aborted message)
      unfold Calls lessThanIntFn
      have hlength : (arg :: argv).length = 2 := harity
      rw [if_neg (not_not_intro hlength)]
      exact Runs.unlessNull_none (Runs.unlessNull_none hnone)
  | greaterThanInt => exact absurd rfl hgreater

end Functions

/-! ## Numbers and substrings -/

theorem strstr_isSome (haystack needle : Bytes) :
    (strstr haystack needle).isSome ↔ needle <:+: haystack := by
  induction haystack with
  | nil =>
      unfold strstr
      by_cases hbegins : needle.isPrefixOf []
      · rw [if_pos hbegins]
        exact iff_of_true rfl (List.isPrefixOf_iff_prefix.mp hbegins).isInfix
      · rw [if_neg hbegins]
        refine iff_of_false (by simp) ?_
        rw [List.infix_nil]
        rintro rfl
        exact hbegins rfl
  | cons byte haystack ih =>
      unfold strstr
      by_cases hbegins : needle.isPrefixOf (byte :: haystack)
      · rw [if_pos hbegins]
        exact iff_of_true rfl (List.isPrefixOf_iff_prefix.mp hbegins).isInfix
      · rw [if_neg hbegins, List.infix_cons_iff]
        rw [List.isPrefixOf_iff_prefix] at hbegins
        exact ih.trans ⟨Or.inr, fun h => h.resolve_left hbegins⟩

theorem splitSign_of_isDigit {digits : Bytes} (hne : digits ≠ [])
    (hdigits : ∀ byte ∈ digits, isDigit byte) : splitSign digits = (false, digits) := by
  cases digits with
  | nil => exact absurd rfl hne
  | cons digit digits =>
      have hdigit := hdigits digit (List.mem_cons_self ..)
      unfold splitSign
      split
      · rename_i heq
        obtain ⟨rfl, -⟩ := List.cons.inj heq
        exact absurd hdigit (by decide)
      · rename_i heq
        obtain ⟨rfl, -⟩ := List.cons.inj heq
        exact absurd hdigit (by decide)
      · rfl

theorem not_isSpace_of_isDigit {byte : UInt8} (hdigit : isDigit byte) : ¬isSpace byte := by
  simp only [isDigit, isSpace, Bool.and_eq_true, Bool.or_eq_true, decide_eq_true_eq,
    UInt8.le_iff_toNat_le, ← UInt8.toNat_inj, UInt8.reduceToNat] at hdigit ⊢
  omega

/-- The scan of a text whose blanks, sign and digits are known. -/
theorem wholeInt_of_parts {text blanks rest digits : Bytes} {negative : Bool}
    (htext : text = blanks ++ rest) (hblanks : ∀ byte ∈ blanks, isSpace byte)
    (hstart : ∀ byte ∈ rest.head?, ¬isSpace byte) (hsign : splitSign rest = (negative, digits))
    (hne : digits ≠ []) (hdigits : ∀ byte ∈ digits, isDigit byte) :
    wholeInt text =
      some (saturate (if negative then -(decimal digits : Int) else decimal digits)) := by
  have hdrop : text.dropWhile isSpace = rest := by
    rw [htext, List.dropWhile_append_of_pos hblanks]
    cases rest with
    | nil => rfl
    | cons byte rest => exact List.dropWhile_cons_of_neg (hstart byte rfl)
  have htake : digits.takeWhile isDigit = digits := List.takeWhile_eq_self_iff.mpr hdigits
  have hscan : strtol text =
      (saturate (if negative then -(decimal digits : Int) else decimal digits), []) := by
    unfold strtol
    rw [hdrop, hsign]
    simp only [htake, if_neg hne, List.drop_length]
  have hnonempty : text ≠ [] := by
    rintro rfl
    obtain ⟨-, rfl⟩ := List.append_eq_nil_iff.mp htext.symm
    obtain ⟨-, rfl⟩ := Prod.mk.inj hsign
    exact hne rfl
  unfold wholeInt
  rw [hscan]
  simp [hnonempty]

theorem splitSign_cases {start digits : Bytes} {negative : Bool}
    (hsign : splitSign start = (negative, digits)) :
    (start = digits ∨ start = ascii "+" ++ digits) ∧ negative = false ∨
      start = ascii "-" ++ digits ∧ negative = true := by
  unfold splitSign at hsign
  split at hsign
  · obtain ⟨rfl, rfl⟩ := Prod.mk.inj hsign
    exact .inr ⟨rfl, rfl⟩
  · obtain ⟨rfl, rfl⟩ := Prod.mk.inj hsign
    exact .inl ⟨.inr rfl, rfl⟩
  · obtain ⟨rfl, rfl⟩ := Prod.mk.inj hsign
    exact .inl ⟨.inl rfl, rfl⟩

/-- A text that is scanned to its end is made of blanks, a sign and digits. -/
theorem parts_of_wholeInt {text : Bytes} {value : Int} (hwhole : wholeInt text = some value) :
    ∃ digits negative, splitSign (text.dropWhile isSpace) = (negative, digits) ∧ digits ≠ [] ∧
      (∀ byte ∈ digits, isDigit byte) ∧
      value = saturate (if negative then -(decimal digits : Int) else decimal digits) := by
  unfold wholeInt strtol at hwhole
  generalize hsign : splitSign (text.dropWhile isSpace) = pair at hwhole
  obtain ⟨negative, rest⟩ := pair
  dsimp only at hwhole
  by_cases hdigits : rest.takeWhile isDigit = []
  · rw [if_pos hdigits] at hwhole
    by_cases htext : text = [] <;> simp [htext] at hwhole
  · rw [if_neg hdigits] at hwhole
    simp only [Option.ite_none_left_eq_some, not_or, not_not, List.drop_eq_nil_iff,
      Option.some.injEq] at hwhole
    obtain ⟨⟨-, hend⟩, rfl⟩ := hwhole
    have hall : rest.takeWhile isDigit = rest :=
      (List.takeWhile_prefix isDigit).eq_of_length_le hend
    rw [hall] at hdigits
    refine ⟨rest, negative, rfl, hdigits, List.takeWhile_eq_self_iff.mp hall, ?_⟩
    rw [hall]

theorem writtenInt_iff (text : Bytes) (value : Int) :
    WrittenInt text value ↔ wholeInt text = some value := by
  constructor
  · rintro ⟨blanks, digits, hblanks, hne, hdigits, ⟨htext | htext, rfl⟩ | ⟨htext, rfl⟩⟩
    · refine wholeInt_of_parts htext hblanks ?_ (splitSign_of_isDigit hne hdigits) hne hdigits
      intro byte hbyte
      exact not_isSpace_of_isDigit (hdigits byte (List.mem_of_mem_head? hbyte))
    · rw [List.append_assoc] at htext
      refine wholeInt_of_parts htext hblanks ?_ rfl hne hdigits
      intro byte hbyte
      obtain rfl := Option.some.inj hbyte
      decide
    · rw [List.append_assoc] at htext
      refine wholeInt_of_parts htext hblanks ?_ rfl hne hdigits
      intro byte hbyte
      obtain rfl := Option.some.inj hbyte
      decide
  · intro hwhole
    obtain ⟨digits, negative, hsign, hne, hdigits, rfl⟩ := parts_of_wholeInt hwhole
    have htext := List.takeWhile_append_dropWhile (p := isSpace) (l := text)
    refine ⟨text.takeWhile isSpace, digits, fun byte => List.mem_takeWhile_imp, hne, hdigits, ?_⟩
    rcases splitSign_cases hsign with ⟨hstart | hstart, rfl⟩ | ⟨hstart, rfl⟩
    · exact .inl ⟨.inl (by rw [← hstart, htext]), rfl⟩
    · exact .inl ⟨.inr (by rw [List.append_assoc, ← hstart, htext]), rfl⟩
    · exact .inr ⟨by rw [List.append_assoc, ← hstart, htext], rfl⟩

theorem lessThan_iff (left right : Bytes) :
    lessThan left right ↔ ∃ l r, WrittenInt left l ∧ WrittenInt right r ∧ l < r := by
  simp only [writtenInt_iff]
  unfold lessThan
  cases hleft : wholeInt left <;> cases hright : wholeInt right <;> simp

/-! ## Whole trees -/

section Trees

variable {script : Bytes} {expr : Expr Builtin} {trace : List Effect} {outcome : Outcome}

theorem arguments_length {F : Type} (table : F → Function Op Reply) (argv : List (Expr F)) :
    (arguments table argv).length = argv.length := by
  induction argv with
  | nil => rfl
  | cons expr argv ih => rw [arguments, List.length_cons, ih, List.length_cons]

theorem WellFormed.arity {fn : Builtin} {name : Bytes} {argv : List (Expr Builtin)}
    {start stop : Nat} (hwell : WellFormed script (.node fn name argv start stop)) :
    fn.Accepts argv.length := by
  cases hwell with
  | node harity => exact harity

theorem WellFormed.arg {fn : Builtin} {name : Bytes} {argv : List (Expr Builtin)}
    {start stop : Nat} (hwell : WellFormed script (.node fn name argv start stop))
    {arg : Expr Builtin} (harg : arg ∈ argv) : WellFormed script arg := by
  cases hwell with
  | node _ hargv => exact hargv arg harg

theorem WellFormed.quote {name : Bytes} {argv : List (Expr Builtin)}
    {start stop : Nat} (hwell : WellFormed script (.node .assert name argv start stop))
    {arg : Expr Builtin} (harg : arg ∈ argv) :
    arg.start ≤ arg.stop ∧ arg.stop ≤ script.length := by
  cases hwell with
  | node _ _ hquote => exact hquote rfl arg harg

theorem WellFormed.tail {fn : Builtin} {name : Bytes} {arg : Expr Builtin}
    {argv : List (Expr Builtin)} {start stop : Nat}
    (hwell : WellFormed script (.node fn name (arg :: argv) start stop))
    (harity : fn.Accepts argv.length) : WellFormed script (.node fn name argv start stop) := by
  cases hwell with
  | node _ hargv hquote =>
      exact .node harity (fun other hother => hargv other (List.mem_cons_of_mem _ hother))
        fun hfn other hother => hquote hfn other (List.mem_cons_of_mem _ hother)

/-- An argument of a call, as the called function sees it. -/
def argOf (expr : Expr Builtin) : Arg Op Reply :=
  ⟨evaluateValue Builtin.fn expr, expr.start, expr.stop⟩

theorem yields_node {fn : Builtin} {name : Bytes} {argv : List (Expr Builtin)} {start stop : Nat}
    {state : State}
    (hcalls : Calls (fn.fn : Function Op Reply) name (arguments Builtin.fn argv) state trace
      outcome) :
    (argOf (.node fn name argv start stop) : Arg Op Reply).Yields state trace outcome :=
  hcalls

/-- A comparison of two values is what its function computes from them. -/
theorem calls_compare {fn : Builtin} {name text text' result : Bytes} {state : State}
    {trace trace' : List Effect} {first second : Arg Op Reply}
    (hfirst : first.Yields state trace (.value text))
    (hsecond : second.Yields state trace' (.value text'))
    (hresult : fn.compare text text' = some result) :
    Calls fn.fn name [first, second] state (trace ++ trace') (.value result) := by
  cases fn with
  | equality =>
      obtain rfl := Option.some.inj hresult
      rw [← boolean_eq_truth (decide_eq_true_iff)]
      exact calls_comparison hfirst hsecond
  | inequality =>
      obtain rfl := Option.some.inj hresult
      rw [← boolean_eq_truth (decide_eq_true_iff)]
      exact calls_comparison hfirst hsecond
  | substring =>
      obtain rfl := Option.some.inj hresult
      rw [← boolean_eq_truth (strstr_isSome text' text)]
      exact calls_comparison hfirst hsecond
  | lessThanInt =>
      obtain rfl := Option.some.inj hresult
      rw [← boolean_eq_truth (lessThan_iff text text')]
      exact calls_lessThanInt hfirst hsecond
  | _ => cases hresult

theorem calls_compare_aborted {fn : Builtin} {name text message : Bytes} {state : State}
    {trace trace' : List Effect} {first second : Arg Op Reply}
    (hfirst : first.Yields state trace (.value text))
    (hsecond : second.Yields state trace' (.aborted message))
    (hfn : (fn.compare [] []).isSome) :
    Calls fn.fn name [first, second] state (trace ++ trace') (.aborted message) := by
  cases fn with
  | equality => exact calls_comparison_aborted hfirst hsecond
  | inequality => exact calls_comparison_aborted hfirst hsecond
  | substring => exact calls_comparison_aborted hfirst hsecond
  | lessThanInt => exact calls_lessThanInt_aborted hfirst hsecond
  | _ => cases hfn

/-- The evaluator does what the rules say. -/
theorem Denotes.runs (hdenotes : Denotes script expr trace outcome)
    (hwell : WellFormed script expr) {state : State} (hscript : state.script = script) :
    (argOf expr : Arg Op Reply).Yields state trace outcome := by
  induction hdenotes with
  | literal => exact Runs.pure
  | logicalAnd_false _ ih =>
      have hleft := ih (hwell.arg (by simp))
      exact yields_node (calls_logical_stop hleft Bool.false_ne_true)
  | logicalAnd_true _ htrue _ ihleft ihright =>
      have hleft := ihleft (hwell.arg (by simp))
      have hright := ihright (hwell.arg (by simp))
      exact yields_node (calls_logical_go hleft (booleanString_of_ne htrue) hright)
  | logicalOr_true _ htrue ih =>
      have hleft := ih (hwell.arg (by simp))
      refine yields_node (calls_logical_stop hleft ?_)
      rw [booleanString_of_ne htrue]
      exact Bool.noConfusion
  | logicalOr_false _ _ ihleft ihright =>
      have hleft := ihleft (hwell.arg (by simp))
      have hright := ihright (hwell.arg (by simp))
      exact yields_node (calls_logical_go hleft booleanString_nil hright)
  | ifElse_true _ htrue _ hno ihcond ihyes =>
      have hcond := ihcond (hwell.arg (by simp))
      have hyes := ihyes (hwell.arg (by simp))
      refine yields_node (calls_ifElse_true ?_ hcond htrue hyes)
      rw [arguments_length]
      exact hno
  | ifElse_false _ _ ihcond ihno =>
      have hcond := ihcond (hwell.arg (by simp))
      have hno := ihno (hwell.arg (by simp))
      exact yields_node (calls_ifElse_false hcond hno)
  | if_false _ ih =>
      have hcond := ih (hwell.arg (by simp))
      exact yields_node (calls_if_false hcond)
  | sequence _ _ ihleft ihright =>
      have hleft := ihleft (hwell.arg (by simp))
      have hright := ihright (hwell.arg (by simp))
      exact yields_node (calls_sequence hleft hright)
  | logicalNot _ ih =>
      have harg := ih (hwell.arg (by simp))
      exact yields_node (calls_logicalNot harg)
  | concat_nil => exact Runs.pure
  | concat_cons _ _ iharg ihargv =>
      have harg := iharg (hwell.arg (by simp))
      have hargv := ihargv (hwell.tail trivial)
      exact yields_node (calls_concat_cons harg hargv)
  | compare _ _ hresult ihleft ihright =>
      have hleft := ihleft (hwell.arg (by simp))
      have hright := ihright (hwell.arg (by simp))
      exact yields_node (calls_compare hleft hright hresult)
  | greaterThanInt _ ih =>
      refine yields_node (calls_greaterThanInt (ih ?_))
      refine .node rfl (fun arg harg => hwell.arg ?_) (by simp)
      simpa [or_comm] using harg
  | sleep _ ih =>
      have harg := ih (hwell.arg (by simp))
      exact yields_node (calls_sleep harg)
  | stdout_nil => exact Runs.pure
  | stdout_cons _ _ iharg ihargv =>
      have harg := iharg (hwell.arg (by simp))
      have hargv := ihargv (hwell.tail trivial)
      exact yields_node (calls_stdout_cons harg hargv)
  | assert_nil => exact Runs.pure
  | assert_true _ htrue _ iharg ihargv =>
      have harg := iharg (hwell.arg (by simp))
      have hargv := ihargv (hwell.tail trivial)
      exact yields_node (calls_assert_true harg htrue hargv)
  | @assert_false _ arg _ _ _ _ _ ih =>
      have harg := ih (hwell.arg (by simp))
      obtain ⟨hstart, hstop⟩ := @WellFormed.quote _ _ _ _ _ hwell arg (by simp)
      rw [sourceOf, ← hscript]
      rw [← hscript] at hstop
      exact yields_node (calls_assert_false harg hstart hstop)
  | abort_nil => exact yields_node calls_abort_nil
  | abort_message _ ih =>
      have harg := ih (hwell.arg (by simp))
      exact yields_node (calls_abort_message harg)
  | abort_aborted _ ih =>
      have harg := ih (hwell.arg (by simp))
      exact yields_node (calls_abort_aborted harg)
  | first_aborted _ hfn hgreater ih =>
      have harg := ih (hwell.arg (by simp))
      refine yields_node (calls_first_aborted ?_ hfn hgreater harg)
      rw [arguments_length]
      exact hwell.arity
  | concat_aborted _ _ iharg ihargv =>
      have harg := iharg (hwell.arg (by simp))
      have hargv := ihargv (hwell.tail trivial)
      exact yields_node (calls_concat_aborted harg hargv)
  | compare_aborted _ _ hfn ihleft ihright =>
      have hleft := ihleft (hwell.arg (by simp))
      have hright := ihright (hwell.arg (by simp))
      exact yields_node (calls_compare_aborted hleft hright hfn)

/-! ## Every well-formed expression has a meaning -/

/-- The arguments of a call have a meaning. -/
def Meaningful (script : Bytes) (argv : List (Expr Builtin)) : Prop :=
  ∀ arg ∈ argv, ∃ trace outcome, Denotes script arg trace outcome

section Meanings

variable {fn : Builtin} {name : Bytes} {argv : List (Expr Builtin)} {start stop : Nat}

theorem Meaningful.concat (hargv : Meaningful script argv) :
    ∃ trace outcome, Denotes script (.node .concat name argv start stop) trace outcome := by
  induction argv with
  | nil => exact ⟨_, _, .concat_nil⟩
  | cons arg argv ih =>
      obtain ⟨trace, outcome, harg⟩ := hargv arg (List.mem_cons_self ..)
      cases outcome with
      | aborted message => exact ⟨_, _, .first_aborted harg (by decide) (by decide)⟩
      | value text =>
          obtain ⟨trace', outcome', hrest⟩ :=
            ih fun other hother => hargv other (List.mem_cons_of_mem _ hother)
          cases outcome' with
          | aborted message => exact ⟨_, _, .concat_aborted harg hrest⟩
          | value text' => exact ⟨_, _, .concat_cons harg hrest⟩

theorem Meaningful.stdout (hargv : Meaningful script argv) :
    ∃ trace outcome, Denotes script (.node .stdout name argv start stop) trace outcome := by
  induction argv with
  | nil => exact ⟨_, _, .stdout_nil⟩
  | cons arg argv ih =>
      obtain ⟨trace, outcome, harg⟩ := hargv arg (List.mem_cons_self ..)
      cases outcome with
      | aborted message => exact ⟨_, _, .first_aborted harg (by decide) (by decide)⟩
      | value text =>
          obtain ⟨trace', outcome', hrest⟩ :=
            ih fun other hother => hargv other (List.mem_cons_of_mem _ hother)
          exact ⟨_, _, .stdout_cons harg hrest⟩

theorem Meaningful.assert (hargv : Meaningful script argv) :
    ∃ trace outcome, Denotes script (.node .assert name argv start stop) trace outcome := by
  induction argv with
  | nil => exact ⟨_, _, .assert_nil⟩
  | cons arg argv ih =>
      obtain ⟨trace, outcome, harg⟩ := hargv arg (List.mem_cons_self ..)
      cases outcome with
      | aborted message => exact ⟨_, _, .first_aborted harg (by decide) (by decide)⟩
      | value text =>
          by_cases htext : text = []
          · subst htext
            exact ⟨_, _, .assert_false harg⟩
          · obtain ⟨trace', outcome', hrest⟩ :=
              ih fun other hother => hargv other (List.mem_cons_of_mem _ hother)
            exact ⟨_, _, .assert_true harg htext hrest⟩

theorem Meaningful.compare {left right : Expr Builtin} (hargv : Meaningful script [left, right])
    (hfn : ∀ text text', ∃ result, fn.compare text text' = some result) :
    ∃ trace outcome, Denotes script (.node fn name [left, right] start stop) trace outcome := by
  obtain ⟨trace, outcome, hleft⟩ := hargv left (by simp)
  have hcompare : (fn.compare [] []).isSome := Option.isSome_iff_exists.mpr (hfn [] [])
  cases outcome with
  | aborted message =>
      refine ⟨_, _, .first_aborted hleft ?_ ?_⟩
      · rintro rfl
        cases hcompare
      · rintro rfl
        cases hcompare
  | value text =>
      obtain ⟨trace', outcome', hright⟩ := hargv right (by simp)
      cases outcome' with
      | aborted message => exact ⟨_, _, .compare_aborted hleft hright hcompare⟩
      | value text' =>
          obtain ⟨result, hresult⟩ := hfn text text'
          exact ⟨_, _, .compare hleft hright hresult⟩

theorem Meaningful.logicalAnd {left right : Expr Builtin}
    (hargv : Meaningful script [left, right]) :
    ∃ trace outcome, Denotes script (.node .logicalAnd name [left, right] start stop) trace
      outcome := by
  obtain ⟨trace, outcome, hleft⟩ := hargv left (by simp)
  obtain ⟨trace', outcome', hright⟩ := hargv right (by simp)
  cases outcome with
  | aborted message => exact ⟨_, _, .first_aborted hleft (by decide) (by decide)⟩
  | value text =>
      by_cases htext : text = []
      · subst htext
        exact ⟨_, _, .logicalAnd_false hleft⟩
      · exact ⟨_, _, .logicalAnd_true hleft htext hright⟩

theorem Meaningful.logicalOr {left right : Expr Builtin}
    (hargv : Meaningful script [left, right]) :
    ∃ trace outcome, Denotes script (.node .logicalOr name [left, right] start stop) trace
      outcome := by
  obtain ⟨trace, outcome, hleft⟩ := hargv left (by simp)
  obtain ⟨trace', outcome', hright⟩ := hargv right (by simp)
  cases outcome with
  | aborted message => exact ⟨_, _, .first_aborted hleft (by decide) (by decide)⟩
  | value text =>
      by_cases htext : text = []
      · subst htext
        exact ⟨_, _, .logicalOr_false hleft hright⟩
      · exact ⟨_, _, .logicalOr_true hleft htext⟩

theorem Meaningful.ifElse {cond yes : Expr Builtin} {no : List (Expr Builtin)}
    (hargv : Meaningful script (cond :: yes :: no)) (hno : no.length ≤ 1) :
    ∃ trace outcome, Denotes script (.node .ifElse name (cond :: yes :: no) start stop) trace
      outcome := by
  obtain ⟨trace, outcome, hcond⟩ := hargv cond (by simp)
  obtain ⟨trace', outcome', hyes⟩ := hargv yes (by simp)
  cases outcome with
  | aborted message => exact ⟨_, _, .first_aborted hcond (by decide) (by decide)⟩
  | value text =>
      by_cases htext : text = []
      · subst htext
        match no, hno with
        | [], _ => exact ⟨_, _, .if_false hcond⟩
        | [no], _ =>
            obtain ⟨trace'', outcome'', hno⟩ := hargv no (by simp)
            exact ⟨_, _, .ifElse_false hcond hno⟩
      · exact ⟨_, _, .ifElse_true hcond htext hyes hno⟩

theorem Meaningful.sequence {left right : Expr Builtin}
    (hargv : Meaningful script [left, right]) :
    ∃ trace outcome, Denotes script (.node .sequence name [left, right] start stop) trace
      outcome := by
  obtain ⟨trace, outcome, hleft⟩ := hargv left (by simp)
  obtain ⟨trace', outcome', hright⟩ := hargv right (by simp)
  cases outcome with
  | aborted message => exact ⟨_, _, .first_aborted hleft (by decide) (by decide)⟩
  | value text => exact ⟨_, _, .sequence hleft hright⟩

theorem Meaningful.abort (hargv : Meaningful script argv) (harity : argv.length ≤ 1) :
    ∃ trace outcome, Denotes script (.node .abort name argv start stop) trace outcome := by
  match argv, harity with
  | [], _ => exact ⟨_, _, .abort_nil⟩
  | [arg], _ =>
      obtain ⟨trace, outcome, harg⟩ := hargv arg (by simp)
      cases outcome with
      | aborted message => exact ⟨_, _, .abort_aborted harg⟩
      | value text => exact ⟨_, _, .abort_message harg⟩

end Meanings

theorem WellFormed.exists_denotes (hwell : WellFormed script expr) :
    ∃ trace outcome, Denotes script expr trace outcome := by
  induction hwell with
  | @node fn name argv start stop harity _ _ hargv =>
      have htwo : argv.length = 2 → ∃ left right, argv = [left, right] :=
        List.length_eq_two.mp
      cases fn with
      | literal =>
          obtain rfl := List.length_eq_zero_iff.mp harity
          exact ⟨_, _, .literal⟩
      | concat => exact Meaningful.concat hargv
      | stdout => exact Meaningful.stdout hargv
      | assert => exact Meaningful.assert hargv
      | ifElse =>
          match argv, harity with
          | [cond, yes], _ => exact Meaningful.ifElse hargv (by simp)
          | [cond, yes, no], _ => exact Meaningful.ifElse hargv (by simp)
      | abort => exact Meaningful.abort hargv harity
      | sleep =>
          obtain ⟨arg, rfl⟩ := List.length_eq_one_iff.mp harity
          obtain ⟨trace, outcome, harg⟩ := hargv arg (by simp)
          cases outcome with
          | aborted message => exact ⟨_, _, .first_aborted harg (by decide) (by decide)⟩
          | value text => exact ⟨_, _, .sleep harg⟩
      | logicalNot =>
          obtain ⟨arg, rfl⟩ := List.length_eq_one_iff.mp harity
          obtain ⟨trace, outcome, harg⟩ := hargv arg (by simp)
          cases outcome with
          | aborted message => exact ⟨_, _, .first_aborted harg (by decide) (by decide)⟩
          | value text => exact ⟨_, _, .logicalNot harg⟩
      | logicalAnd =>
          obtain ⟨left, right, rfl⟩ := htwo harity
          exact Meaningful.logicalAnd hargv
      | logicalOr =>
          obtain ⟨left, right, rfl⟩ := htwo harity
          exact Meaningful.logicalOr hargv
      | sequence =>
          obtain ⟨left, right, rfl⟩ := htwo harity
          exact Meaningful.sequence hargv
      | substring =>
          obtain ⟨left, right, rfl⟩ := htwo harity
          exact Meaningful.compare hargv fun _ _ => ⟨_, rfl⟩
      | equality =>
          obtain ⟨left, right, rfl⟩ := htwo harity
          exact Meaningful.compare hargv fun _ _ => ⟨_, rfl⟩
      | inequality =>
          obtain ⟨left, right, rfl⟩ := htwo harity
          exact Meaningful.compare hargv fun _ _ => ⟨_, rfl⟩
      | lessThanInt =>
          obtain ⟨left, right, rfl⟩ := htwo harity
          exact Meaningful.compare hargv fun _ _ => ⟨_, rfl⟩
      | greaterThanInt =>
          obtain ⟨left, right, rfl⟩ := htwo harity
          have hswapped : Meaningful script [right, left] := fun arg harg =>
            hargv arg (by simpa [or_comm] using harg)
          obtain ⟨trace, outcome, hless⟩ :=
            @Meaningful.compare _ .lessThanInt name start stop _ _ hswapped fun _ _ => ⟨_, rfl⟩
          exact ⟨_, _, .greaterThanInt hless⟩

theorem Denotes.unique {trace' : List Effect} {outcome' : Outcome}
    (hwell : WellFormed script expr) (hdenotes : Denotes script expr trace outcome)
    (hdenotes' : Denotes script expr trace' outcome') : trace' = trace ∧ outcome' = outcome := by
  have hruns := @Denotes.runs Empty (fun _ => Unit) _ _ _ _ hdenotes hwell ⟨script, none⟩ rfl
  have hruns' := @Denotes.runs Empty (fun _ => Unit) _ _ _ _ hdenotes' hwell ⟨script, none⟩ rfl
  obtain ⟨htrace, hresult⟩ := emit_inj (hruns'.symm.trans hruns)
  refine ⟨htrace, ?_⟩
  obtain ⟨htext, hafter⟩ := Prod.mk.inj (Except.ok.inj hresult)
  cases outcome <;> cases outcome' <;> simp_all [Outcome.text, Outcome.after]

end Trees

/-- Evaluation follows the rules: a well-formed expression has exactly one
meaning, and `Evaluate` performs its effects and nothing else, returns its value
without touching the error message, or returns a null pointer with the message of
the abort in the state. -/
theorem evaluateExpr_denotes
    (expr : Expr Builtin) (state : State) (hwell : WellFormed state.script expr) :
    ∃ trace outcome,
      (∀ trace' outcome', Denotes state.script expr trace' outcome' ↔
        trace' = trace ∧ outcome' = outcome) ∧
      Runs (evaluateExpr Builtin.fn expr : Eval Op Reply (Option Bytes)) state trace outcome.text
        (outcome.after state) ∧
      (outcome.text = none → (outcome.after state).errmsg.isSome) := by
  obtain ⟨trace, outcome, hdenotes⟩ := hwell.exists_denotes
  refine ⟨trace, outcome, ?_, (hdenotes.runs hwell rfl).evaluate, ?_⟩
  · intro trace' outcome'
    refine ⟨hdenotes.unique hwell, ?_⟩
    rintro ⟨rfl, rfl⟩
    exact hdenotes
  · intro hnone
    cases outcome with
    | value text => cases hnone
    | aborted message => rfl

/-- The tree of `stdout(a) || abort(b)`. -/
def sampleExpr : Expr Builtin :=
  .node .logicalOr (ascii "(operator)")
    [.node .stdout (ascii "stdout") [.node .literal (ascii "a") [] 7 8] 0 9,
      .node .abort (ascii "abort") [.node .literal (ascii "b") [] 19 20] 13 21] 0 21

theorem sampleExpr_wellFormed (script : Bytes) : WellFormed script sampleExpr := by
  refine .node rfl ?_ (fun hfn => nomatch hfn)
  have hliteral : ∀ name start stop, WellFormed script (.node .literal name [] start stop) :=
    fun name start stop => .node rfl (by simp) (by simp)
  rw [List.forall_mem_cons, List.forall_mem_singleton]
  refine ⟨.node trivial ?_ (fun hfn => nomatch hfn), .node (Nat.le_refl 1) ?_ (fun hfn => nomatch hfn)⟩
  · exact List.forall_mem_singleton.mpr (hliteral _ _ _)
  · exact List.forall_mem_singleton.mpr (hliteral _ _ _)

theorem evaluateExpr_denotes_sample :
    WellFormed (ascii "stdout(a) || abort(b)") sampleExpr ∧
      Runs (evaluateExpr Builtin.fn sampleExpr : Eval Empty (fun _ => Unit) (Option Bytes))
        ⟨ascii "stdout(a) || abort(b)", none⟩ [.stdout (ascii "a")] none
        ⟨ascii "stdout(a) || abort(b)", some (ascii "b")⟩ := by
  refine ⟨sampleExpr_wellFormed _, ?_⟩
  obtain ⟨trace, outcome, hunique, hruns, -⟩ := @evaluateExpr_denotes Empty (fun _ => Unit)
      sampleExpr ⟨ascii "stdout(a) || abort(b)", none⟩ (sampleExpr_wellFormed _)
  have hdenotes : Denotes (ascii "stdout(a) || abort(b)") sampleExpr [.stdout (ascii "a")]
      (.aborted (ascii "b")) :=
    .logicalOr_false (.stdout_cons .literal .stdout_nil) (.abort_message .literal)
  obtain ⟨rfl, rfl⟩ := (hunique _ _).mp hdenotes
  exact hruns

end OpenRecovery.Edify
