import OpenRecovery.EdifySemantics
import OpenRecovery.ArgumentFailures
import OpenRecovery.EdifyParser
import Mathlib

/-!
# How many arguments a call has, and how many its function reads

Most functions compare the number of their arguments with the number they want before
they read any.  Some read a fixed number without a look: an operator, which the grammar
always gives that number, but also five functions that a script calls by name.
-/

namespace OpenRecovery.Edify

open Effects

section NeverMissing

variable {Op : Type} {Reply : Op → Type} {α β : Type}

/-- Whatever the replies, no argument is read that the call does not have. -/
def NeverMissing (program : Eval Op Reply α) : Prop :=
  ∀ state, (program.run state).run.Returns (· ≠ .error .missingArgument)

theorem neverMissing_pure (value : α) : NeverMissing (pure value : Eval Op Reply α) :=
  fun _ => nofun

theorem neverMissing_stuck (reason : Stuck) :
    NeverMissing (stuck (.stuck reason) : Eval Op Reply α) :=
  fun _ => nofun

theorem neverMissing_fail (message : Bytes) :
    NeverMissing (fail message : Eval Op Reply (Option α)) :=
  fun _ => nofun

theorem neverMissing_errorAbort (message : Bytes) :
    NeverMissing (errorAbort message : Eval Op Reply (Option α)) :=
  neverMissing_fail _

theorem neverMissing_stringValue (text : Bytes) :
    NeverMissing (stringValue text : Eval Op Reply (Option Value)) :=
  neverMissing_pure _

theorem neverMissing_request (op : EdifyOp Op) :
    NeverMissing (request op : Eval Op Reply (EdifyOp.Reply Reply op)) :=
  fun _ _ => nofun

theorem NeverMissing.bind {program : Eval Op Reply α} {rest : α → Eval Op Reply β}
    (hfirst : NeverMissing program) (hrest : ∀ value, NeverMissing (rest value)) :
    NeverMissing (program >>= rest) := by
  intro state
  refine (hfirst state).bind fun result hresult => ?_
  cases result with
  | error fault => exact fun h => hresult (congrArg _ (Except.error.inj h))
  | ok pair => exact hrest pair.1 pair.2

theorem NeverMissing.unlessNull {program : Eval Op Reply (Option α)}
    {rest : α → Eval Op Reply (Option β)}
    (hfirst : NeverMissing program) (hrest : ∀ value, NeverMissing (rest value)) :
    NeverMissing (Edify.unlessNull program rest) := by
  refine hfirst.bind fun result => ?_
  cases result with
  | none => exact neverMissing_pure none
  | some value => exact hrest value

theorem NeverMissing.ite {condition : Prop} [Decidable condition] {program other : Eval Op Reply α}
    (hprogram : condition → NeverMissing program) (hother : ¬condition → NeverMissing other) :
    NeverMissing (if condition then program else other) := by
  split
  · exact hprogram ‹_›
  · exact hother ‹_›

theorem neverMissing_stringOf (value : Option Value) :
    NeverMissing (stringOf value : Eval Op Reply (Option Bytes)) := by
  match value with
  | none => exact neverMissing_pure none
  | some (.string data) => exact neverMissing_pure (some data)
  | some (.blob _) => exact neverMissing_errorAbort _

/-- The evaluation of the argument does not read a missing argument. -/
def Arg.Guards (arg : Arg Op Reply) : Prop :=
  NeverMissing arg.evaluateValue

variable {arg : Arg Op Reply} {argv : List (Arg Op Reply)}

theorem Arg.Guards.evaluate (harg : arg.Guards) : NeverMissing (Edify.evaluate arg) :=
  NeverMissing.bind harg neverMissing_stringOf

theorem neverMissing_argAt {i : Nat} {rest : Arg Op Reply → Eval Op Reply α}
    (hargv : ∀ arg ∈ argv, arg.Guards) (hi : i < argv.length)
    (hrest : ∀ arg, arg.Guards → NeverMissing (rest arg)) :
    NeverMissing (argAt argv i >>= rest) := by
  rw [argAt, List.getElem?_eq_getElem hi]
  exact hrest _ (hargv _ (List.getElem_mem hi))

theorem neverMissing_readCount {count : Nat}
    {read : Arg Op Reply → Eval Op Reply (Option α)}
    (hread : ∀ arg, arg.Guards → NeverMissing (read arg))
    (hargv : ∀ arg ∈ argv, arg.Guards) (hcount : count ≤ argv.length) :
    NeverMissing (readCount read count argv) := by
  induction count generalizing argv with
  | zero => exact neverMissing_pure _
  | succ count ih =>
      match argv, hcount with
      | arg :: argv, hcount =>
          refine (hread arg (hargv arg (List.mem_cons_self ..))).unlessNull fun value => ?_
          refine (ih (fun arg harg => hargv arg (List.mem_cons_of_mem _ harg))
            (Nat.le_of_succ_le_succ hcount)).unlessNull fun values => ?_
          exact neverMissing_pure _

theorem neverMissing_readArgs {count : Nat}
    (hargv : ∀ arg ∈ argv, arg.Guards) (hcount : count ≤ argv.length) :
    NeverMissing (readArgs argv count) :=
  neverMissing_readCount (fun _ => Arg.Guards.evaluate) hargv hcount

theorem neverMissing_readVarArgs (hargv : ∀ arg ∈ argv, arg.Guards) :
    NeverMissing (readVarArgs argv) :=
  neverMissing_readArgs hargv le_rfl

theorem neverMissing_readValueVarArgs (hargv : ∀ arg ∈ argv, arg.Guards) :
    NeverMissing (readValueVarArgs argv) :=
  neverMissing_readCount (fun _ harg => harg) hargv le_rfl

/-! ## The functions of `expr.c` -/

/-- The number of arguments that a function reads without asking how many there are. -/
def Builtin.unchecked : Builtin → Option Nat
  | .sleep => some 1
  | .substring => some 2
  | .logicalNot => some 1
  | .logicalAnd => some 2
  | .logicalOr => some 2
  | .equality => some 2
  | .inequality => some 2
  | .sequence => some 2
  | _ => none

theorem neverMissing_assertLoop (hargv : ∀ arg ∈ argv, arg.Guards) :
    NeverMissing (assertLoop argv) := by
  induction argv with
  | nil => exact neverMissing_stringValue _
  | cons arg argv ih =>
      obtain ⟨harg, hargv⟩ := List.forall_mem_cons.mp hargv
      refine harg.evaluate.unlessNull fun v => ?_
      refine NeverMissing.ite (fun _ => ih hargv) fun _ => ?_
      refine NeverMissing.bind (fun state => ?_) fun text => neverMissing_fail _
      simp only [StateT.run, sourceText]
      split <;> nofun

theorem neverMissing_stdoutLoop (hargv : ∀ arg ∈ argv, arg.Guards) :
    NeverMissing (stdoutLoop argv) := by
  induction argv with
  | nil => exact neverMissing_stringValue _
  | cons arg argv ih =>
      obtain ⟨harg, hargv⟩ := List.forall_mem_cons.mp hargv
      exact harg.evaluate.unlessNull fun v => (neverMissing_request _).bind fun _ => ih hargv

section Operators

variable (hargv : ∀ arg ∈ argv, arg.Guards)
include hargv

theorem neverMissing_logicalFn {goOn : Bool} (name : Bytes) (htwo : argv.length = 2) :
    NeverMissing (logicalFn goOn name argv) := by
  refine neverMissing_argAt hargv (by omega) fun first hfirst => ?_
  refine hfirst.evaluate.unlessNull fun left => ?_
  refine NeverMissing.ite (fun _ => ?_) fun _ => neverMissing_stringValue _
  exact neverMissing_argAt hargv (by omega) fun second hsecond => hsecond

theorem neverMissing_comparisonFn {holds : Bytes → Bytes → Bool} (name : Bytes)
    (htwo : argv.length = 2) : NeverMissing (comparisonFn holds name argv) := by
  refine neverMissing_argAt hargv (by omega) fun first hfirst => ?_
  refine hfirst.evaluate.unlessNull fun left => ?_
  refine neverMissing_argAt hargv (by omega) fun second hsecond => ?_
  exact hsecond.evaluate.unlessNull fun right => neverMissing_stringValue _

theorem neverMissing_lessThanIntFn (name : Bytes) : NeverMissing (lessThanIntFn name argv) := by
  refine NeverMissing.ite (fun _ => neverMissing_fail _) fun hargc => ?_
  refine (neverMissing_readArgs hargv (by omega)).unlessNull fun args => ?_
  unfold withTwo
  split
  · exact neverMissing_stringValue _
  · exact neverMissing_stuck _

theorem neverMissing_ifElseFn (name : Bytes) : NeverMissing (ifElseFn name argv) := by
  refine NeverMissing.ite (fun _ => neverMissing_fail _) fun hargc => ?_
  refine neverMissing_argAt hargv (by omega) fun first hfirst => ?_
  refine hfirst.evaluate.unlessNull fun cond => ?_
  refine NeverMissing.ite (fun _ => ?_) fun _ => NeverMissing.ite (fun hthree => ?_) fun _ => ?_
  · exact neverMissing_argAt hargv (by omega) fun second hsecond => hsecond
  · exact neverMissing_argAt hargv (by omega) fun third hthird => hthird
  · exact neverMissing_stringValue _

/-- A function that asks for the number of its arguments, or that has the number it
reads, never reads a missing one. -/
theorem neverMissing_builtin (fn : Builtin) (name : Bytes)
    (hcount : ∀ count, fn.unchecked = some count → argv.length = count) :
    NeverMissing (fn.fn name argv) := by
  cases fn with
  | literal => exact neverMissing_stringValue _
  | concat => exact (neverMissing_readVarArgs hargv).unlessNull fun _ => neverMissing_stringValue _
  | ifElse => exact neverMissing_ifElseFn hargv name
  | abort =>
      have hmessage : NeverMissing (abortMessage argv) := by
        cases argv with
        | nil => exact neverMissing_pure none
        | cons arg argv => exact (hargv arg (List.mem_cons_self ..)).evaluate
      refine hmessage.bind fun message => ?_
      cases message with
      | none => exact neverMissing_fail _
      | some msg => exact neverMissing_fail _
  | assert => exact neverMissing_assertLoop hargv
  | sleep =>
      have hone := hcount 1 rfl
      refine neverMissing_argAt hargv (by omega) fun arg harg => ?_
      refine harg.evaluate.unlessNull fun val => ?_
      exact (neverMissing_request _).bind fun _ => neverMissing_stringValue _
  | stdout => exact neverMissing_stdoutLoop hargv
  | logicalAnd => exact neverMissing_logicalFn hargv name (hcount 2 rfl)
  | logicalOr => exact neverMissing_logicalFn hargv name (hcount 2 rfl)
  | logicalNot =>
      have hone := hcount 1 rfl
      refine neverMissing_argAt hargv (by omega) fun arg harg => ?_
      exact harg.evaluate.unlessNull fun val => neverMissing_stringValue _
  | substring => exact neverMissing_comparisonFn hargv name (hcount 2 rfl)
  | equality => exact neverMissing_comparisonFn hargv name (hcount 2 rfl)
  | inequality => exact neverMissing_comparisonFn hargv name (hcount 2 rfl)
  | sequence =>
      have htwo := hcount 2 rfl
      refine neverMissing_argAt hargv (by omega) fun first hfirst => ?_
      refine NeverMissing.unlessNull hfirst fun _ => ?_
      exact neverMissing_argAt hargv (by omega) fun second hsecond => hsecond
  | lessThanInt => exact neverMissing_lessThanIntFn hargv name
  | greaterThanInt =>
      refine NeverMissing.ite (fun _ => neverMissing_fail _) fun hargc => ?_
      refine neverMissing_argAt hargv (by omega) fun second hsecond => ?_
      refine neverMissing_argAt hargv (by omega) fun first hfirst => ?_
      exact neverMissing_lessThanIntFn
        (List.forall_mem_cons.mpr ⟨hsecond, List.forall_mem_singleton.mpr hfirst⟩) name

end Operators

end NeverMissing

/-! ## The functions of the updater -/

section Install

variable {α : Type} {argv : List UpdaterArg}

/-- The number of arguments that a function reads without asking how many there are. -/
def InstallFunction.unchecked : InstallFunction → Option Nat
  | .fileGetprop => some 2
  | .writeRawImage => some 2
  | .applyPatchSpace => some 1
  | _ => none

/-- What is done after the arguments have been read cannot miss one. -/
theorem neverMissing_act (program : Update α) : NeverMissing (act program) := by
  intro state
  refine (Prog.returns_trivial _).bind fun result _ => ?_
  cases result with
  | error reason => nofun
  | ok pair => nofun

section Reading

variable (hargv : ∀ arg ∈ argv, arg.Guards)
include hargv

theorem neverMissing_readOne {rest : Bytes → UpdaterEval (Option α)} (hcount : 1 ≤ argv.length)
    (hrest : ∀ first, NeverMissing (rest first)) : NeverMissing (readOne argv rest) := by
  refine (neverMissing_readArgs hargv hcount).unlessNull fun args => ?_
  split
  · exact hrest _
  · exact neverMissing_stuck _

theorem neverMissing_readTwo {rest : Bytes → Bytes → UpdaterEval (Option α)}
    (hcount : 2 ≤ argv.length) (hrest : ∀ first second, NeverMissing (rest first second)) :
    NeverMissing (readTwo argv rest) := by
  refine (neverMissing_readArgs hargv hcount).unlessNull fun args => ?_
  split
  · exact hrest _ _
  · exact neverMissing_stuck _

theorem neverMissing_readThree {rest : Bytes → Bytes → Bytes → UpdaterEval (Option α)}
    (hcount : 3 ≤ argv.length)
    (hrest : ∀ first second third, NeverMissing (rest first second third)) :
    NeverMissing (readThree argv rest) := by
  refine (neverMissing_readArgs hargv hcount).unlessNull fun args => ?_
  split
  · exact hrest _ _ _
  · exact neverMissing_stuck _

theorem neverMissing_readFour {rest : Bytes → Bytes → Bytes → Bytes → UpdaterEval (Option α)}
    (hcount : 4 ≤ argv.length)
    (hrest : ∀ first second third fourth, NeverMissing (rest first second third fourth)) :
    NeverMissing (readFour argv rest) := by
  refine (neverMissing_readArgs hargv hcount).unlessNull fun args => ?_
  split
  · exact hrest _ _ _ _
  · exact neverMissing_stuck _

theorem neverMissing_deletePaths (i : Nat) : NeverMissing (deletePaths i argv) := by
  induction argv generalizing i with
  | nil => exact neverMissing_pure _
  | cons arg argv ih =>
      obtain ⟨harg, hargv⟩ := List.forall_mem_cons.mp hargv
      refine harg.evaluate.bind fun path => ?_
      cases path with
      | none =>
          exact NeverMissing.ite (fun _ => neverMissing_stuck _) fun _ => neverMissing_pure none
      | some path => exact (ih hargv (i + 1)).unlessNull fun paths => neverMissing_pure _

theorem neverMissing_deleteFn (name : Bytes) : NeverMissing (deleteFn name argv) :=
  (neverMissing_deletePaths hargv 0).unlessNull fun _ => neverMissing_act _

theorem neverMissing_setPermFn (platform : Platform) (name : Bytes) :
    NeverMissing (setPermFn platform name argv) := by
  refine NeverMissing.ite (fun _ => neverMissing_errorAbort _) fun _ => ?_
  exact (neverMissing_readVarArgs hargv).unlessNull fun _ => neverMissing_act _

theorem neverMissing_applyPatchFn (platform : Platform) (name : Bytes) :
    NeverMissing (applyPatchFn platform name argv) := by
  refine NeverMissing.ite (fun _ => neverMissing_errorAbort _) fun hargc => ?_
  refine neverMissing_readFour hargv (by omega) fun source target targetSha1 sizeStr => ?_
  split
  · exact neverMissing_errorAbort _
  · refine NeverMissing.bind ?_ fun patches => neverMissing_act _
    exact neverMissing_readValueVarArgs fun arg harg => hargv arg (List.mem_of_mem_drop harg)

theorem neverMissing_applyPatchCheckFn (platform : Platform) (name : Bytes) :
    NeverMissing (applyPatchCheckFn platform name argv) := by
  refine NeverMissing.ite (fun _ => neverMissing_errorAbort _) fun hargc => ?_
  refine neverMissing_readOne hargv (by omega) fun filename => ?_
  refine NeverMissing.bind ?_ fun sha1s => neverMissing_act _
  exact neverMissing_readVarArgs fun arg harg => hargv arg (List.mem_of_mem_drop harg)

theorem neverMissing_packageExtractFileFn (platform : Platform) (name : Bytes) :
    NeverMissing (packageExtractFileFn platform name argv) := by
  refine NeverMissing.ite (fun _ => neverMissing_errorAbort _) fun hargc => ?_
  refine NeverMissing.ite (fun htwo => ?_) fun htwo => ?_
  · exact neverMissing_readTwo hargv (by omega) fun _ _ => neverMissing_act _
  · exact neverMissing_readOne hargv (by omega) fun _ => neverMissing_act _

theorem neverMissing_install (fn : InstallFunction) (platform : Platform) (name : Bytes)
    (hcount : ∀ count, fn.unchecked = some count → argv.length = count) :
    NeverMissing (fn.fn platform name argv) := by
  cases fn with
  | mount =>
      refine NeverMissing.ite (fun _ => neverMissing_errorAbort _) fun hargc => ?_
      exact neverMissing_readThree hargv (by omega) fun _ _ _ => neverMissing_act _
  | isMounted =>
      refine NeverMissing.ite (fun _ => neverMissing_errorAbort _) fun hargc => ?_
      exact neverMissing_readOne hargv (by omega) fun _ => neverMissing_act _
  | unmount =>
      refine NeverMissing.ite (fun _ => neverMissing_errorAbort _) fun hargc => ?_
      exact neverMissing_readOne hargv (by omega) fun _ => neverMissing_act _
  | format =>
      refine NeverMissing.ite (fun _ => neverMissing_errorAbort _) fun hargc => ?_
      exact neverMissing_readTwo hargv (by omega) fun _ _ => neverMissing_act _
  | showProgress =>
      refine NeverMissing.ite (fun _ => neverMissing_errorAbort _) fun hargc => ?_
      exact neverMissing_readTwo hargv (by omega) fun _ _ => neverMissing_act _
  | setProgress =>
      refine NeverMissing.ite (fun _ => neverMissing_errorAbort _) fun hargc => ?_
      exact neverMissing_readOne hargv (by omega) fun _ => neverMissing_act _
  | delete => exact neverMissing_deleteFn hargv name
  | deleteRecursive => exact neverMissing_deleteFn hargv name
  | packageExtractDir =>
      refine NeverMissing.ite (fun _ => neverMissing_errorAbort _) fun hargc => ?_
      exact neverMissing_readTwo hargv (by omega) fun _ _ => neverMissing_act _
  | packageExtractFile => exact neverMissing_packageExtractFileFn hargv platform name
  | symlink =>
      cases argv with
      | nil => exact neverMissing_errorAbort _
      | cons first rest =>
          obtain ⟨hfirst, hrest⟩ := List.forall_mem_cons.mp hargv
          refine hfirst.evaluate.unlessNull fun target => ?_
          exact (neverMissing_readVarArgs hrest).unlessNull fun srcs => neverMissing_act _
  | setPerm => exact neverMissing_setPermFn hargv platform name
  | setPermRecursive => exact neverMissing_setPermFn hargv platform name
  | getprop =>
      refine NeverMissing.ite (fun _ => neverMissing_errorAbort _) fun hargc => ?_
      refine neverMissing_argAt hargv (by omega) fun arg harg => ?_
      exact harg.evaluate.unlessNull fun key => neverMissing_act _
  | fileGetprop =>
      exact neverMissing_readTwo hargv (hcount 2 rfl).ge fun _ _ => neverMissing_act _
  | writeRawImage =>
      exact neverMissing_readTwo hargv (hcount 2 rfl).ge fun _ _ => neverMissing_act _
  | applyPatch => exact neverMissing_applyPatchFn hargv platform name
  | applyPatchCheck => exact neverMissing_applyPatchCheckFn hargv platform name
  | applyPatchSpace =>
      exact neverMissing_readOne hargv (hcount 1 rfl).ge fun _ => neverMissing_act _
  | readFile =>
      refine NeverMissing.ite (fun _ => neverMissing_errorAbort _) fun hargc => ?_
      exact neverMissing_readOne hargv (by omega) fun _ => neverMissing_act _
  | sha1Check =>
      refine NeverMissing.ite (fun _ => neverMissing_errorAbort _) fun _ => ?_
      exact (neverMissing_readValueVarArgs hargv).unlessNull fun _ => neverMissing_act _
  | uiPrint => exact (neverMissing_readVarArgs hargv).unlessNull fun _ => neverMissing_act _
  | runProgram =>
      refine NeverMissing.ite (fun _ => neverMissing_errorAbort _) fun _ => ?_
      exact (neverMissing_readVarArgs hargv).unlessNull fun _ => neverMissing_act _

end Reading

end Install

/-! ## A wrong number of arguments -/

section Complaints

variable {Op : Type} {Reply : Op → Type}

/-- The evaluation of the argument returns, with a value or a null pointer. -/
def Arg.Total (arg : Arg Op Reply) : Prop :=
  ∀ state, (arg.evaluateValue.run state).run.Returns fun result =>
    ∃ value after, result = .ok (value, after)

/-- The call returns a null pointer and leaves an error message. -/
def Complains (program : Eval Op Reply (Option Value)) : Prop :=
  ∀ state, (program.run state).run.Returns fun result =>
    ∃ after message, result = .ok (none, after) ∧ after.errmsg = some message

theorem complains_fail (message : Bytes) :
    Complains (fail message : Eval Op Reply (Option Value)) :=
  fun state => ⟨{ state with errmsg := some message }, message, rfl, rfl⟩

theorem complains_if {wrong : Prop} [Decidable wrong] {message : Bytes}
    {program : Eval Op Reply (Option Value)} (hwrong : wrong) :
    Complains (if wrong then fail message else program) := by
  rw [if_pos hwrong]
  exact complains_fail message

theorem complains_abortFn (name : Bytes) {argv : List (Arg Op Reply)}
    (hargv : ∀ arg ∈ argv, arg.Total) : Complains (abortFn name argv) := by
  intro state
  cases argv with
  | nil => exact ⟨_, _, rfl, rfl⟩
  | cons arg argv =>
      have htext : Prog.Returns (fun result => ∃ text after, result = .ok (text, after))
          ((evaluate arg).run state).run := by
        refine (hargv arg (List.mem_cons_self ..) state).bind ?_
        rintro _ ⟨value, after, rfl⟩
        match value with
        | none => exact ⟨_, _, rfl⟩
        | some (.string data) => exact ⟨_, _, rfl⟩
        | some (.blob _) => exact ⟨_, _, rfl⟩
      refine htext.bind ?_
      · rintro _ ⟨text, after, rfl⟩
        cases text with
        | none => exact ⟨_, _, rfl, rfl⟩
        | some msg => exact ⟨_, _, rfl, rfl⟩

end Complaints

namespace UpdaterFn

/-- The number of arguments that a function reads without asking how many there are. -/
def unchecked : UpdaterFn → Option Nat
  | .core fn => fn.unchecked
  | .install fn => fn.unchecked

/-- The numbers of arguments that a function is meant for. -/
def Takes : UpdaterFn → Nat → Prop
  | .core fn, argc => fn.Accepts argc
  | .install .fileGetprop, argc => argc = 2
  | .install .writeRawImage, argc => argc = 2
  | .install .applyPatchSpace, argc => argc = 1
  | .install fn, argc => fn.Accepts argc

end UpdaterFn

/-- A call of a script: the function, its name, and how many arguments it is given. -/
structure Call where
  fn : UpdaterFn
  name : Bytes
  argc : Nat

namespace Call

/-- The calls that the grammar can make: a function of its own with a right number of
arguments, or one of the table with any number. -/
def Possible (call : Call) : Prop :=
  (∃ fn : Builtin, call.fn = .core fn ∧ fn.Accepts call.argc) ∨
    fnTable.lookup call.name = some call.fn

/-- A function that does not ask has the arguments that it reads. -/
def Counted (call : Call) : Prop :=
  ∀ count, call.fn.unchecked = some count → call.argc = count

/-- A wrong number of arguments makes the call fail with a message, if its arguments
do not get stuck. -/
def Reports (call : Call) : Prop :=
  ¬call.fn.Takes call.argc → ∀ (platform : Platform) (argv : List UpdaterArg),
    argv.length = call.argc → (∀ arg ∈ argv, arg.Total) →
      Complains (call.fn.fn platform call.name argv)

end Call

theorem mem_fnTable {name : Bytes} {fn : UpdaterFn} (hlookup : fnTable.lookup name = some fn) :
    (name, fn) ∈ fnTable := by
  obtain ⟨before, after, htable, -⟩ := List.lookup_eq_some_iff.mp hlookup
  rw [htable]
  simp

/-- The functions that can be called by name. -/
theorem fnTable_cases {name : Bytes} {fn : UpdaterFn} (hlookup : fnTable.lookup name = some fn) :
    (∃ entry ∈ namedBuiltins, entry.1 = name ∧ fn = .core entry.2) ∨
      ∃ install : InstallFunction, name = install.name ∧ fn = .install install := by
  have hmem := mem_fnTable hlookup
  rw [fnTable, List.mem_append, List.mem_map, List.mem_map] at hmem
  rcases hmem with ⟨entry, hentry, hpair⟩ | ⟨install, -, hpair⟩
  · exact .inl ⟨entry, hentry, congrArg Prod.fst hpair, (congrArg Prod.snd hpair).symm⟩
  · exact .inr ⟨install, (congrArg Prod.fst hpair).symm, (congrArg Prod.snd hpair).symm⟩

theorem namedBuiltins_wrong_count {name : Bytes} {fn : Builtin} (hmem : (name, fn) ∈ namedBuiltins)
    {argv : List UpdaterArg} (hchecked : fn.unchecked = none) (hwrong : ¬fn.Accepts argv.length)
    (hargv : ∀ arg ∈ argv, arg.Total) : Complains (fn.fn name argv) := by
  cases fn with
  | concat => exact absurd trivial hwrong
  | assert => exact absurd trivial hwrong
  | stdout => exact absurd trivial hwrong
  | abort => exact complains_abortFn name hargv
  | ifElse => exact complains_if (not_or.mp hwrong)
  | lessThanInt => exact complains_if hwrong
  | greaterThanInt => exact complains_if hwrong
  | literal => exact absurd hmem (by simp [namedBuiltins])
  | _ => cases hchecked

theorem install_wrong_count (fn : InstallFunction) (platform : Platform) {argv : List UpdaterArg}
    (hchecked : fn.unchecked = none) (hwrong : ¬fn.Accepts argv.length) :
    Complains (fn.fn platform fn.name argv) := by
  cases fn with
  | delete => exact absurd trivial hwrong
  | deleteRecursive => exact absurd trivial hwrong
  | uiPrint => exact absurd trivial hwrong
  | packageExtractFile => exact complains_if (not_or.mp hwrong)
  | symlink =>
      have hnil := List.length_eq_zero_iff.mp (Nat.lt_one_iff.mp (not_le.mp hwrong))
      rw [hnil]
      exact complains_fail _
  | setPerm =>
      have hname : InstallFunction.setPerm.name ≠ ascii "set_perm_recursive" := by decide
      refine complains_if ?_
      rw [if_neg (by simpa using hname)]
      exact not_le.mp hwrong
  | setPermRecursive =>
      refine complains_if ?_
      exact not_le.mp hwrong
  | applyPatch =>
      refine complains_if ?_
      rcases not_and_or.mp hwrong with hfew | hodd <;> omega
  | applyPatchCheck => exact complains_if (not_le.mp hwrong)
  | sha1Check => exact complains_if (not_le.mp hwrong)
  | runProgram => exact complains_if (not_le.mp hwrong)
  | fileGetprop => cases hchecked
  | writeRawImage => cases hchecked
  | applyPatchSpace => cases hchecked
  | _ => exact complains_if hwrong

/-- An unchecked function is meant for the number of arguments that it reads. -/
theorem takes_iff_of_unchecked {fn : UpdaterFn} {count : Nat} (hfn : fn.unchecked = some count)
    (argc : Nat) : fn.Takes argc ↔ argc = count := by
  cases fn with
  | core fn => cases fn <;> cases hfn <;> rfl
  | install fn => cases fn <;> cases hfn <;> rfl

theorem Call.Counted.reports {call : Call} (hpossible : call.Possible) (hcounted : call.Counted) :
    call.Reports := by
  obtain ⟨fn, name, argc⟩ := call
  intro hwrong platform argv hargc hargv
  dsimp only at hwrong hargc hargv ⊢
  subst hargc
  have hchecked : fn.unchecked = none := by
    cases hfn : fn.unchecked with
    | none => rfl
    | some count => exact absurd ((takes_iff_of_unchecked hfn _).mpr (hcounted count hfn)) hwrong
  rcases hpossible with ⟨core, hcore, haccepts⟩ | hlookup
  · obtain rfl : fn = .core core := hcore
    exact absurd haccepts hwrong
  · rcases fnTable_cases hlookup with ⟨⟨_, core⟩, hmem, rfl, rfl⟩ | ⟨install, rfl, rfl⟩
    · exact namedBuiltins_wrong_count hmem hchecked hwrong hargv
    · refine install_wrong_count install platform hchecked fun haccepts => hwrong ?_
      cases install with
      | fileGetprop => cases hchecked
      | writeRawImage => cases hchecked
      | applyPatchSpace => cases hchecked
      | _ => exact haccepts

/-! ## Functions that do not ask -/

/-- A call that does something else in some world does not complain. -/
theorem not_complains {program : UpdaterEval (Option Value)} (world : World)
    {result : Except Fault (Option Value × State)}
    (hexecute : (execute (quietHandle sampleEnv) program sampleState world).1 = result)
    (hresult : ∀ after, result ≠ .ok (none, after)) : ¬Complains program := by
  intro hcomplains
  obtain ⟨after, message, hnull, -⟩ :=
    @Prog.Returns.run_value _ _ _ _ (quietHandle sampleEnv) _ _ (hcomplains sampleState) world
  exact hresult after (hexecute.symm.trans hnull)

/-- The argument `0` of a script. -/
def zeroArg : UpdaterArg := ⟨literal (ascii "0") [], 0, 0⟩

theorem zeroArg_total : zeroArg.Total :=
  fun _ => ⟨_, _, rfl⟩

/-- A world in which every file holds one property. -/
def propertyWorld : World :=
  { emptyWorld with files := fun _ => some ⟨ascii "0=1", 0, 0, 0⟩ }

/-- A builtin that does not ask says nothing about a wrong number of arguments. -/
theorem Builtin.silent {name : Bytes} {fn : Builtin} {count : Nat}
    (hmem : (name, fn) ∈ namedBuiltins) (hfn : fn.unchecked = some count) (argc : Nat) :
    ¬Complains (fn.fn name (List.replicate argc zeroArg)) := by
  cases fn with
  | sleep =>
      match argc with
      | 0 => exact not_complains emptyWorld rfl nofun
      | argc + 1 => exact not_complains emptyWorld rfl nofun
  | substring =>
      match argc with
      | 0 => exact not_complains emptyWorld rfl nofun
      | 1 => exact not_complains emptyWorld rfl nofun
      | argc + 2 => exact not_complains emptyWorld rfl nofun
  | logicalAnd | logicalOr | logicalNot | equality | inequality | sequence =>
      exact absurd hmem (by simp [namedBuiltins])
  | _ => cases hfn

theorem InstallFunction.silent {fn : InstallFunction} {count : Nat}
    (hfn : fn.unchecked = some count) (argc : Nat) :
    ¬Complains (fn.fn samplePlatform fn.name (List.replicate argc zeroArg)) := by
  cases fn with
  | fileGetprop =>
      match argc with
      | 0 => exact not_complains propertyWorld rfl nofun
      | 1 => exact not_complains propertyWorld rfl nofun
      | argc + 2 => exact not_complains propertyWorld rfl nofun
  | writeRawImage =>
      match argc with
      | 0 => exact not_complains emptyWorld rfl nofun
      | 1 => exact not_complains emptyWorld rfl nofun
      | argc + 2 => exact not_complains emptyWorld rfl nofun
  | applyPatchSpace =>
      match argc with
      | 0 => exact not_complains emptyWorld rfl nofun
      | argc + 1 => exact not_complains emptyWorld rfl nofun
  | _ => cases hfn

/-- A wrong number of arguments is always reported, except by the functions that do not
ask. -/
theorem Call.reports_iff {call : Call} (hpossible : call.Possible) :
    call.Reports ↔ call.Counted := by
  refine ⟨fun hreports count hfn => ?_, Call.Counted.reports hpossible⟩
  by_contra hargc
  obtain ⟨fn, name, argc⟩ := call
  dsimp only at hfn hargc
  have hwrong : ¬fn.Takes argc := fun h => hargc ((takes_iff_of_unchecked hfn argc).mp h)
  have hcomplains := hreports hwrong samplePlatform (List.replicate argc zeroArg)
    (List.length_replicate ..) fun arg harg => List.eq_of_mem_replicate harg ▸ zeroArg_total
  dsimp only at hcomplains
  rcases hpossible with ⟨core, hcore, haccepts⟩ | hlookup
  · obtain rfl : fn = .core core := hcore
    exact hwrong haccepts
  · rcases fnTable_cases hlookup with ⟨⟨_, core⟩, hmem, rfl, rfl⟩ | ⟨install, rfl, rfl⟩
    · exact Builtin.silent hmem hfn argc hcomplains
    · exact InstallFunction.silent hfn argc hcomplains

end OpenRecovery.Edify
