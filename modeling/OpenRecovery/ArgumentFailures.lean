import OpenRecovery.Updater
import Mathlib

/-!
# What a failing argument does to a call

A call reads its arguments in order.  If one of them gives a null pointer, the
call should do nothing more and give a null pointer itself, so that it leaves
the state and the rest of the system as the arguments left them.  Three of the
functions of the updater do something else when the argument is not among the
first.
-/

namespace OpenRecovery.Edify

open Effects

section Execution

variable {ε Op : Type} {Reply : Op → Type} {α β σ : Type}
variable (handle : (op : EdifyOp Op) → σ → EdifyOp.Reply Reply op × σ)

/-- Run a computation, with `handle` for the rest of the system. -/
def execute (program : EvalT ε Op Reply α) (state : State) (world : σ) :
    Except ε (α × State) × σ :=
  (program.run state).run.run handle world

/-- The result of reading an argument, by `EvaluateValue` if `raw` is set and by
`Evaluate` otherwise. -/
def ReadsAs (raw : Bool) (arg : Arg Op Reply) (state : State) (world : σ) (result : Option Value)
    (state' : State) (world' : σ) : Prop :=
  if raw then execute handle arg.evaluateValue state world = (.ok (result, state'), world')
  else ∃ text, result = text.map Value.string ∧
    execute handle (evaluate arg) state world = (.ok (text, state'), world')

/-- The arguments are read in order: the first ones have the given values, and
the next one gives a null pointer. -/
inductive FailsAt : (raw : Nat → Bool) → List (Arg Op Reply) → State → σ → List Value →
    State → σ → Prop where
  | now {raw : Nat → Bool} {arg : Arg Op Reply} {argv : List (Arg Op Reply)}
      {state state' : State} {world world' : σ}
      (harg : ReadsAs handle (raw 0) arg state world none state' world') :
      FailsAt raw (arg :: argv) state world [] state' world'
  | later {raw : Nat → Bool} {arg : Arg Op Reply} {argv : List (Arg Op Reply)}
      {state middle state' : State} {world world' world'' : σ} {value : Value}
      {values : List Value}
      (harg : ReadsAs handle (raw 0) arg state world (some value) middle world')
      (hargv : FailsAt (fun i => raw (i + 1)) argv middle world' values state' world'') :
      FailsAt raw (arg :: argv) state world (value :: values) state' world''

variable {handle}
variable {state middle state' : State} {world world' world'' : σ}

@[simp] theorem execute_pure (value : α) :
    execute handle (pure value : EvalT ε Op Reply α) state world = (.ok (value, state), world) := rfl

@[simp] theorem execute_stuck (error : ε) :
    execute handle (stuck error : EvalT ε Op Reply α) state world = (.error error, world) := rfl

theorem execute_bind_ok {program : EvalT ε Op Reply α} {rest : α → EvalT ε Op Reply β} {value : α}
    (hfirst : execute handle program state world = (.ok (value, middle), world')) :
    execute handle (program >>= rest) state world = execute handle (rest value) middle world' :=
  @Prog.exec_bind_ok _ _ _ _ _ _ _ (program.run state) _ _ _ _ hfirst

theorem execute_bind_error {program : EvalT ε Op Reply α} {rest : α → EvalT ε Op Reply β}
    {error : ε} (hfirst : execute handle program state world = (.error error, world')) :
    execute handle (program >>= rest) state world = (.error error, world') :=
  @Prog.exec_bind_error _ _ _ _ _ _ _ (program.run state) _ _ _ _ hfirst

theorem execute_unlessNull_none {program : EvalT ε Op Reply (Option α)}
    {rest : α → EvalT ε Op Reply (Option β)}
    (hfirst : execute handle program state world = (.ok (none, state'), world')) :
    execute handle (unlessNull program rest) state world = (.ok (none, state'), world') :=
  execute_bind_ok hfirst

theorem execute_unlessNull_some {program : EvalT ε Op Reply (Option α)}
    {rest : α → EvalT ε Op Reply (Option β)} {value : α}
    (hfirst : execute handle program state world = (.ok (some value, middle), world')) :
    execute handle (unlessNull program rest) state world =
      execute handle (rest value) middle world' :=
  execute_bind_ok hfirst

/-! ## The reading loops -/

variable {raw : Nat → Bool} {argv : List (Arg Op Reply)} {values : List Value}

theorem FailsAt.length_lt (hfails : FailsAt handle raw argv state world values state' world') :
    values.length < argv.length := by
  induction hfails with
  | now => simp
  | later _ _ ih => simpa using ih

/-- A loop that gets as far as the failing argument stops there. -/
theorem FailsAt.readArgs {count : Nat}
    (hfails : FailsAt handle raw argv state world values state' world')
    (hraw : ∀ i, i < count → raw i = false) (hcount : values.length < count) :
    execute handle (readArgs argv count) state world = (.ok (none, state'), world') := by
  induction hfails generalizing count with
  | @now raw _ _ _ _ _ _ harg =>
      obtain ⟨count, rfl⟩ := Nat.exists_eq_succ_of_ne_zero (Nat.ne_of_gt hcount)
      rw [ReadsAs, hraw 0 (Nat.succ_pos count)] at harg
      obtain ⟨text, htext, hexecute⟩ := harg
      obtain rfl := Option.map_eq_none_iff.mp htext.symm
      exact execute_unlessNull_none hexecute
  | @later raw _ _ _ _ _ _ _ _ _ _ harg _ ih =>
      obtain ⟨count, rfl⟩ := Nat.exists_eq_succ_of_ne_zero (Nat.ne_of_gt (Nat.zero_lt_of_lt hcount))
      rw [ReadsAs, hraw 0 (Nat.succ_pos count)] at harg
      obtain ⟨text, htext, hexecute⟩ := harg
      obtain ⟨text, rfl, -⟩ := Option.map_eq_some_iff.mp htext.symm
      have hrest := ih (fun i hi => hraw (i + 1) (Nat.succ_lt_succ hi)) (Nat.lt_of_succ_lt_succ hcount)
      exact (execute_unlessNull_some hexecute).trans (execute_unlessNull_none hrest)

theorem FailsAt.readVarArgs
    (hfails : FailsAt handle raw argv state world values state' world')
    (hraw : ∀ i, raw i = false) :
    execute handle (readVarArgs argv) state world = (.ok (none, state'), world') :=
  hfails.readArgs (fun i _ => hraw i) hfails.length_lt

theorem FailsAt.readValueVarArgs
    (hfails : FailsAt handle raw argv state world values state' world')
    (hraw : ∀ i, raw i = true) :
    execute handle (readValueVarArgs argv) state world = (.ok (none, state'), world') := by
  induction hfails with
  | @now raw _ _ _ _ _ _ harg =>
      rw [ReadsAs, hraw 0] at harg
      exact execute_unlessNull_none harg
  | @later raw _ _ _ _ _ _ _ _ _ _ harg _ ih =>
      rw [ReadsAs, hraw 0] at harg
      have hrest := ih fun i => hraw (i + 1)
      exact (execute_unlessNull_some harg).trans (execute_unlessNull_none hrest)

/-- A loop that stops before the failing argument leaves it to the rest. -/
theorem FailsAt.split {count : Nat}
    (hfails : FailsAt handle raw argv state world values state' world'')
    (hraw : ∀ i, i < count → raw i = false) (hcount : count ≤ values.length) :
    ∃ strings middle world', execute handle (Edify.readArgs argv count) state world =
        (.ok (some strings, middle), world') ∧
      values.take count = strings.map Value.string ∧
      FailsAt handle (fun i => raw (i + count)) (argv.drop count) middle world'
        (values.drop count) state' world'' := by
  induction count generalizing raw argv state world values with
  | zero => exact ⟨[], state, world, rfl, rfl, hfails⟩
  | succ count ih =>
      cases hfails with
      | now => exact absurd hcount (Nat.not_succ_le_zero count)
      | @later _ _ _ _ _ _ _ _ _ _ values harg hargv =>
          rw [ReadsAs, hraw 0 (Nat.succ_pos count)] at harg
          obtain ⟨text, htext, hexecute⟩ := harg
          obtain ⟨text, rfl, rfl⟩ := Option.map_eq_some_iff.mp htext.symm
          obtain ⟨strings, middle, world', hread, htake, hrest⟩ :=
            ih hargv (fun i hi => hraw (i + 1) (Nat.succ_lt_succ hi))
              (Nat.le_of_succ_le_succ hcount)
          refine ⟨text :: strings, middle, world', ?_, ?_, hrest⟩
          · exact (execute_unlessNull_some hexecute).trans (execute_unlessNull_some hread)
          · rw [List.take_succ_cons, htake, List.map_cons]

end Execution

/-! ## The functions of the updater -/

section Functions

variable {σ : Type} {state middle state' : State} {world world' world'' : σ}
variable {handle : (op : EdifyOp UpdaterOp) → σ → EdifyOp.Reply UpdaterOp.Reply op × σ}
variable {raw : Nat → Bool} {argv : List UpdaterArg} {values : List Value}

/-- The call gives up: it returns a null pointer in the state that the arguments
have left. -/
def Aborts (handle : (op : EdifyOp UpdaterOp) → σ → EdifyOp.Reply UpdaterOp.Reply op × σ)
    (program : UpdaterEval (Option Value)) (state : State) (world : σ) (state' : State) (world' : σ) :
    Prop :=
  execute handle program state world = (.ok (none, state'), world')

theorem not_aborts_of_error {program : UpdaterEval (Option Value)} {error : Fault}
    (herror : (execute handle program state world).1 = .error error) :
    ¬Aborts handle program state world state' world' := by
  intro haborts
  rw [Aborts] at haborts
  rw [haborts] at herror
  cases herror

theorem aborts_else {wrong : Prop} [Decidable wrong] {complaint program : UpdaterEval (Option Value)}
    (hright : ¬wrong) (haborts : Aborts handle program state world state' world') :
    Aborts handle (if wrong then complaint else program) state world state' world' := by
  rw [if_neg hright]
  exact haborts

/-- The clean-up of `DeleteFn` goes wrong unless the first argument failed. -/
theorem FailsAt.deletePaths {i : Nat}
    (hfails : FailsAt handle raw argv state world values state' world')
    (hraw : ∀ i, raw i = false) :
    execute handle (deletePaths i argv) state world =
      if 0 < i + values.length then (.error (.stuck .freedMemory), world')
      else (.ok (none, state'), world') := by
  induction hfails generalizing i with
  | @now raw _ _ _ _ _ _ harg =>
      rw [ReadsAs, hraw 0] at harg
      obtain ⟨text, htext, hexecute⟩ := harg
      obtain rfl := Option.map_eq_none_iff.mp htext.symm
      refine (execute_bind_ok hexecute).trans ?_
      by_cases hi : 0 < i
      · simp [hi]
      · simp [hi]
  | @later raw _ _ _ _ _ _ _ _ _ _ harg _ ih =>
      rw [ReadsAs, hraw 0] at harg
      obtain ⟨text, htext, hexecute⟩ := harg
      obtain ⟨text, rfl, -⟩ := Option.map_eq_some_iff.mp htext.symm
      have hrest := ih (i := i + 1) fun i => hraw (i + 1)
      rw [if_pos (by omega)] at hrest
      rw [if_pos (by simp)]
      exact (execute_bind_ok hexecute).trans (execute_bind_error hrest)

section FixedReads

variable (hfails : FailsAt handle raw argv state world values state' world')
include hfails

theorem FailsAt.readOne {rest : Bytes → UpdaterEval (Option Value)}
    (hraw : ∀ i, i < 1 → raw i = false) (hcount : values.length < 1) :
    Aborts handle (readOne argv rest) state world state' world' :=
  execute_unlessNull_none (hfails.readArgs hraw hcount)

theorem FailsAt.readTwo {rest : Bytes → Bytes → UpdaterEval (Option Value)}
    (hraw : ∀ i, i < 2 → raw i = false) (hcount : values.length < 2) :
    Aborts handle (readTwo argv rest) state world state' world' :=
  execute_unlessNull_none (hfails.readArgs hraw hcount)

theorem FailsAt.readThree {rest : Bytes → Bytes → Bytes → UpdaterEval (Option Value)}
    (hraw : ∀ i, i < 3 → raw i = false) (hcount : values.length < 3) :
    Aborts handle (readThree argv rest) state world state' world' :=
  execute_unlessNull_none (hfails.readArgs hraw hcount)

theorem FailsAt.readFour {rest : Bytes → Bytes → Bytes → Bytes → UpdaterEval (Option Value)}
    (hraw : ∀ i, i < 4 → raw i = false) (hcount : values.length < 4) :
    Aborts handle (readFour argv rest) state world state' world' :=
  execute_unlessNull_none (hfails.readArgs hraw hcount)

/-- Reading the first string and then the others is reading all of them. -/
theorem FailsAt.readFirst {rest : Bytes → List Bytes → UpdaterEval (Option Value)}
    (hraw : ∀ i, raw i = false) :
    Aborts handle
      (match argv with
      | [] => pure none
      | first :: others =>
          unlessNull (evaluate first) fun text =>
            unlessNull (Edify.readVarArgs others) (rest text))
      state world state' world' := by
  cases hfails with
  | now harg =>
      rw [ReadsAs, hraw 0] at harg
      obtain ⟨text, htext, hexecute⟩ := harg
      obtain rfl := Option.map_eq_none_iff.mp htext.symm
      exact execute_unlessNull_none hexecute
  | later harg hargv =>
      rw [ReadsAs, hraw 0] at harg
      obtain ⟨text, htext, hexecute⟩ := harg
      obtain ⟨text, rfl, -⟩ := Option.map_eq_some_iff.mp htext.symm
      have hrest := hargv.readVarArgs fun i => hraw (i + 1)
      exact (execute_unlessNull_some hexecute).trans (execute_unlessNull_none hrest)

end FixedReads

theorem execute_act_error {α : Type} {program : Update α} {reason : Stuck}
    (herror : (execute handle program state world).1 = .error reason) :
    (execute handle (act program) state world).1 = .error (.stuck reason) := by
  unfold execute at herror ⊢
  simp only [act, StateT.run, ExceptT.run_mk, Prog.run_bind]
  simp only [StateT.run] at herror
  rw [herror]
  rfl

/-- A part of the recovery that always gets stuck makes the updater stuck. -/
theorem execute_liftChecked_error {α : Type} {program : Checked α}
    (herror : program.run.Returns fun result => ∃ reason, result = .error reason) :
    ∃ reason, (execute handle (liftChecked program) state world).1 = .error reason := by
  have htranslate := @Prog.Returns.translate _ _ _ (EdifyOp.Reply UpdaterOp.Reply) _
    (fun op => Prog.ask (EdifyOp.other (UpdaterOp.sys op))) _ _ herror
  obtain ⟨reason, hreason⟩ := @Prog.Returns.run_value _ _ _ _ handle _ _ htranslate world
  refine ⟨reason, ?_⟩
  unfold execute liftChecked
  simp only [StateT.run, ExceptT.run_mk, Prog.run_bind, hreason]
  rfl

theorem checkHashes_none (platform : Platform) (filename : CString) :
    (checkHashes platform filename none).run.Returns fun result =>
      ∃ reason, result = .error reason := by
  rw [checkHashes, ExceptT.run_bind]
  refine (Prog.returns_trivial _).bind fun result _ => ?_
  cases result with
  | error reason => exact ⟨reason, rfl⟩
  | ok loaded =>
      obtain ⟨code, file⟩ := loaded
      by_cases hcode : code ≠ 0
      · dsimp only
        rw [if_pos hcode, ExceptT.run_bind]
        refine (Prog.returns_trivial _).bind fun result _ => ?_
        cases result with
        | error reason => exact ⟨reason, rfl⟩
        | ok loaded => exact ⟨.outOfBounds, rfl⟩
      · dsimp only
        rw [if_neg hcode]
        exact ⟨.outOfBounds, rfl⟩

theorem deleteFn_aborts_iff (name : Bytes)
    (hfails : FailsAt handle raw argv state world values state' world')
    (hraw : ∀ i, raw i = false) :
    Aborts handle (deleteFn name argv) state world state' world' ↔ ¬1 ≤ values.length := by
  have hpaths := hfails.deletePaths (i := 0) hraw
  by_cases hvalues : 1 ≤ values.length
  · rw [if_pos (by omega)] at hpaths
    refine iff_of_false (@not_aborts_of_error _ _ _ _ _ _ _ (.stuck .freedMemory) ?_) (not_not_intro hvalues)
    rw [deleteFn, unlessNull, execute_bind_error hpaths]
  · rw [if_neg (by omega)] at hpaths
    exact iff_of_true (execute_unlessNull_none hpaths) hvalues

theorem applyPatchFn_aborts_iff (platform : Platform) (name : Bytes)
    (hfails : FailsAt handle (fun i => decide (4 ≤ i)) argv state world values state' world')
    (hargc : 6 ≤ argv.length ∧ argv.length % 2 = 0)
    (hsize : ∀ text, values[3]? = some (.string text) → byteCount text ≠ none) :
    Aborts handle (applyPatchFn platform name argv) state world state' world' ↔
      ¬4 ≤ values.length := by
  have hraw : ∀ i, i < 4 → decide (4 ≤ i) = false := by
    intro i hi
    simp only [decide_eq_false_iff_not]
    omega
  have harity : ¬(argv.length < 6 ∨ argv.length % 2 = 1) := by omega
  unfold applyPatchFn
  rw [if_neg harity]
  by_cases hvalues : 4 ≤ values.length
  · refine iff_of_false ?_ (not_not_intro hvalues)
    obtain ⟨strings, middle, world'', hread, htake, hrest⟩ := hfails.split hraw hvalues
    have hlength : strings.length = 4 := by
      rw [← List.length_map (f := Value.string), ← htake, List.length_take]
      omega
    match strings, hlength with
    | [source, target, targetSha1, sizeStr], _ =>
        have hfourth : values[3]? = some (.string sizeStr) := by
          rw [← List.getElem?_take_of_lt (by decide : 3 < 4), htake]
          rfl
        obtain ⟨size, hbytes⟩ := Option.ne_none_iff_exists'.mp (hsize sizeStr hfourth)
        have hpatches := hrest.readValueVarArgs (by simp)
        refine @not_aborts_of_error _ _ _ _ _ _ _ (.stuck .outOfBounds) ?_
        rw [readFour, execute_unlessNull_some hread]
        simp only [hbytes]
        rw [execute_bind_ok hpatches]
        rfl
  · exact iff_of_true (hfails.readFour hraw (by omega)) hvalues

theorem applyPatchCheckFn_aborts_iff (platform : Platform) (name : Bytes)
    (hfails : FailsAt handle raw argv state world values state' world')
    (hraw : ∀ i, raw i = false) (hargc : 1 ≤ argv.length) :
    Aborts handle (applyPatchCheckFn platform name argv) state world state' world' ↔
      ¬1 ≤ values.length := by
  unfold applyPatchCheckFn
  rw [if_neg (by omega)]
  by_cases hvalues : 1 ≤ values.length
  · refine iff_of_false ?_ (not_not_intro hvalues)
    obtain ⟨strings, middle, world'', hread, htake, hrest⟩ :=
      hfails.split (fun i _ => hraw i) hvalues
    have hlength : strings.length = 1 := by
      rw [← List.length_map (f := Value.string), ← htake, List.length_take]
      omega
    obtain ⟨filename, rfl⟩ := List.length_eq_one_iff.mp hlength
    have hsha1s := hrest.readVarArgs fun i => hraw (i + 1)
    obtain ⟨reason, hreason⟩ := @execute_liftChecked_error _ state' world' handle _ _
        (checkHashes_none platform (pathOf filename))
    refine @not_aborts_of_error _ _ _ _ _ _ _ (.stuck reason) ?_
    rw [readOne, execute_unlessNull_some hread]
    dsimp only
    rw [execute_bind_ok hsha1s]
    refine execute_act_error ?_
    rw [execute_bind_error (Prod.ext hreason rfl)]
  · exact iff_of_true (hfails.readOne (fun i _ => hraw i) (by omega)) hvalues

end Functions

/-- The numbers of arguments that a function takes without a complaint and
without reading more than there are. -/
def InstallFunction.Accepts : InstallFunction → Nat → Prop
  | .mount, argc => argc = 3
  | .isMounted, argc => argc = 1
  | .unmount, argc => argc = 1
  | .format, argc => argc = 2
  | .showProgress, argc => argc = 2
  | .setProgress, argc => argc = 1
  | .delete, _ => True
  | .deleteRecursive, _ => True
  | .packageExtractDir, argc => argc = 2
  | .packageExtractFile, argc => argc = 1 ∨ argc = 2
  | .symlink, argc => 1 ≤ argc
  | .setPerm, argc => 4 ≤ argc
  | .setPermRecursive, argc => 5 ≤ argc
  | .getprop, argc => argc = 1
  | .fileGetprop, argc => 2 ≤ argc
  | .writeRawImage, argc => 2 ≤ argc
  | .applyPatch, argc => 6 ≤ argc ∧ argc % 2 = 0
  | .applyPatchCheck, argc => 1 ≤ argc
  | .applyPatchSpace, argc => 1 ≤ argc
  | .readFile, argc => argc = 1
  | .sha1Check, argc => 1 ≤ argc
  | .uiPrint, _ => True
  | .runProgram, argc => 1 ≤ argc

/-- The arguments that a function reads with `EvaluateValue`. -/
def InstallFunction.raw : InstallFunction → Nat → Bool
  | .sha1Check, _ => true
  | .applyPatch, i => 4 ≤ i
  | _, _ => false

/-- Whether a function goes on to the next argument after the given values. -/
def InstallFunction.Evaluates : InstallFunction → List Value → Prop
  | .fileGetprop, values => values.length < 2
  | .writeRawImage, values => values.length < 2
  | .applyPatchSpace, values => values.length < 1
  | .applyPatch, values => ∀ text, values[3]? = some (.string text) → byteCount text ≠ none
  | _, _ => True

/-- The places at which a failing argument is not dealt with. -/
def InstallFunction.Mishandles : InstallFunction → Nat → Prop
  | .delete, i => 1 ≤ i
  | .deleteRecursive, i => 1 ≤ i
  | .applyPatch, i => 4 ≤ i
  | .applyPatchCheck, i => 1 ≤ i
  | _, _ => False

/-- A failing argument makes a call give up, with nothing done but what the
arguments have done, except at the places where a function mishandles it. -/
theorem install_aborts_iff
    {σ : Type} (handle : (op : EdifyOp UpdaterOp) → σ → EdifyOp.Reply UpdaterOp.Reply op × σ)
    (platform : Platform) (f : InstallFunction) (argv : List UpdaterArg)
    (state state' : State) (world world' : σ) (values : List Value)
    (haccepts : f.Accepts argv.length)
    (hfails : FailsAt handle f.raw argv state world values state' world')
    (hevaluates : f.Evaluates values) :
    Aborts handle (f.fn platform f.name argv) state world state' world' ↔
      ¬f.Mishandles values.length := by
  have hlt := hfails.length_lt
  cases f with
  | delete => exact deleteFn_aborts_iff _ hfails fun _ => rfl
  | deleteRecursive => exact deleteFn_aborts_iff _ hfails fun _ => rfl
  | applyPatch => exact applyPatchFn_aborts_iff platform _ hfails haccepts hevaluates
  | applyPatchCheck =>
      exact applyPatchCheckFn_aborts_iff platform _ hfails (fun _ => rfl) haccepts
  | mount =>
      refine iff_of_true (aborts_else (not_not_intro haccepts) ?_) id
      exact hfails.readThree (fun _ _ => rfl) (haccepts ▸ hlt)
  | isMounted =>
      refine iff_of_true (aborts_else (not_not_intro haccepts) ?_) id
      exact hfails.readOne (fun _ _ => rfl) (haccepts ▸ hlt)
  | unmount =>
      refine iff_of_true (aborts_else (not_not_intro haccepts) ?_) id
      exact hfails.readOne (fun _ _ => rfl) (haccepts ▸ hlt)
  | format =>
      refine iff_of_true (aborts_else (not_not_intro haccepts) ?_) id
      exact hfails.readTwo (fun _ _ => rfl) (haccepts ▸ hlt)
  | showProgress =>
      refine iff_of_true (aborts_else (not_not_intro haccepts) ?_) id
      exact hfails.readTwo (fun _ _ => rfl) (haccepts ▸ hlt)
  | setProgress =>
      refine iff_of_true (aborts_else (not_not_intro haccepts) ?_) id
      exact hfails.readOne (fun _ _ => rfl) (haccepts ▸ hlt)
  | packageExtractDir =>
      refine iff_of_true (aborts_else (not_not_intro haccepts) ?_) id
      exact hfails.readTwo (fun _ _ => rfl) (haccepts ▸ hlt)
  | packageExtractFile =>
      refine iff_of_true (aborts_else (not_and_or.mpr (haccepts.imp not_not_intro not_not_intro)) ?_)
        id
      rcases haccepts with hone | htwo
      · exact aborts_else (by omega) (hfails.readOne (fun _ _ => rfl) (hone ▸ hlt))
      · rw [if_pos htwo]
        exact hfails.readTwo (fun _ _ => rfl) (htwo ▸ hlt)
  | getprop =>
      refine iff_of_true (aborts_else (not_not_intro haccepts) ?_) id
      obtain ⟨arg, rfl⟩ := List.length_eq_one_iff.mp haccepts
      exact @FailsAt.readFirst _ _ _ _ _ _ _ _ _ hfails
          (fun key _ => act (other (.propertyGet key) >>= stringValue)) fun _ => rfl
  | readFile =>
      refine iff_of_true (aborts_else (not_not_intro haccepts) ?_) id
      exact hfails.readOne (fun _ _ => rfl) (haccepts ▸ hlt)
  | symlink =>
      refine iff_of_true ?_ id
      match argv, haccepts with
      | first :: others, _ =>
          exact @FailsAt.readFirst _ _ _ _ _ _ _ _ _ hfails (fun target srcs =>
            act (symlinkLoop target srcs >>= fun _ => stringValue [])) fun _ => rfl
  | setPerm =>
      have hread := hfails.readVarArgs fun _ => rfl
      have hname : InstallFunction.setPerm.name ≠ ascii "set_perm_recursive" := by decide
      refine iff_of_true (aborts_else ?_ (execute_unlessNull_none hread)) id
      rw [if_neg (by simpa using hname)]
      exact not_lt.mpr haccepts
  | setPermRecursive =>
      have hread := hfails.readVarArgs fun _ => rfl
      refine iff_of_true (aborts_else ?_ (execute_unlessNull_none hread)) id
      exact not_lt.mpr haccepts
  | fileGetprop =>
      exact iff_of_true (hfails.readTwo (fun _ _ => rfl) hevaluates) id
  | writeRawImage =>
      exact iff_of_true (hfails.readTwo (fun _ _ => rfl) hevaluates) id
  | applyPatchSpace =>
      exact iff_of_true (hfails.readOne (fun _ _ => rfl) hevaluates) id
  | sha1Check =>
      have hread := hfails.readValueVarArgs fun _ => rfl
      exact iff_of_true (aborts_else (not_lt.mpr haccepts) (execute_unlessNull_none hread)) id
  | uiPrint =>
      have hread := hfails.readVarArgs fun _ => rfl
      exact iff_of_true (execute_unlessNull_none hread) id
  | runProgram =>
      have hread := hfails.readVarArgs fun _ => rfl
      exact iff_of_true (aborts_else (not_lt.mpr haccepts) (execute_unlessNull_none hread)) id

/-- A system in which the requests that concern more than single files have no
effect. -/
def quietHandle (env : Env) :
    (op : EdifyOp UpdaterOp) → World → EdifyOp.Reply UpdaterOp.Reply op × World
  | .sleep _, world => ((), world)
  | .stdout _, world => ((), world)
  | .other (.sys op), world => World.handle env op world
  | .other (.mkdir _ _), world => ((), world)
  | .other (.dirUnlinkHierarchy _), world => (true, world)
  | .other (.dirSetHierarchyPermissions _ _ _ _ _), world => ((), world)
  | .other (.symlink _ _), world => (true, world)
  | .other (.mzExtractRecursive _ _ _), world => (true, world)
  | .other (.mzFindZipEntry _), world => (none, world)
  | .other (.mzExtractZipEntryToFile _ _), world => (true, world)
  | .other (.mzExtractZipEntryToBuffer _), world => (none, world)
  | .other (.propertyGet _), world => ([], world)
  | .other (.cmdPipe _), world => ((), world)
  | .other (.runProgram _), world => (0, world)
  | .other .strerror, world => ([], world)

def emptyWorld : World where
  files _ := none
  partitions _ := none
  stdout := []

def samplePlatform : Platform where
  lib := ⟨fun _ => true, fun _ => ([], .streamEnd), fun _ => none, fun _ _ => none⟩
  sha _ := .replicate 20 0
  printDouble _ := ascii "0.000000"
  garbage := ⟨.replicate 20 0, .null, 0, 0, 0, 0⟩
  missingArgument := 0
  rounds := 0

/-- The arguments of `delete(a, abort())`. -/
def sampleArgs : List UpdaterArg :=
  [⟨literal (ascii "a") [], 7, 8⟩, ⟨abortFn (ascii "abort") [], 10, 17⟩]

def sampleState : State := ⟨ascii "delete(a, abort())", none⟩

def abortedState : State := ⟨ascii "delete(a, abort())", some (ascii "called abort()")⟩

theorem sampleArgs_fails :
    FailsAt (quietHandle sampleEnv) (fun _ => false) sampleArgs sampleState emptyWorld
      [.string (ascii "a")] abortedState emptyWorld :=
  .later ⟨some (ascii "a"), rfl, rfl⟩ (.now ⟨none, rfl, rfl⟩)

theorem install_aborts_symlink :
    FailsAt (quietHandle sampleEnv) InstallFunction.symlink.raw sampleArgs sampleState emptyWorld
        [.string (ascii "a")] abortedState emptyWorld ∧
      Aborts (quietHandle sampleEnv)
        (InstallFunction.symlink.fn samplePlatform InstallFunction.symlink.name sampleArgs)
        sampleState emptyWorld abortedState emptyWorld :=
  ⟨sampleArgs_fails, (install_aborts_iff (quietHandle sampleEnv) samplePlatform .symlink sampleArgs
    sampleState abortedState emptyWorld emptyWorld [.string (ascii "a")] (Nat.le_succ 1)
    sampleArgs_fails trivial).mpr id⟩

theorem delete_does_not_abort :
    InstallFunction.delete.Accepts sampleArgs.length ∧
      FailsAt (quietHandle sampleEnv) InstallFunction.delete.raw sampleArgs sampleState emptyWorld
        [.string (ascii "a")] abortedState emptyWorld ∧
      InstallFunction.delete.Evaluates [.string (ascii "a")] ∧
      (execute (quietHandle sampleEnv)
        (InstallFunction.delete.fn samplePlatform InstallFunction.delete.name sampleArgs)
        sampleState emptyWorld).1 = .error (.stuck .freedMemory) ∧
      ¬Aborts (quietHandle sampleEnv)
        (InstallFunction.delete.fn samplePlatform InstallFunction.delete.name sampleArgs)
        sampleState emptyWorld abortedState emptyWorld :=
  ⟨trivial, sampleArgs_fails, trivial, rfl, not_aborts_of_error rfl⟩

end OpenRecovery.Edify
