import OpenRecovery.ArgumentCounts
import Mathlib

/-!
# What a script can make the interpreter read and write

The scanner stores the contents of quoted strings in a buffer without a look at its
size, and every function counts its arguments by itself, or does not.  A script is
safe exactly if its quoted strings fit the buffer and the functions that do not count
are called with the number of arguments they read.
-/

namespace OpenRecovery.Edify

open Effects

/-! ## Quoted strings -/

/-- The contents of the string and, if it is closed, the zero byte after them fit the
buffer. -/
def StringScan.Fits (scan : StringScan) : Prop :=
  scan.stored.length + (if scan.rest.isSome then 1 else 0) ≤ maxStringLen

mutual

/-- The calls of a tree, in any depth. -/
def Expr.calls : Expr UpdaterFn → List Call
  | .node fn name argv _ _ => ⟨fn, name, argv.length⟩ :: argumentCalls argv

def argumentCalls : List (Expr UpdaterFn) → List Call
  | [] => []
  | expr :: argv => expr.calls ++ argumentCalls argv

end

/-- All calls in the symbol are possible. -/
def Symbol.Possible : Symbol UpdaterFn → Prop
  | .token _ => True
  | .expr tree => ∀ call ∈ tree.calls, call.Possible
  | .arglist argv => ∀ call ∈ argumentCalls argv, call.Possible

/-- All calls on the stack are possible. -/
def Sound (stack : List (Item UpdaterFn)) : Prop :=
  ∀ item ∈ stack, item.symbol.Possible

/-- The move keeps the stack sound, and what it accepts is possible. -/
def Action.Keeps : Action UpdaterFn → Prop
  | .reduce stack => Sound stack
  | .accept root => ∀ call ∈ root.calls, call.Possible
  | .shift => True
  | .error => True

theorem Sound.tail {item : Item UpdaterFn} {stack : List (Item UpdaterFn)}
    (hsound : Sound (item :: stack)) : Sound stack :=
  fun other hother => hsound other (List.mem_cons_of_mem _ hother)

theorem Sound.head {item : Item UpdaterFn} {stack : List (Item UpdaterFn)}
    (hsound : Sound (item :: stack)) : item.symbol.Possible :=
  hsound item (List.mem_cons_self ..)

theorem Sound.push {item : Item UpdaterFn} {stack : List (Item UpdaterFn)}
    (hitem : item.symbol.Possible) (hsound : Sound stack) : Sound (item :: stack) :=
  List.forall_mem_cons.mpr ⟨hitem, hsound⟩

mutual

/-- If every function that does not ask has the arguments it reads, the tree never
misses one. -/
theorem neverMissing_tree (platform : Platform) : ∀ tree : Expr UpdaterFn,
    (∀ call ∈ tree.calls, call.Counted) →
      NeverMissing (evaluateValue (UpdaterFn.fn platform) tree)
  | .node fn name argv start stop, hcounted => by
      obtain ⟨hcall, hargv⟩ := List.forall_mem_cons.mp hcounted
      have hguards := neverMissing_arguments platform argv hargv
      have hlength : (arguments (UpdaterFn.fn platform) argv).length = argv.length :=
        arguments_length _ _
      cases fn with
      | core fn =>
          exact neverMissing_builtin hguards fn name fun count hcount =>
            hlength.trans (hcall count hcount)
      | install fn =>
          exact neverMissing_install hguards fn platform name fun count hcount =>
            hlength.trans (hcall count hcount)

theorem neverMissing_arguments (platform : Platform) : ∀ argv : List (Expr UpdaterFn),
    (∀ call ∈ argumentCalls argv, call.Counted) →
      ∀ arg ∈ arguments (UpdaterFn.fn platform) argv, arg.Guards
  | [], _ => fun _ h => nomatch h
  | tree :: argv, hcounted => by
      obtain ⟨htree, hargv⟩ := List.forall_mem_append.mp hcounted
      exact List.forall_mem_cons.mpr
        ⟨neverMissing_tree platform tree htree, neverMissing_arguments platform argv hargv⟩

end

end OpenRecovery.Edify
