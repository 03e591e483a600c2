import OpenRecovery.EdifyPrinting
import Mathlib

/-!
# What can be on the stack of the parser

A stack waits for an expression, or has the beginning of a production on it.  Which
production is reduced depends on the items of the production and on the next token, never
on what is below.  So the moves that make an expression can be made again on an empty
stack, with nothing behind the tokens of the expression.
-/

namespace OpenRecovery.Edify

section Stacks

variable {F : Type}

/-- A stack on which an expression can begin. -/
inductive Waiting : List (Item F) → Prop where
  | nil : Waiting []
  | not {start stop : Nat} {stack : List (Item F)} (hstack : Waiting stack) :
      Waiting (⟨.token .not, start, stop⟩ :: stack)
  | paren {start stop : Nat} {stack : List (Item F)} (hstack : Waiting stack) :
      Waiting (⟨.token .lparen, start, stop⟩ :: stack)
  | call {name : Bytes} {start stop nstart nstop : Nat} {stack : List (Item F)}
      (hstack : Waiting stack) :
      Waiting (⟨.token .lparen, start, stop⟩ :: ⟨.token (.string name), nstart, nstop⟩ :: stack)
  | comma {name : Bytes} {argv : List (Expr F)} {start stop astart astop lstart lstop nstart nstop : Nat}
      {stack : List (Item F)} (hstack : Waiting stack) :
      Waiting (⟨.token .comma, start, stop⟩ :: ⟨.arglist argv, astart, astop⟩ ::
        ⟨.token .lparen, lstart, lstop⟩ :: ⟨.token (.string name), nstart, nstop⟩ :: stack)
  | «if» {start stop : Nat} {stack : List (Item F)} (hstack : Waiting stack) :
      Waiting (⟨.token .if, start, stop⟩ :: stack)
  | «then» {cond : Expr F} {start stop cstart cstop istart istop : Nat} {stack : List (Item F)}
      (hstack : Waiting stack) :
      Waiting (⟨.token .then, start, stop⟩ :: ⟨.expr cond, cstart, cstop⟩ ::
        ⟨.token .if, istart, istop⟩ :: stack)
  | «else» {cond yes : Expr F} {start stop ystart ystop tstart tstop cstart cstop istart istop : Nat}
      {stack : List (Item F)} (hstack : Waiting stack) :
      Waiting (⟨.token .else, start, stop⟩ :: ⟨.expr yes, ystart, ystop⟩ ::
        ⟨.token .then, tstart, tstop⟩ :: ⟨.expr cond, cstart, cstop⟩ ::
        ⟨.token .if, istart, istop⟩ :: stack)
  | operator {op : BinaryOp} {left : Expr F} {start stop lstart lstop : Nat}
      {stack : List (Item F)} (hstack : Waiting stack) :
      Waiting (⟨.token op.token, start, stop⟩ :: ⟨.expr left, lstart, lstop⟩ :: stack)

/-- A stack that the parser can have. -/
inductive Viable : List (Item F) → Prop where
  | waiting {stack : List (Item F)} (hstack : Waiting stack) : Viable stack
  | name {text : Bytes} {start stop : Nat} {stack : List (Item F)} (hstack : Waiting stack) :
      Viable (⟨.token (.string text), start, stop⟩ :: stack)
  | expr {expr : Expr F} {start stop : Nat} {stack : List (Item F)} (hstack : Waiting stack) :
      Viable (⟨.expr expr, start, stop⟩ :: stack)
  | arglist {name : Bytes} {argv : List (Expr F)} {astart astop lstart lstop nstart nstop : Nat}
      {stack : List (Item F)} (hstack : Waiting stack) :
      Viable (⟨.arglist argv, astart, astop⟩ :: ⟨.token .lparen, lstart, lstop⟩ ::
        ⟨.token (.string name), nstart, nstop⟩ :: stack)
  | called {name : Bytes} {argv : List (Expr F)}
      {start stop astart astop lstart lstop nstart nstop : Nat}
      {stack : List (Item F)} (hstack : Waiting stack) :
      Viable (⟨.token .rparen, start, stop⟩ :: ⟨.arglist argv, astart, astop⟩ ::
        ⟨.token .lparen, lstart, lstop⟩ :: ⟨.token (.string name), nstart, nstop⟩ :: stack)
  | parens {expr : Expr F} {start stop estart estop lstart lstop : Nat} {stack : List (Item F)}
      (hstack : Waiting stack) :
      Viable (⟨.token .rparen, start, stop⟩ :: ⟨.expr expr, estart, estop⟩ ::
        ⟨.token .lparen, lstart, lstop⟩ :: stack)
  | ifThen {cond yes : Expr F} {start stop ystart ystop tstart tstop cstart cstop istart istop : Nat}
      {stack : List (Item F)} (hstack : Waiting stack) :
      Viable (⟨.token .endif, start, stop⟩ :: ⟨.expr yes, ystart, ystop⟩ ::
        ⟨.token .then, tstart, tstop⟩ :: ⟨.expr cond, cstart, cstop⟩ ::
        ⟨.token .if, istart, istop⟩ :: stack)
  | ifThenElse {cond yes no : Expr F}
      {start stop nstart nstop estart estop ystart ystop tstart tstop cstart cstop istart istop : Nat}
      {stack : List (Item F)} (hstack : Waiting stack) :
      Viable (⟨.token .endif, start, stop⟩ :: ⟨.expr no, nstart, nstop⟩ ::
        ⟨.token .else, estart, estop⟩ :: ⟨.expr yes, ystart, ystop⟩ ::
        ⟨.token .then, tstart, tstop⟩ :: ⟨.expr cond, cstart, cstop⟩ ::
        ⟨.token .if, istart, istop⟩ :: stack)

variable (registry : Registry F)

/-- `Production look handle result`: with that next token, the items on top of the stack are
replaced. -/
inductive Production (look : Option Token) : List (Item F) → List (Item F) → Prop where
  | literal {text : Bytes} {start stop : Nat} (hlook : look ≠ some .lparen) :
      Production look [⟨.token (.string text), start, stop⟩]
        [⟨.expr (.node (registry.core .literal) text [] start stop), start, stop⟩]
  | not {expr : Expr F} {start stop nstart nstop : Nat} :
      Production look [⟨.expr expr, start, stop⟩, ⟨.token .not, nstart, nstop⟩]
        [⟨.expr (build registry .logicalNot nstart stop [expr]), nstart, stop⟩]
  | binary {op : BinaryOp} {left right : Expr F} {start stop ostart ostop lstart lstop : Nat}
      (hlook : bindsTighter op.level look = false) :
      Production look
        [⟨.expr right, start, stop⟩, ⟨.token op.token, ostart, ostop⟩, ⟨.expr left, lstart, lstop⟩]
        [⟨.expr (build registry op.builtin lstart stop [left, right]), lstart, stop⟩]
  | semicolon {expr : Expr F} {start stop estart estop : Nat}
      (hlook : look.any Token.startsExpr = false) :
      Production look [⟨.token .semicolon, start, stop⟩, ⟨.expr expr, estart, estop⟩]
        [⟨.expr (expr.at estart estop), estart, stop⟩]
  | parens {expr : Expr F} {start stop estart estop lstart lstop : Nat} :
      Production look [⟨.token .rparen, start, stop⟩, ⟨.expr expr, estart, estop⟩,
          ⟨.token .lparen, lstart, lstop⟩]
        [⟨.expr (expr.at lstart stop), lstart, stop⟩]
  | call {name : Bytes} {fn : F} {argv : List (Expr F)}
      {start stop astart astop lstart lstop nstart nstop : Nat}
      (hfind : registry.findFunction name = some fn) :
      Production look [⟨.token .rparen, start, stop⟩, ⟨.arglist argv, astart, astop⟩,
          ⟨.token .lparen, lstart, lstop⟩, ⟨.token (.string name), nstart, nstop⟩]
        [⟨.expr (.node fn name argv nstart stop), nstart, stop⟩]
  | ifThen {cond yes : Expr F} {start stop ystart ystop tstart tstop cstart cstop istart istop : Nat} :
      Production look [⟨.token .endif, start, stop⟩, ⟨.expr yes, ystart, ystop⟩,
          ⟨.token .then, tstart, tstop⟩, ⟨.expr cond, cstart, cstop⟩, ⟨.token .if, istart, istop⟩]
        [⟨.expr (build registry .ifElse istart stop [cond, yes]), istart, stop⟩]
  | ifThenElse {cond yes no : Expr F}
      {start stop nstart nstop estart estop ystart ystop tstart tstop cstart cstop istart istop : Nat} :
      Production look [⟨.token .endif, start, stop⟩, ⟨.expr no, nstart, nstop⟩,
          ⟨.token .else, estart, estop⟩, ⟨.expr yes, ystart, ystop⟩, ⟨.token .then, tstart, tstop⟩,
          ⟨.expr cond, cstart, cstop⟩, ⟨.token .if, istart, istop⟩]
        [⟨.expr (build registry .ifElse istart stop [cond, yes, no]), istart, stop⟩]
  | noArguments {name : Bytes} {lstart lstop nstart nstop : Nat}
      (hlook : look.any Token.endsArgument = true) :
      Production look [⟨.token .lparen, lstart, lstop⟩, ⟨.token (.string name), nstart, nstop⟩]
        [⟨.arglist [], lstart, lstop⟩, ⟨.token .lparen, lstart, lstop⟩,
          ⟨.token (.string name), nstart, nstop⟩]
  | firstArgument {name : Bytes} {expr : Expr F} {start stop lstart lstop nstart nstop : Nat}
      (hlook : look.any Token.endsArgument = true) :
      Production look [⟨.expr expr, start, stop⟩, ⟨.token .lparen, lstart, lstop⟩,
          ⟨.token (.string name), nstart, nstop⟩]
        [⟨.arglist [expr], start, stop⟩, ⟨.token .lparen, lstart, lstop⟩,
          ⟨.token (.string name), nstart, nstop⟩]
  | nextArgument {name : Bytes} {expr : Expr F} {argv : List (Expr F)}
      {start stop cstart cstop astart astop lstart lstop nstart nstop : Nat}
      (hlook : look.any Token.endsArgument = true) :
      Production look [⟨.expr expr, start, stop⟩, ⟨.token .comma, cstart, cstop⟩,
          ⟨.arglist argv, astart, astop⟩, ⟨.token .lparen, lstart, lstop⟩,
          ⟨.token (.string name), nstart, nstop⟩]
        [⟨.arglist (argv ++ [expr]), astart, stop⟩, ⟨.token .lparen, lstart, lstop⟩,
          ⟨.token (.string name), nstart, nstop⟩]

variable {registry} {next : Option Token} {handle result stack : List (Item F)}

/-- A production is reduced whatever is below it. -/
theorem Production.action
    (hproduction : Production registry next handle result) (stack : List (Item F)) :
    action registry (handle ++ stack) next = .reduce (result ++ stack) := by
  cases hproduction with
  | literal hlook =>
      simp only [List.singleton_append, Edify.action, if_neg hlook]
  | not => rfl
  | @binary op left right start stop ostart ostop lstart lstop hlook =>
      cases op <;> simp only [BinaryOp.token, BinaryOp.level, BinaryOp.builtin] at hlook ⊢ <;>
        simp [Edify.action, exprAction, Token.operator, hlook]
  | semicolon hlook =>
      simp [Edify.action, hlook]
  | parens => rfl
  | call hfind => simp [Edify.action, hfind]
  | ifThen => rfl
  | ifThenElse => rfl
  | noArguments hlook => simp [Edify.action, hlook]
  | firstArgument hlook => simp [Edify.action, exprAction, hlook]
  | nextArgument hlook => simp [Edify.action, exprAction, hlook]

theorem action_paren (hstack : Waiting stack) (start stop : Nat) :
    action registry (⟨.token .lparen, start, stop⟩ :: stack) next = expectExpr next := by
  cases hstack with
  | operator hstack => rename_i op _ _ _ _ _ _; cases op <;> rfl
  | _ => rfl

theorem exprAction_paren
    (hstack : Waiting stack) (expr : Expr F) (start stop lstart lstop : Nat) :
    exprAction registry expr start stop next (⟨.token .lparen, lstart, lstop⟩ :: stack) =
      continueExpr next (· = .rparen) := by
  cases hstack with
  | operator hstack => rename_i op _ _ _ _ _ _; cases op <;> rfl
  | _ => rfl

theorem exprAction_operator
    (op : BinaryOp) (left right : Expr F) (start stop ostart ostop lstart lstop : Nat) :
    exprAction registry right start stop next
        (⟨.token op.token, ostart, ostop⟩ :: ⟨.expr left, lstart, lstop⟩ :: stack) =
      if bindsTighter op.level next then .shift
      else .reduce (⟨.expr (build registry op.builtin lstart stop [left, right]), lstart, stop⟩ ::
        stack) := by
  cases op <;> rfl

theorem action_operator
    (op : BinaryOp) (left : Expr F) (ostart ostop lstart lstop : Nat)
    (hop : op ≠ .sequence) :
    action registry (⟨.token op.token, ostart, ostop⟩ :: ⟨.expr left, lstart, lstop⟩ :: stack) next =
      expectExpr next := by
  cases op with
  | sequence => exact absurd rfl hop
  | _ => rfl

theorem expectExpr_ne_reduce (stack' : List (Item F)) :
    (expectExpr next : Action F) ≠ .reduce stack' := by
  rw [expectExpr, shiftIf]
  split
  · intro hnot
    cases hnot
  · intro hnot
    cases hnot

theorem continueExpr_ne_reduce (ends : Token → Bool) (stack' : List (Item F)) :
    (continueExpr next ends : Action F) ≠ .reduce stack' := by
  rw [continueExpr, shiftIf]
  split
  · intro hnot
    cases hnot
  · intro hnot
    cases hnot

/-- What is reduced is a production on a stack that waits for its result. -/
def Replaces (registry : Registry F) (next : Option Token) (stack stack' : List (Item F)) : Prop :=
  ∃ handle result base, Waiting base ∧ Production registry next handle result ∧
    stack = handle ++ base ∧ stack' = result ++ base

/-- The reductions with an expression on top of the stack. -/
theorem exprAction_reduces
    {expr : Expr F} {start stop : Nat} {stack' : List (Item F)} (hstack : Waiting stack)
    (hreduce : exprAction registry expr start stop next stack = .reduce stack') :
    Replaces registry next (⟨.expr expr, start, stop⟩ :: stack) stack' := by
  cases hstack with
  | nil =>
      cases next with
      | none => cases hreduce
      | some token => exact absurd hreduce (continueExpr_ne_reduce _ _)
  | not hstack =>
      obtain rfl := Action.reduce.inj hreduce
      exact ⟨_, _, _, hstack, .not, rfl, rfl⟩
  | paren hstack =>
      rw [exprAction_paren hstack] at hreduce
      exact absurd hreduce (continueExpr_ne_reduce _ _)
  | call hstack =>
      rw [exprAction] at hreduce
      split at hreduce
      · rename_i hlook
        obtain rfl := Action.reduce.inj hreduce
        exact ⟨_, _, _, hstack, .firstArgument hlook, rfl, rfl⟩
      · exact absurd hreduce (continueExpr_ne_reduce _ _)
  | comma hstack =>
      rw [exprAction] at hreduce
      split at hreduce
      · rename_i hlook
        obtain rfl := Action.reduce.inj hreduce
        exact ⟨_, _, _, hstack, .nextArgument hlook, rfl, rfl⟩
      · exact absurd hreduce (continueExpr_ne_reduce _ _)
  | «if» hstack => exact absurd hreduce (continueExpr_ne_reduce _ _)
  | «then» hstack => exact absurd hreduce (continueExpr_ne_reduce _ _)
  | «else» hstack => exact absurd hreduce (continueExpr_ne_reduce _ _)
  | operator hstack =>
      rw [exprAction_operator] at hreduce
      split at hreduce
      · cases hreduce
      · rename_i hlook
        obtain rfl := Action.reduce.inj hreduce
        exact ⟨_, _, _, hstack, .binary (eq_false_of_ne_true hlook), rfl, rfl⟩

theorem action_reduces
    {stack' : List (Item F)} (hviable : Viable stack)
    (hreduce : action registry stack next = .reduce stack') :
    Replaces registry next stack stack' := by
  cases hviable with
  | waiting hstack =>
      cases hstack with
      | nil => exact absurd hreduce (expectExpr_ne_reduce _)
      | not hstack => exact absurd hreduce (expectExpr_ne_reduce _)
      | paren hstack =>
          rw [action_paren hstack] at hreduce
          exact absurd hreduce (expectExpr_ne_reduce _)
      | call hstack =>
          rw [action] at hreduce
          split at hreduce
          · rename_i hlook
            obtain rfl := Action.reduce.inj hreduce
            exact ⟨_, _, _, hstack, .noArguments hlook, rfl, rfl⟩
          · exact absurd hreduce (expectExpr_ne_reduce _)
      | comma hstack => exact absurd hreduce (expectExpr_ne_reduce _)
      | «if» hstack => exact absurd hreduce (expectExpr_ne_reduce _)
      | «then» hstack => exact absurd hreduce (expectExpr_ne_reduce _)
      | «else» hstack => exact absurd hreduce (expectExpr_ne_reduce _)
      | @operator op left start stop lstart lstop stack hstack =>
          by_cases hop : op = .sequence
          · subst hop
            rw [BinaryOp.token, action] at hreduce
            split at hreduce
            · cases hreduce
            · rename_i hlook
              obtain rfl := Action.reduce.inj hreduce
              exact ⟨_, _, _, hstack, .semicolon (eq_false_of_ne_true hlook), rfl, rfl⟩
          · rw [action_operator op left start stop lstart lstop hop] at hreduce
            exact absurd hreduce (expectExpr_ne_reduce _)
  | name hstack =>
      rw [action] at hreduce
      split at hreduce
      · cases hreduce
      · rename_i hlook
        obtain rfl := Action.reduce.inj hreduce
        exact ⟨_, _, _, hstack, .literal hlook, rfl, rfl⟩
  | expr hstack => exact exprAction_reduces hstack hreduce
  | arglist hstack =>
      rw [action, shiftIf] at hreduce
      split at hreduce
      · cases hreduce
      · cases hreduce
  | called hstack =>
      rw [action] at hreduce
      split at hreduce
      · rename_i hfind
        obtain rfl := Action.reduce.inj hreduce
        exact ⟨_, _, _, hstack, .call hfind, rfl, rfl⟩
      · cases hreduce
  | parens hstack =>
      obtain rfl := Action.reduce.inj hreduce
      exact ⟨_, _, _, hstack, .parens, rfl, rfl⟩
  | ifThen hstack =>
      obtain rfl := Action.reduce.inj hreduce
      exact ⟨_, _, _, hstack, .ifThen, rfl, rfl⟩
  | ifThenElse hstack =>
      obtain rfl := Action.reduce.inj hreduce
      exact ⟨_, _, _, hstack, .ifThenElse, rfl, rfl⟩

theorem Production.handle_viable
    (hproduction : Production registry next handle result) (hstack : Waiting stack) :
    Viable (handle ++ stack) := by
  cases hproduction with
  | literal => exact .name hstack
  | not => exact .expr (.not hstack)
  | binary => exact .expr (.operator hstack)
  | semicolon => exact .waiting (@Waiting.operator _ .sequence _ _ _ _ _ _ hstack)
  | parens => exact .parens hstack
  | call => exact .called hstack
  | ifThen => exact .ifThen hstack
  | ifThenElse => exact .ifThenElse hstack
  | noArguments => exact .waiting (.call hstack)
  | firstArgument => exact .expr (.call hstack)
  | nextArgument => exact .expr (.comma hstack)

theorem Production.result_viable
    (hproduction : Production registry next handle result) (hstack : Waiting stack) :
    Viable (result ++ stack) := by
  cases hproduction with
  | noArguments => exact .arglist hstack
  | firstArgument => exact .arglist hstack
  | nextArgument => exact .arglist hstack
  | _ => exact .expr hstack

/-! ## Shifts -/

theorem exists_operator {token : Token} (hoperator : token.operator.isSome = true) :
    ∃ op : BinaryOp, op.token = token := by
  cases token with
  | semicolon => exact ⟨.sequence, rfl⟩
  | or => exact ⟨.or, rfl⟩
  | and => exact ⟨.and, rfl⟩
  | eq => exact ⟨.eq, rfl⟩
  | ne => exact ⟨.ne, rfl⟩
  | plus => exact ⟨.concat, rfl⟩
  | _ => cases hoperator

theorem viable_starts
    {token : Token} (hstack : Waiting stack) (hstarts : token.startsExpr = true) (start stop : Nat) :
    Viable (⟨.token token, start, stop⟩ :: stack) := by
  cases token with
  | string text => exact .name hstack
  | lparen => exact .waiting (.paren hstack)
  | not => exact .waiting (.not hstack)
  | «if» => exact .waiting (.if hstack)
  | _ => cases hstarts

theorem startsExpr_of_shift {token : Token}
    (hshift : (expectExpr (some token) : Action F) = .shift) : token.startsExpr = true := by
  rw [expectExpr, shiftIf] at hshift
  split at hshift
  · assumption
  · cases hshift

/-- An operator or one of the tokens that can end the expression is shifted. -/
theorem viable_continues
    {expr : Expr F} {start stop : Nat} {token : Token} {ends : Token → Bool}
    (hstack : Waiting stack)
    (hshift : (continueExpr (some token) ends : Action F) = .shift) (tstart tstop : Nat)
    (hends : ends token = true →
      Viable (⟨.token token, tstart, tstop⟩ :: ⟨.expr expr, start, stop⟩ :: stack)) :
    Viable (⟨.token token, tstart, tstop⟩ :: ⟨.expr expr, start, stop⟩ :: stack) := by
  rw [continueExpr, shiftIf] at hshift
  split at hshift
  · rename_i hallowed
    rcases Bool.or_eq_true_iff.mp hallowed with hoperator | htoken
    · obtain ⟨op, rfl⟩ := exists_operator hoperator
      exact .waiting (.operator hstack)
    · exact hends htoken
  · cases hshift

theorem exprAction_shift_viable
    {expr : Expr F} {start stop : Nat} {token : Token} (hstack : Waiting stack)
    (hshift : exprAction registry expr start stop (some token) stack = .shift) (tstart tstop : Nat) :
    Viable (⟨.token token, tstart, tstop⟩ :: ⟨.expr expr, start, stop⟩ :: stack) := by
  cases hstack with
  | nil => exact viable_continues .nil hshift tstart tstop nofun
  | not hstack => cases hshift
  | paren hstack =>
      rw [exprAction_paren hstack] at hshift
      refine viable_continues (.paren hstack) hshift tstart tstop fun hends => ?_
      obtain rfl := of_decide_eq_true hends
      exact .parens hstack
  | call hstack =>
      rw [exprAction] at hshift
      split at hshift
      · cases hshift
      · exact viable_continues (.call hstack) hshift tstart tstop nofun
  | comma hstack =>
      rw [exprAction] at hshift
      split at hshift
      · cases hshift
      · exact viable_continues (.comma hstack) hshift tstart tstop nofun
  | «if» hstack =>
      refine viable_continues (.if hstack) hshift tstart tstop fun hends => ?_
      obtain rfl := of_decide_eq_true hends
      exact .waiting (.then hstack)
  | «then» hstack =>
      refine viable_continues (.then hstack) hshift tstart tstop fun hends => ?_
      rcases of_decide_eq_true hends with rfl | rfl
      · exact .waiting (.else hstack)
      · exact .ifThen hstack
  | «else» hstack =>
      refine viable_continues (.else hstack) hshift tstart tstop fun hends => ?_
      obtain rfl := of_decide_eq_true hends
      exact .ifThenElse hstack
  | operator hstack =>
      rw [exprAction_operator] at hshift
      split at hshift
      · rename_i htighter
        have hoperator : token.operator.isSome = true := by
          rw [bindsTighter, Option.any_some] at htighter
          cases hoperator : token.operator with
          | none =>
              rw [hoperator] at htighter
              cases htighter
          | some operator => rfl
        obtain ⟨op, rfl⟩ := exists_operator hoperator
        exact .waiting (.operator (.operator hstack))
      · cases hshift

theorem action_shift_viable
    {token : Token} (hviable : Viable stack) (hshift : action registry stack (some token) = .shift)
    (start stop : Nat) : Viable (⟨.token token, start, stop⟩ :: stack) := by
  cases hviable with
  | waiting hstack =>
      refine viable_starts hstack ?_ start stop
      cases hstack with
      | paren hstack =>
          rw [action_paren hstack] at hshift
          exact startsExpr_of_shift hshift
      | call hstack =>
          rw [action] at hshift
          split at hshift
          · cases hshift
          · exact startsExpr_of_shift hshift
      | @operator op left ostart ostop lstart lstop stack hstack =>
          by_cases hop : op = .sequence
          · subst hop
            rw [BinaryOp.token, action] at hshift
            split at hshift
            · assumption
            · cases hshift
          · rw [action_operator op left ostart ostop lstart lstop hop] at hshift
            exact startsExpr_of_shift hshift
      | _ => exact startsExpr_of_shift hshift
  | name hstack =>
      rw [action] at hshift
      split at hshift
      · rename_i hlook
        obtain rfl := Option.some.inj hlook
        exact .waiting (.call hstack)
      · cases hshift
  | expr hstack => exact exprAction_shift_viable hstack hshift start stop
  | arglist hstack =>
      rw [action, shiftIf] at hshift
      split at hshift
      · rename_i hends
        cases token with
        | rparen => exact .called hstack
        | comma => exact .waiting (.comma hstack)
        | _ => cases hends
      · cases hshift
  | called hstack =>
      rw [action] at hshift
      split at hshift
      · cases hshift
      · cases hshift
  | parens hstack => cases hshift
  | ifThen hstack => cases hshift
  | ifThenElse hstack => cases hshift

theorem Waiting.ready (hstack : Waiting stack) : Ready registry stack := by
  cases hstack with
  | nil => exact ready_nil
  | not => exact ready_not _ _
  | paren => exact ready_lparen _ _
  | call => exact ready_lparen _ _
  | comma => exact ready_comma _ _
  | «if» => exact ready_if _ _
  | «then» => exact ready_then _ _
  | «else» => exact ready_else _ _
  | operator => exact ready_operator _ _ _ _ _

/-- A shift on a stack is a shift on its upper part, if the token continues that part. -/
theorem shift_above
    {part base : List (Item F)} {token : Token} {start stop : Nat} (hpart : part ≠ [])
    (hviable : Viable (⟨.token token, start, stop⟩ :: part))
    (hshift : action registry (part ++ base) (some token) = .shift) :
    action registry part (some token) = .shift := by
  cases hviable with
  | waiting hstack =>
      cases hstack with
      | not hstack => exact hstack.ready _ rfl
      | paren hstack => exact hstack.ready _ rfl
      | call hstack => rfl
      | comma hstack => rfl
      | «if» hstack => exact hstack.ready _ rfl
      | «then» hstack => rfl
      | «else» hstack => rfl
      | @operator op left _ _ lstart lstop stack hstack =>
          cases hstack with
          | nil => cases op <;> rfl
          | not hstack => cases hshift
          | paren hstack =>
              rw [action, exprAction_paren hstack]
              cases op <;> rfl
          | operator hstack =>
              rw [action, exprAction_operator]
              rw [List.cons_append, List.cons_append, List.cons_append, action,
                exprAction_operator] at hshift
              split at hshift
              · rename_i htighter
                rw [if_pos htighter]
              · cases hshift
          | _ => cases op <;> rfl
  | name hstack => exact hstack.ready _ rfl
  | called hstack => rfl
  | parens hstack =>
      rw [action, exprAction_paren hstack]
      rfl
  | ifThen hstack => rfl
  | ifThenElse hstack => rfl

end Stacks

end OpenRecovery.Edify
