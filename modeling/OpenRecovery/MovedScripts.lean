import OpenRecovery.SourceSpans
import Mathlib

/-!
# Parsing a script at another place

The parser looks at the symbols on its stack, never at their places.  So the tokens of a
script, all moved by one distance, are parsed to the same tree, moved by that distance.
-/

namespace OpenRecovery.Edify

section MovingParser

variable {F : Type}

mutual

def Expr.move (offset : Nat) : Expr F → Expr F
  | .node fn name argv start stop =>
      .node fn name (Expr.moveAll offset argv) (start + offset) (stop + offset)

def Expr.moveAll (offset : Nat) : List (Expr F) → List (Expr F)
  | [] => []
  | tree :: trees => tree.move offset :: Expr.moveAll offset trees

end

def Symbol.move (offset : Nat) : Symbol F → Symbol F
  | .token terminal => .token terminal
  | .expr tree => .expr (tree.move offset)
  | .arglist argv => .arglist (Expr.moveAll offset argv)

def Item.move (offset : Nat) (item : Item F) : Item F :=
  ⟨item.symbol.move offset, item.start + offset, item.stop + offset⟩

def Action.move (offset : Nat) : Action F → Action F
  | .shift => .shift
  | .reduce stack => .reduce (stack.map (Item.move offset))
  | .accept root => .accept (root.move offset)
  | .error => .error

variable (offset : Nat)

theorem moveAll_append (trees trees' : List (Expr F)) :
    Expr.moveAll offset (trees ++ trees') =
      Expr.moveAll offset trees ++ Expr.moveAll offset trees' := by
  induction trees with
  | nil => rfl
  | cons tree trees ih =>
      rw [List.cons_append, Expr.moveAll, ih, Expr.moveAll, List.cons_append]

theorem move_at (tree : Expr F) (start stop : Nat) :
    (tree.at start stop).move offset = (tree.move offset).at (start + offset) (stop + offset) := by
  cases tree with
  | node fn name argv => rw [Expr.at, Expr.move, Expr.move, Expr.at]

variable {registry : Registry F} {next : Option Token} {handle result stack : List (Item F)}

theorem Waiting.move (hstack : Waiting stack) : Waiting (stack.map (Item.move offset)) := by
  induction hstack with
  | nil => exact .nil
  | not _ ih => exact .not ih
  | paren _ ih => exact .paren ih
  | call _ ih => exact .call ih
  | comma _ ih => exact .comma ih
  | «if» _ ih => exact .if ih
  | «then» _ ih => exact .then ih
  | «else» _ ih => exact .else ih
  | operator _ ih => exact .operator ih

theorem shiftIf_move (allowed : Bool) :
    (shiftIf allowed : Action F).move offset = shiftIf allowed := by
  cases allowed with
  | false => rfl
  | true => rfl

theorem continueExpr_move (ends : Token → Bool) :
    (continueExpr next ends : Action F).move offset = continueExpr next ends :=
  shiftIf_move offset _

theorem expectExpr_move : (expectExpr next : Action F).move offset = expectExpr next :=
  shiftIf_move offset _

theorem exprAction_move
    (hstack : Waiting stack) (expr : Expr F) (start stop : Nat) :
    exprAction registry (expr.move offset) (start + offset) (stop + offset) next
        (stack.map (Item.move offset)) =
      (exprAction registry expr start stop next stack).move offset := by
  cases hstack with
  | nil =>
      cases next with
      | none => rfl
      | some token => exact (continueExpr_move offset _).symm
  | not hstack => rfl
  | paren hstack =>
      rw [exprAction_paren hstack, continueExpr_move]
      exact exprAction_paren (hstack.move offset) _ _ _ _ _
  | call hstack =>
      rw [exprAction]
      split
      · rename_i hlook
        exact if_pos hlook
      · rename_i hlook
        rw [continueExpr_move]
        exact if_neg hlook
  | comma hstack =>
      rw [exprAction]
      split
      · rename_i hlook
        refine (if_pos hlook).trans ?_
        simp only [Action.move, List.map_cons, Item.move, Symbol.move, moveAll_append, Expr.moveAll]
      · rename_i hlook
        rw [continueExpr_move]
        exact if_neg hlook
  | «if» hstack => exact (continueExpr_move offset _).symm
  | «then» hstack => exact (continueExpr_move offset _).symm
  | «else» hstack => exact (continueExpr_move offset _).symm
  | operator hstack =>
      rw [exprAction_operator]
      refine (exprAction_operator ..).trans ?_
      split
      · rfl
      · rfl

theorem action_move (hviable : Viable stack) :
    action registry (stack.map (Item.move offset)) next =
      (action registry stack next).move offset := by
  cases hviable with
  | waiting hstack =>
      cases hstack with
      | paren hstack =>
          rw [action_paren hstack, expectExpr_move]
          exact action_paren (hstack.move offset) _ _
      | call hstack =>
          rw [action]
          split
          · rename_i hlook
            exact if_pos hlook
          · rename_i hlook
            rw [expectExpr_move]
            exact if_neg hlook
      | @operator op left start stop lstart lstop stack hstack =>
          by_cases hop : op = .sequence
          · subst hop
            rw [BinaryOp.token, action]
            split
            · rename_i hlook
              exact if_pos hlook
            · rename_i hlook
              refine (if_neg hlook).trans ?_
              simp only [Action.move, List.map_cons, Item.move, Symbol.move, move_at]
          · rw [action_operator op left start stop lstart lstop hop, expectExpr_move]
            exact action_operator op _ _ _ _ _ hop
      | _ => exact (expectExpr_move offset).symm
  | name hstack =>
      rw [action]
      split
      · rename_i hlook
        exact if_pos hlook
      · rename_i hlook
        exact if_neg hlook
  | expr hstack => exact exprAction_move offset hstack _ _ _
  | arglist hstack => exact (shiftIf_move offset _).symm
  | @called name argv start stop astart astop lstart lstop nstart nstop stack hstack =>
      simp only [List.map_cons, Item.move, Symbol.move, action]
      cases registry.findFunction name with
      | none => rfl
      | some fn => rfl
  | parens hstack =>
      simp only [List.map_cons, Item.move, Symbol.move, action, Action.move, move_at]
  | ifThen hstack => rfl
  | ifThenElse hstack => rfl

theorem look_move (input : List Lexeme) : look (input.map (Lexeme.move offset)) = look input := by
  cases input with
  | nil => rfl
  | cons lexeme input => rfl

/-- The stack after a move. -/
theorem Viable.step
    {stack' : List (Item F)} {input input' : List Lexeme} (hviable : Viable stack)
    (hmove : move registry stack input = .inr (stack', input')) : Viable stack' := by
  rcases move_cases hmove with ⟨lexeme, -, hshift, rfl⟩ | ⟨hreduce, -⟩
  · exact action_shift_viable hviable hshift _ _
  · obtain ⟨handle, result, base, hbase, hproduction, -, rfl⟩ := action_reduces hviable hreduce
    exact hproduction.result_viable hbase

theorem move_move (hviable : Viable stack) (input : List Lexeme) :
    move registry (stack.map (Item.move offset)) (input.map (Lexeme.move offset)) =
      (move registry stack input).map (Option.map (Expr.move offset))
        (Prod.map (List.map (Item.move offset)) (List.map (Lexeme.move offset))) := by
  rw [move.eq_def, move.eq_def, ← look, ← look, look_move, action_move offset hviable]
  cases action registry stack (look input) with
  | accept root => rfl
  | error => rfl
  | reduce stack' => rfl
  | shift =>
      cases input with
      | nil => rfl
      | cons lexeme input => rfl

theorem parseLoop_move (fuel : Nat) (hviable : Viable stack) (input : List Lexeme) :
    parseLoop registry fuel (stack.map (Item.move offset)) (input.map (Lexeme.move offset)) =
      (parseLoop registry fuel stack input).map (Expr.move offset) := by
  induction fuel generalizing stack input with
  | zero => rfl
  | succ fuel ih =>
      rw [parseLoop, parseLoop, move_move offset hviable]
      cases hmove : move registry stack input with
      | inl root => rfl
      | inr next => exact ih (hviable.step hmove) next.2

/-- Moved tokens are parsed to the moved tree. -/
theorem parse_move (registry : Registry F) (input : List Lexeme) :
    parse registry (input.map (Lexeme.move offset)) =
      (parse registry input).map (Expr.move offset) := by
  rw [parse, parse, List.length_map]
  exact parseLoop_move offset _ (.waiting .nil) input

end MovingParser

/-! ## Every parse ends -/

section Fuel

variable {F : Type} {registry : Registry F} {next : Option Token} {handle result : List (Item F)}

/-- An upper bound for the moves that a symbol still takes part in. -/
def Symbol.weight : Symbol F → Int
  | .token (.string _) => 2
  | .token _ => 1
  | .expr _ => 1
  | .arglist _ => -1

def stackWeight (stack : List (Item F)) : Int :=
  (stack.map fun item => item.symbol.weight).sum

theorem Symbol.weight_le (token : Token) : (Symbol.token token : Symbol F).weight ≤ 2 := by
  cases token with
  | _ => simp [Symbol.weight]

theorem stackWeight_append (upper lower : List (Item F)) :
    stackWeight (upper ++ lower) = stackWeight upper + stackWeight lower := by
  rw [stackWeight, List.map_append, List.sum_append]
  rfl

theorem Production.weight (hproduction : Production registry next handle result) :
    stackWeight result + 1 ≤ stackWeight handle := by
  cases hproduction with
  | @binary op =>
      cases op with
      | _ => simp [stackWeight, Symbol.weight, BinaryOp.token]
  | _ => simp [stackWeight, Symbol.weight]

variable {count : Nat} {stack stack' : List (Item F)} {input input' : List Lexeme}

theorem Moves.count_le
    (hmoves : Moves registry count stack input stack' input') (hviable : Viable stack) :
    count + (3 * input'.length + stackWeight stack') ≤ 3 * input.length + stackWeight stack := by
  induction hmoves with
  | refl => simp
  | @step count stack stack' stack'' input input' input'' hmove _ ih =>
      have hrest := ih (hviable.step hmove)
      have hstep : 3 * (input'.length : Int) + stackWeight stack' + 1 ≤
          3 * input.length + stackWeight stack := by
        rcases move_cases hmove with ⟨lexeme, rfl, -, rfl⟩ | ⟨hreduce, rfl⟩
        · have hweight := @Symbol.weight_le F lexeme.token
          rw [stackWeight, List.map_cons, List.sum_cons, ← stackWeight, List.length_cons]
          push_cast
          omega
        · obtain ⟨handle, result, base, -, hproduction, rfl, rfl⟩ := action_reduces hviable hreduce
          have hweight := hproduction.weight
          rw [stackWeight_append, stackWeight_append]
          omega
      push_cast
      omega

/-- Whatever can be made of the tokens is what `parse` returns. -/
theorem parse_of_moves
    {tree : Expr F} {start stop : Nat}
    (hmoves : Moves registry count [] input [⟨.expr tree, start, stop⟩] []) :
    parse registry input = some tree := by
  have hcount := hmoves.count_le (.waiting .nil)
  have hle : count + 1 ≤ 3 * input.length + 1 := by
    simp [stackWeight, Symbol.weight] at hcount
    omega
  obtain ⟨fuel, hfuel⟩ := Nat.exists_eq_add_of_le hle
  rw [parse, hfuel, Nat.add_assoc, hmoves.parseLoop, Nat.add_comm 1, parseLoop]
  rfl

end Fuel

end OpenRecovery.Edify
