import OpenRecovery.ScriptSlices
import OpenRecovery.ViableStacks
import Mathlib

/-!
# The places of expressions in a script

Every node of the tree of a script has a place in it.  The place is that of the tokens from
which the node was made, and these tokens alone make the node again.
-/

namespace OpenRecovery.Edify

/-! ## The moves that make a part of the stack -/

section Replaying

variable {F : Type} {registry : Registry F}

/-- The part of the stack has the place of the tokens. -/
structure Spans (part : List (Item F)) (tokens : List Lexeme) : Prop where
  start_eq : part.getLast?.map Item.start = tokens.head?.map Lexeme.start
  stop_eq : part.head?.map Item.stop = tokens.getLast?.map Lexeme.stop

/-- Arguments are made only before a token that ends one. -/
def endsArguments : List (Item F) → Bool
  | ⟨.arglist _, _, _⟩ :: _ => true
  | _ => false

/-- The tokens make the part of the stack on an empty stack, also if nothing follows. -/
def Replays (registry : Registry F) (part : List (Item F)) (tokens input : List Lexeme) : Prop :=
  ∀ more, (look more = look input ∨ more = [] ∧ endsArguments part = false) →
    ∃ count, Moves registry count [] (tokens ++ more) part more

/-- What holds of the stack after some tokens. -/
structure Parsed (registry : Registry F) (consumed : List Lexeme) (stack : List (Item F))
    (input : List Lexeme) : Prop where
  viable : Viable stack
  good : ∀ lexeme ∈ consumed, lexeme.token ≠ .bad
  replays : ∀ part base, stack = part ++ base → part ≠ [] → Viable part → Waiting base →
    ∃ before tokens, consumed = before ++ tokens ∧ Spans part tokens ∧
      Replays registry part tokens input

theorem parsed_nil (input : List Lexeme) : Parsed registry [] [] input := by
  refine ⟨.waiting .nil, nofun, ?_⟩
  intro part base hstack hpart
  exact absurd (List.append_eq_nil_iff.mp hstack.symm).1 hpart

variable {consumed input : List Lexeme} {stack stack' : List (Item F)} {lexeme : Lexeme}
variable {next : Option Token} {handle result : List (Item F)}

/-- A token that cannot begin an expression stands on top of what it continues. -/
theorem viable_tail
    {token : Token} {start stop : Nat} {part : List (Item F)}
    (hviable : Viable (⟨.token token, start, stop⟩ :: part)) : Viable part := by
  cases hviable with
  | waiting hstack =>
      cases hstack with
      | not hstack => exact .waiting hstack
      | paren hstack => exact .waiting hstack
      | call hstack => exact .name hstack
      | comma hstack => exact .arglist hstack
      | «if» hstack => exact .waiting hstack
      | «then» hstack => exact .expr (.if hstack)
      | «else» hstack => exact .expr (.then hstack)
      | operator hstack => exact .expr hstack
  | name hstack => exact .waiting hstack
  | called hstack => exact .arglist hstack
  | parens hstack => exact .expr (.paren hstack)
  | ifThen hstack => exact .expr (.then hstack)
  | ifThenElse hstack => exact .expr (.else hstack)

theorem viable_bad {start stop : Nat} : ¬Viable (⟨.token .bad, start, stop⟩ :: stack) := by
  intro hviable
  cases hviable with
  | waiting hstack =>
      generalize htoken : Token.bad = token at hstack
      cases hstack with
      | @operator op => cases op <;> cases htoken
      | _ => cases htoken

theorem startsExpr_of_viable
    {token : Token} {start stop : Nat} (hviable : Viable [(⟨.token token, start, stop⟩ : Item F)]) :
    token.startsExpr = true := by
  cases hviable with
  | waiting hstack =>
      cases hstack with
      | not => rfl
      | paren => rfl
      | «if» => rfl
  | name => rfl

theorem Parsed.shift
    (hparsed : Parsed registry consumed stack (lexeme :: input))
    (hshift : action registry stack (some lexeme.token) = .shift) :
    Parsed registry (consumed ++ [lexeme])
      (⟨.token lexeme.token, lexeme.start, lexeme.stop⟩ :: stack) input := by
  have hviable := action_shift_viable hparsed.viable hshift lexeme.start lexeme.stop
  refine ⟨hviable, ?_, ?_⟩
  · intro other hother hbad
    rcases List.mem_append.mp hother with hother | hother
    · exact hparsed.good other hother hbad
    · obtain rfl := List.mem_singleton.mp hother
      rw [hbad] at hviable
      exact viable_bad hviable
  · intro part base hstack hpart hviablePart hbase
    cases part with
    | nil => exact absurd rfl hpart
    | cons top part =>
        obtain ⟨rfl, rfl⟩ := List.cons.inj hstack
        by_cases hempty : part = []
        · subst hempty
          exact ⟨consumed, [lexeme], rfl, ⟨rfl, rfl⟩, fun more _ =>
            ⟨1, moves_shift (Waiting.nil.ready _ (startsExpr_of_viable hviablePart))⟩⟩
        · obtain ⟨before, tokens, rfl, hspans, hreplays⟩ := hparsed.replays part base rfl hempty
            (viable_tail hviablePart) hbase
          have htokens : tokens ≠ [] := by
            rintro rfl
            have hstart := hspans.start_eq
            cases hlast : part.getLast? with
            | none => exact hempty (List.getLast?_eq_none_iff.mp hlast)
            | some item =>
                rw [hlast] at hstart
                cases hstart
          refine ⟨before, tokens ++ [lexeme], List.append_assoc .., ⟨?_, ?_⟩, ?_⟩
          · rw [List.head?_append_of_ne_nil _ htokens, ← hspans.start_eq, List.getLast?_cons]
            cases hlast : part.getLast? with
            | none => exact absurd (List.getLast?_eq_none_iff.mp hlast) hempty
            | some item => rfl
          · rw [List.getLast?_append]
            rfl
          · intro more _
            obtain ⟨count, hmoves⟩ := hreplays (lexeme :: more) (.inl rfl)
            refine ⟨count + 1, ?_⟩
            rw [List.append_assoc]
            exact hmoves.trans (moves_shift (shift_above hempty hviablePart hshift))

theorem endsArguments_append (hhandle : handle ≠ []) (stack : List (Item F)) :
    endsArguments (handle ++ stack) = endsArguments handle := by
  cases handle with
  | nil => exact absurd rfl hhandle
  | cons item handle =>
      obtain ⟨symbol, start, stop⟩ := item
      cases symbol with
      | token => rfl
      | expr => rfl
      | arglist => rfl

theorem Production.handle_ne_nil (hproduction : Production registry next handle result) :
    handle ≠ [] ∧ endsArguments handle = false ∧ result ≠ [] := by
  cases hproduction with
  | _ => exact ⟨nofun, rfl, nofun⟩

/-- The new items have the place of the old ones. -/
theorem Production.place (hproduction : Production registry next handle result) :
    handle.head?.map Item.stop = result.head?.map Item.stop ∧
      handle.getLast?.map Item.start = result.getLast?.map Item.start := by
  cases hproduction with
  | _ => exact ⟨rfl, rfl⟩

theorem Production.place_append
    (hproduction : Production registry next handle result) (stack : List (Item F)) :
    (handle ++ stack).head?.map Item.stop = (result ++ stack).head?.map Item.stop ∧
      (handle ++ stack).getLast?.map Item.start = (result ++ stack).getLast?.map Item.start := by
  obtain ⟨hstop, hstart⟩ := hproduction.place
  obtain ⟨hhandle, -, hresult⟩ := hproduction.handle_ne_nil
  constructor
  · rw [List.head?_append_of_ne_nil _ hhandle, List.head?_append_of_ne_nil _ hresult, hstop]
  · rw [List.getLast?_append, List.getLast?_append]
    cases stack.getLast? with
    | none => exact hstart
    | some item => rfl

/-- With nothing behind it, an expression is made as before. -/
theorem Production.last
    (hproduction : Production registry next handle result) (hexpr : endsArguments result = false) :
    Production registry none handle result := by
  cases hproduction with
  | literal => exact .literal nofun
  | not => exact .not
  | binary => exact .binary rfl
  | semicolon => exact .semicolon rfl
  | parens => exact .parens
  | call hfind => exact .call hfind
  | ifThen => exact .ifThen
  | ifThenElse => exact .ifThenElse
  | noArguments => cases hexpr
  | firstArgument => cases hexpr
  | nextArgument => cases hexpr

theorem viable_expr {expr : Expr F} {start stop : Nat}
    (hviable : Viable (⟨.expr expr, start, stop⟩ :: stack)) : Waiting stack := by
  cases hviable with
  | waiting hstack => cases hstack
  | expr hstack => exact hstack

/-- A part of the stack with a new item on top of it was a part before. -/
theorem Production.part
    (hproduction : Production registry next handle result) {base part lower : List (Item F)}
    (hstack : result ++ base = part ++ lower) (hpart : part ≠ []) (hviable : Viable part) :
    ∃ upper, part = result ++ upper ∧ base = upper ++ lower ∧ Waiting upper := by
  cases part with
  | nil => exact absurd rfl hpart
  | cons top upper =>
      have harguments : ∀ {argv : List (Expr F)} {name : Bytes}
          {start stop lstart lstop nstart nstop : Nat},
          result = [⟨.arglist argv, start, stop⟩, ⟨.token .lparen, lstart, lstop⟩,
            ⟨.token (.string name), nstart, nstop⟩] →
            ∃ upper', top :: upper = result ++ upper' ∧ base = upper' ++ lower ∧ Waiting upper' := by
        rintro argv name start stop lstart lstop nstart nstop rfl
        obtain ⟨rfl, hrest⟩ := List.cons.inj hstack
        cases hviable with
        | waiting hwaiting => cases hwaiting
        | arglist hwaiting =>
            obtain ⟨hlparen, hrest⟩ := List.cons.inj hrest
            obtain ⟨hname, rfl⟩ := List.cons.inj hrest
            exact ⟨_, by rw [hlparen, hname]; rfl, rfl, hwaiting⟩
      cases hproduction with
      | noArguments => exact harguments rfl
      | firstArgument => exact harguments rfl
      | nextArgument => exact harguments rfl
      | _ =>
          obtain ⟨rfl, rfl⟩ := List.cons.inj hstack
          exact ⟨upper, rfl, rfl, viable_expr hviable⟩

theorem Parsed.reduce
    (hparsed : Parsed registry consumed stack input)
    (hreduce : action registry stack (look input) = .reduce stack') :
    Parsed registry consumed stack' input := by
  obtain ⟨handle, result, base, hbase, hproduction, rfl, rfl⟩ :=
    action_reduces hparsed.viable hreduce
  refine ⟨hproduction.result_viable hbase, hparsed.good, ?_⟩
  intro part lower hstack hpart hviable hlower
  obtain ⟨upper, rfl, rfl, hupper⟩ := hproduction.part hstack hpart hviable
  obtain ⟨hne, hexpr, hresult⟩ := hproduction.handle_ne_nil
  have hplace := hproduction.place_append upper
  obtain ⟨before, tokens, rfl, hspans, hreplays⟩ := hparsed.replays (handle ++ upper) lower
    (List.append_assoc ..).symm (fun hnil => hne (List.append_eq_nil_iff.mp hnil).1)
    (hproduction.handle_viable hupper) hlower
  refine ⟨before, tokens, rfl, ⟨?_, ?_⟩, ?_⟩
  · rw [← hplace.2, hspans.start_eq]
  · rw [← hplace.1, hspans.stop_eq]
  · intro more hmore
    rw [endsArguments_append hresult] at hmore
    obtain ⟨count, hmoves⟩ := hreplays more (hmore.imp_right fun h => ⟨h.1, by
      rw [endsArguments_append hne, hexpr]⟩)
    refine ⟨count + 1, hmoves.trans (moves_reduce ?_)⟩
    rcases hmore with hsame | ⟨rfl, hlast⟩
    · rw [hsame]
      exact hproduction.action upper
    · exact (hproduction.last hlast).action upper

end Replaying

/-! ## Nodes and their places -/

section Nodes

variable {F : Type}

def Expr.argv : Expr F → List (Expr F)
  | .node _ _ argv _ _ => argv

mutual

/-- All nodes of a tree. -/
def Expr.nodes : Expr F → List (Expr F)
  | .node fn name argv start stop => .node fn name argv start stop :: Expr.nodesAll argv

def Expr.nodesAll : List (Expr F) → List (Expr F)
  | [] => []
  | tree :: trees => tree.nodes ++ Expr.nodesAll trees

end

theorem nodes_eq (tree : Expr F) : tree.nodes = tree :: Expr.nodesAll tree.argv := by
  cases tree with
  | node fn name argv start stop => rw [Expr.nodes, Expr.argv]

theorem mem_nodesAll {node : Expr F} {trees : List (Expr F)} :
    node ∈ Expr.nodesAll trees ↔ ∃ tree ∈ trees, node ∈ tree.nodes := by
  induction trees with
  | nil =>
      rw [Expr.nodesAll]
      simp
  | cons tree trees ih =>
      rw [Expr.nodesAll, List.mem_append, ih]
      simp

@[simp] theorem at_argv (tree : Expr F) (start stop : Nat) :
    (tree.at start stop).argv = tree.argv := by
  cases tree
  rfl

@[simp] theorem at_start (tree : Expr F) (start stop : Nat) : (tree.at start stop).start = start := by
  cases tree
  rfl

@[simp] theorem at_stop (tree : Expr F) (start stop : Nat) : (tree.at start stop).stop = stop := by
  cases tree
  rfl

@[simp] theorem at_at (tree : Expr F) (start stop start' stop' : Nat) :
    (tree.at start' stop').at start stop = tree.at start stop := by
  cases tree
  rfl

variable (registry : Registry F) (lexemes : List Lexeme)

/-- Some neighbouring tokens make the expression on an empty stack. -/
def Isolated (tree : Expr F) (start stop : Nat) : Prop :=
  ∃ before tokens after first last count, lexemes = before ++ tokens ++ after ∧
    tokens.head? = some first ∧ tokens.getLast? = some last ∧ first.start = start ∧
    last.stop = stop ∧ Moves registry count [] tokens [⟨.expr tree, start, stop⟩] []

/-- The place of a node: its arguments lie in it, and its tokens make it again. -/
structure WellPlaced (node : Expr F) : Prop where
  inside : ∀ child ∈ node.argv, node.start ≤ child.start ∧ child.stop ≤ node.stop
  alone : ∃ tree, Isolated registry lexemes tree node.start node.stop ∧
    tree.at node.start node.stop = node

/-- All nodes of the tree are well placed, and the tree lies between two places. -/
structure TreePlaced (tree : Expr F) (start stop : Nat) : Prop where
  nodes : ∀ node ∈ tree.nodes, WellPlaced registry lexemes node
  start_le : start ≤ tree.start
  stop_le : tree.stop ≤ stop

def ItemPlaced (item : Item F) : Prop :=
  match item.symbol with
  | .token _ => True
  | .expr tree => TreePlaced registry lexemes tree item.start item.stop ∧
      Isolated registry lexemes tree item.start item.stop
  | .arglist argv => ∀ arg ∈ argv, TreePlaced registry lexemes arg item.start item.stop

/-- The upper item stands behind the lower one. -/
def Item.Behind (upper lower : Item F) : Prop :=
  lower.start ≤ upper.start ∧ lower.stop ≤ upper.stop

structure StackPlaced (stack : List (Item F)) (input : List Lexeme) : Prop where
  ordered : stack.Pairwise Item.Behind
  ahead : ∀ item ∈ stack, ∀ lexeme ∈ input, item.start ≤ lexeme.start ∧ item.stop ≤ lexeme.stop
  items : ∀ item ∈ stack, ItemPlaced registry lexemes item

variable {registry lexemes}

theorem TreePlaced.self {tree : Expr F} {start stop : Nat}
    (hplaced : TreePlaced registry lexemes tree start stop) : WellPlaced registry lexemes tree := by
  refine hplaced.nodes tree ?_
  rw [nodes_eq]
  exact List.mem_cons_self

theorem TreePlaced.widen {tree : Expr F} {start stop start' stop' : Nat}
    (hplaced : TreePlaced registry lexemes tree start stop) (hstart : start' ≤ start)
    (hstop : stop ≤ stop') : TreePlaced registry lexemes tree start' stop' :=
  ⟨hplaced.nodes, hstart.trans hplaced.start_le, hplaced.stop_le.trans hstop⟩

/-- A new node over trees that lie in its place. -/
theorem treePlaced_node
    {fn : F} {name : Bytes} {argv : List (Expr F)} {start stop : Nat}
    (hargv : ∀ arg ∈ argv, TreePlaced registry lexemes arg start stop)
    (halone : Isolated registry lexemes (.node fn name argv start stop) start stop) :
    TreePlaced registry lexemes (.node fn name argv start stop) start stop := by
  refine ⟨?_, le_rfl, le_rfl⟩
  intro node hnode
  rw [nodes_eq, List.mem_cons] at hnode
  rcases hnode with rfl | hnode
  · exact ⟨fun child hchild => ⟨(hargv child hchild).start_le, (hargv child hchild).stop_le⟩,
      _, halone, rfl⟩
  · obtain ⟨arg, harg, hnode⟩ := mem_nodesAll.mp hnode
    exact (hargv arg harg).nodes node hnode

/-- The same tree at a place that the tokens of another tree have. -/
theorem treePlaced_at
    {tree other : Expr F} {start stop start' stop' : Nat}
    (hplaced : TreePlaced registry lexemes tree start stop)
    (halone : Isolated registry lexemes other start' stop')
    (hother : other.at start' stop' = tree.at start' stop') (hstart : start' ≤ start)
    (hstop : stop ≤ stop') : TreePlaced registry lexemes (tree.at start' stop') start' stop' := by
  refine ⟨?_, (at_start ..).ge, (at_stop ..).le⟩
  intro node hnode
  rw [nodes_eq, List.mem_cons] at hnode
  rcases hnode with rfl | hnode
  · refine ⟨fun child hchild => ?_, other, ?_, ?_⟩
    · rw [at_argv] at hchild
      have hinside := hplaced.self.inside child hchild
      have hleft := hplaced.start_le
      have hright := hplaced.stop_le
      rw [at_start, at_stop]
      omega
    · rwa [at_start, at_stop]
    · rwa [at_start, at_stop]
  · rw [at_argv] at hnode
    refine hplaced.nodes node ?_
    rw [nodes_eq]
    exact List.mem_cons_of_mem _ hnode

/-! ## Placed items stay placed -/

variable {next : Option Token} {handle result stack base : List (Item F)} {input : List Lexeme}

theorem isolated_of_parsed
    {consumed : List Lexeme} {tree : Expr F} {start stop : Nat}
    (hparsed : Parsed registry consumed (⟨.expr tree, start, stop⟩ :: base) input) :
    Isolated registry (consumed ++ input) tree start stop := by
  obtain ⟨before, tokens, rfl, hspans, hreplays⟩ := hparsed.replays [⟨.expr tree, start, stop⟩] base
    rfl nofun (.expr .nil) (viable_expr hparsed.viable)
  obtain ⟨first, hfirst, hstart⟩ := Option.map_eq_some_iff.mp hspans.start_eq.symm
  obtain ⟨last, hlast, hstop⟩ := Option.map_eq_some_iff.mp hspans.stop_eq.symm
  obtain ⟨count, hmoves⟩ := hreplays [] (.inr ⟨rfl, rfl⟩)
  rw [List.append_nil] at hmoves
  exact ⟨before, tokens, input, first, last, count, rfl, hfirst, hlast, hstart, hstop, hmoves⟩

/-- A new item in the place of the upper ones. -/
theorem StackPlaced.replace
    {upper : List (Item F)} {item : Item F}
    (hplaced : StackPlaced registry lexemes (upper ++ base) input)
    (hstart : upper.getLast?.map Item.start = some item.start)
    (hstop : upper.head?.map Item.stop = some item.stop)
    (hitem : ItemPlaced registry lexemes item) :
    StackPlaced registry lexemes (item :: base) input := by
  obtain ⟨lowest, hlowest, hlowestStart⟩ := Option.map_eq_some_iff.mp hstart
  obtain ⟨highest, hhighest, hhighestStop⟩ := Option.map_eq_some_iff.mp hstop
  have hlow := List.mem_of_getLast? hlowest
  have hhigh := List.mem_of_head? hhighest
  obtain ⟨-, hbase, hbehind⟩ := List.pairwise_append.mp hplaced.ordered
  refine ⟨List.pairwise_cons.mpr ⟨fun other hother => ⟨?_, ?_⟩, hbase⟩, ?_, ?_⟩
  · rw [← hlowestStart]
    exact (hbehind lowest hlow other hother).1
  · rw [← hhighestStop]
    exact (hbehind highest hhigh other hother).2
  · intro other hother lexeme hlexeme
    rcases List.mem_cons.mp hother with rfl | hother
    · rw [← hlowestStart, ← hhighestStop]
      exact ⟨(hplaced.ahead lowest (List.mem_append_left _ hlow) lexeme hlexeme).1,
        (hplaced.ahead highest (List.mem_append_left _ hhigh) lexeme hlexeme).2⟩
    · exact hplaced.ahead other (List.mem_append_right _ hother) lexeme hlexeme
  · intro other hother
    rcases List.mem_cons.mp hother with rfl | hother
    · exact hitem
    · exact hplaced.items other (List.mem_append_right _ hother)

/-- The items of a production are ordered, and their trees are placed. -/
theorem StackPlaced.reduce
    (hplaced : StackPlaced registry lexemes (handle ++ base) input)
    (hproduction : Production registry next handle result)
    (halone : ∀ tree start stop, result = [⟨.expr tree, start, stop⟩] →
      Isolated registry lexemes tree start stop) :
    StackPlaced registry lexemes (result ++ base) input := by
  have hordered := hplaced.ordered
  have hitems := hplaced.items
  cases hproduction with
  | literal hlook =>
      have hnew := halone _ _ _ rfl
      exact hplaced.replace rfl rfl ⟨treePlaced_node nofun hnew, hnew⟩
  | not =>
      have hnew := halone _ _ _ rfl
      simp only [List.cons_append, List.nil_append, List.pairwise_cons, List.mem_cons,
        forall_eq_or_imp, Item.Behind] at hordered hitems
      refine hplaced.replace rfl rfl ⟨treePlaced_node ?_ hnew, hnew⟩
      intro arg harg
      rw [List.mem_singleton.mp harg]
      exact hitems.1.1.widen hordered.1.1.1 le_rfl
  | binary =>
      have hnew := halone _ _ _ rfl
      simp only [List.cons_append, List.nil_append, List.pairwise_cons, List.mem_cons,
        forall_eq_or_imp, Item.Behind] at hordered hitems
      refine hplaced.replace rfl rfl ⟨treePlaced_node ?_ hnew, hnew⟩
      intro arg harg
      rcases List.mem_cons.mp harg with rfl | harg
      · exact hitems.2.2.1.1.widen le_rfl hordered.1.2.1.2
      · rw [List.mem_singleton.mp harg]
        exact hitems.1.1.widen hordered.1.2.1.1 le_rfl
  | semicolon =>
      have hnew := halone _ _ _ rfl
      simp only [List.cons_append, List.nil_append, List.pairwise_cons, List.mem_cons,
        forall_eq_or_imp, Item.Behind] at hordered hitems
      have hexpr := treePlaced_at hitems.2.1.1 hitems.2.1.2 rfl le_rfl le_rfl
      exact hplaced.replace rfl rfl ⟨hexpr.widen le_rfl hordered.1.1.2, hnew⟩
  | parens =>
      have hnew := halone _ _ _ rfl
      simp only [List.cons_append, List.nil_append, List.pairwise_cons, List.mem_cons,
        forall_eq_or_imp, Item.Behind] at hordered hitems
      exact hplaced.replace rfl rfl ⟨treePlaced_at hitems.2.1.1 hnew (at_at ..) hordered.2.1.1.1
        hordered.1.1.2, hnew⟩
  | call =>
      have hnew := halone _ _ _ rfl
      simp only [List.cons_append, List.nil_append, List.pairwise_cons, List.mem_cons,
        forall_eq_or_imp, Item.Behind] at hordered hitems
      refine hplaced.replace rfl rfl ⟨treePlaced_node ?_ hnew, hnew⟩
      intro arg harg
      exact (hitems.2.1 arg harg).widen hordered.2.1.2.1.1 hordered.1.1.2
  | ifThen =>
      have hnew := halone _ _ _ rfl
      simp only [List.cons_append, List.nil_append, List.pairwise_cons, List.mem_cons,
        forall_eq_or_imp, Item.Behind] at hordered hitems
      refine hplaced.replace rfl rfl ⟨treePlaced_node ?_ hnew, hnew⟩
      intro arg harg
      rcases List.mem_cons.mp harg with rfl | harg
      · exact hitems.2.2.2.1.1.widen hordered.2.2.2.1.1.1 hordered.1.2.2.1.2
      · rw [List.mem_singleton.mp harg]
        exact hitems.2.1.1.widen hordered.2.1.2.2.1.1 hordered.1.1.2
  | ifThenElse =>
      have hnew := halone _ _ _ rfl
      simp only [List.cons_append, List.nil_append, List.pairwise_cons, List.mem_cons,
        forall_eq_or_imp, Item.Behind] at hordered hitems
      refine hplaced.replace rfl rfl ⟨treePlaced_node ?_ hnew, hnew⟩
      intro arg harg
      rcases List.mem_cons.mp harg with rfl | harg
      · exact hitems.2.2.2.2.2.1.1.widen hordered.2.2.2.2.2.1.1.1 hordered.1.2.2.2.2.1.2
      rcases List.mem_cons.mp harg with rfl | harg
      · exact hitems.2.2.2.1.1.widen hordered.2.2.2.1.2.2.1.1 hordered.1.2.2.1.2
      · rw [List.mem_singleton.mp harg]
        exact hitems.2.1.1.widen hordered.2.1.2.2.2.2.1.1 hordered.1.1.2
  | @noArguments name lstart lstop nstart nstop =>
      refine ⟨?_, ?_, ?_⟩
      · refine List.pairwise_cons.mpr ⟨?_, hordered⟩
        intro other hother
        rcases List.mem_cons.mp hother with rfl | hother
        · exact ⟨le_rfl, le_rfl⟩
        · exact (List.pairwise_cons.mp hordered).1 other hother
      · intro other hother
        rcases List.mem_cons.mp hother with rfl | hother
        · exact hplaced.ahead ⟨.token .lparen, lstart, lstop⟩ List.mem_cons_self
        · exact hplaced.ahead other hother
      · intro other hother
        rcases List.mem_cons.mp hother with rfl | hother
        · exact nofun
        · exact hitems other hother
  | @firstArgument name expr start stop =>
      have hexpr := (hitems ⟨.expr expr, start, stop⟩ List.mem_cons_self).1
      refine @StackPlaced.replace _ _ _ _ _ [⟨.expr expr, start, stop⟩] _ hplaced rfl rfl ?_
      intro arg harg
      rw [List.mem_singleton.mp harg]
      exact hexpr
  | @nextArgument name expr argv start stop cstart cstop astart astop =>
      refine @StackPlaced.replace _ _ _ _ _ [⟨.expr expr, start, stop⟩,
        ⟨.token .comma, cstart, cstop⟩, ⟨.arglist argv, astart, astop⟩] _ hplaced rfl rfl ?_
      simp only [List.cons_append, List.nil_append, List.pairwise_cons, List.mem_cons,
        forall_eq_or_imp, Item.Behind] at hordered hitems
      intro arg harg
      rcases List.mem_append.mp harg with harg | harg
      · exact (hitems.2.2.1 arg harg).widen le_rfl hordered.1.2.1.2
      · rw [List.mem_singleton.mp harg]
        exact hitems.1.1.widen hordered.1.2.1.1 le_rfl

/-- No later token begins or ends before an earlier one. -/
def Ordered (lexemes : List Lexeme) : Prop :=
  lexemes.Pairwise fun earlier later => earlier.start ≤ later.start ∧ earlier.stop ≤ later.stop

theorem StackPlaced.shift
    {lexeme : Lexeme} (hplaced : StackPlaced registry lexemes stack (lexeme :: input))
    (hordered : Ordered (lexeme :: input)) :
    StackPlaced registry lexemes (⟨.token lexeme.token, lexeme.start, lexeme.stop⟩ :: stack)
      input := by
  refine ⟨List.pairwise_cons.mpr ⟨?_, hplaced.ordered⟩, ?_, ?_⟩
  · intro other hother
    exact hplaced.ahead other hother lexeme List.mem_cons_self
  · intro other hother next hnext
    rcases List.mem_cons.mp hother with rfl | hother
    · exact (List.pairwise_cons.mp hordered).1 next hnext
    · exact hplaced.ahead other hother next (List.mem_cons_of_mem _ hnext)
  · intro other hother
    rcases List.mem_cons.mp hother with rfl | hother
    · trivial
    · exact hplaced.items other hother

/-! ## Whole runs -/

/-- A move shifts the next token or reduces. -/
theorem move_cases
    {stack' : List (Item F)} {input' : List Lexeme}
    (hmove : move registry stack input = .inr (stack', input')) :
    (∃ lexeme, input = lexeme :: input' ∧ action registry stack (some lexeme.token) = .shift ∧
        stack' = ⟨.token lexeme.token, lexeme.start, lexeme.stop⟩ :: stack) ∨
      (action registry stack (look input) = .reduce stack' ∧ input' = input) := by
  rw [move.eq_def, ← look] at hmove
  cases haction : action registry stack (look input) with
  | accept root =>
      rw [haction] at hmove
      cases hmove
  | error =>
      rw [haction] at hmove
      cases hmove
  | reduce stack'' =>
      rw [haction] at hmove
      obtain ⟨rfl, rfl⟩ := Prod.mk.inj (Sum.inr.inj hmove)
      exact .inr ⟨rfl, rfl⟩
  | shift =>
      rw [haction] at hmove
      cases input with
      | nil => cases hmove
      | cons lexeme input =>
          obtain ⟨rfl, rfl⟩ := Prod.mk.inj (Sum.inr.inj hmove)
          exact .inl ⟨lexeme, rfl, haction, rfl⟩

/-- The stack after some of the tokens. -/
structure Reached (registry : Registry F) (lexemes : List Lexeme) (stack : List (Item F))
    (input : List Lexeme) : Prop where
  parsed : ∃ consumed, lexemes = consumed ++ input ∧ Parsed registry consumed stack input
  placed : Ordered lexemes → StackPlaced registry lexemes stack input

theorem reached_nil : Reached registry lexemes [] lexemes :=
  ⟨⟨[], rfl, parsed_nil lexemes⟩, fun _ => ⟨.nil, nofun, nofun⟩⟩

theorem Reached.move
    {stack' : List (Item F)} {input' : List Lexeme}
    (hreached : Reached registry lexemes stack input)
    (hmove : move registry stack input = .inr (stack', input')) :
    Reached registry lexemes stack' input' := by
  obtain ⟨consumed, rfl, hparsed⟩ := hreached.parsed
  rcases move_cases hmove with ⟨lexeme, rfl, hshift, rfl⟩ | ⟨hreduce, rfl⟩
  · refine ⟨⟨_, (List.append_assoc consumed [lexeme] input').symm, hparsed.shift hshift⟩, ?_⟩
    intro hordered
    exact (hreached.placed hordered).shift (List.pairwise_append.mp hordered).2.1
  · have hnew := hparsed.reduce hreduce
    refine ⟨⟨consumed, rfl, hnew⟩, ?_⟩
    intro hordered
    obtain ⟨handle, result, base, -, hproduction, rfl, rfl⟩ :=
      action_reduces hparsed.viable hreduce
    refine (hreached.placed hordered).reduce hproduction ?_
    rintro tree start stop rfl
    exact isolated_of_parsed hnew

theorem Moves.reached
    {count : Nat} {stack' : List (Item F)} {input' : List Lexeme}
    (hmoves : Moves registry count stack input stack' input')
    (hreached : Reached registry lexemes stack input) : Reached registry lexemes stack' input' := by
  induction hmoves with
  | refl => exact hreached
  | step hmove _ ih => exact ih (hreached.move hmove)

/-- Only one expression with nothing behind it is accepted. -/
theorem exprAction_accepts
    {expr root : Expr F} {start stop : Nat} (hstack : Waiting stack)
    (haccept : exprAction registry expr start stop next stack = .accept root) :
    stack = [] ∧ next = none ∧ expr = root := by
  have hcontinue : ∀ ends, (continueExpr next ends : Action F) ≠ .accept root := by
    intro ends
    rw [continueExpr, shiftIf]
    split
    · intro hnot
      cases hnot
    · intro hnot
      cases hnot
  cases hstack with
  | nil =>
      cases next with
      | none => exact ⟨rfl, rfl, Action.accept.inj haccept⟩
      | some token => exact absurd haccept (hcontinue _)
  | not => cases haccept
  | paren hstack =>
      rw [exprAction_paren hstack] at haccept
      exact absurd haccept (hcontinue _)
  | call =>
      rw [exprAction] at haccept
      split at haccept
      · cases haccept
      · exact absurd haccept (hcontinue _)
  | comma =>
      rw [exprAction] at haccept
      split at haccept
      · cases haccept
      · exact absurd haccept (hcontinue _)
  | «if» => exact absurd haccept (hcontinue _)
  | «then» => exact absurd haccept (hcontinue _)
  | «else» => exact absurd haccept (hcontinue _)
  | operator =>
      rw [exprAction_operator] at haccept
      split at haccept
      · cases haccept
      · cases haccept

theorem action_accepts
    {root : Expr F} (hviable : Viable stack)
    (haccept : action registry stack next = .accept root) :
    ∃ start stop, stack = [⟨.expr root, start, stop⟩] ∧ next = none := by
  have hexpect : (expectExpr next : Action F) ≠ .accept root := by
    rw [expectExpr, shiftIf]
    split
    · intro hnot
      cases hnot
    · intro hnot
      cases hnot
  cases hviable with
  | waiting hstack =>
      cases hstack with
      | paren hstack =>
          rw [action_paren hstack] at haccept
          exact absurd haccept hexpect
      | call hstack =>
          rw [action] at haccept
          split at haccept
          · cases haccept
          · exact absurd haccept hexpect
      | @operator op left start stop lstart lstop stack hstack =>
          by_cases hop : op = .sequence
          · subst hop
            rw [BinaryOp.token, action] at haccept
            split at haccept
            · cases haccept
            · cases haccept
          · rw [action_operator op left start stop lstart lstop hop] at haccept
            exact absurd haccept hexpect
      | _ => exact absurd haccept hexpect
  | name =>
      rw [action] at haccept
      split at haccept
      · cases haccept
      · cases haccept
  | expr hstack =>
      obtain ⟨rfl, rfl, rfl⟩ := exprAction_accepts hstack haccept
      exact ⟨_, _, rfl, rfl⟩
  | arglist =>
      rw [action, shiftIf] at haccept
      split at haccept
      · cases haccept
      · cases haccept
  | called =>
      rw [action] at haccept
      split at haccept
      · cases haccept
      · cases haccept
  | parens => cases haccept
  | ifThen => cases haccept
  | ifThenElse => cases haccept

/-- A script that is parsed leaves one expression on the stack. -/
theorem parseLoop_reached
    {fuel : Nat} {root : Expr F} (hreached : Reached registry lexemes stack input)
    (hparse : parseLoop registry fuel stack input = some root) :
    ∃ start stop, Reached registry lexemes [⟨.expr root, start, stop⟩] [] := by
  induction fuel generalizing stack input with
  | zero => cases hparse
  | succ fuel ih =>
      rw [parseLoop] at hparse
      cases hmove : move registry stack input with
      | inr next =>
          rw [hmove] at hparse
          exact ih (hreached.move hmove) hparse
      | inl result =>
          rw [hmove] at hparse
          obtain rfl : result = some root := hparse
          obtain ⟨consumed, -, hparsed⟩ := hreached.parsed
          rw [move.eq_def, ← look] at hmove
          cases haction : action registry stack (look input) with
          | accept other =>
              rw [haction] at hmove
              obtain rfl := Option.some.inj (Sum.inl.inj hmove)
              obtain ⟨start, stop, rfl, hlook⟩ := action_accepts hparsed.viable haction
              have hinput : input = [] := by
                cases input with
                | nil => rfl
                | cons => cases hlook
              subst hinput
              exact ⟨start, stop, hreached⟩
          | error =>
              rw [haction] at hmove
              cases hmove
          | reduce =>
              rw [haction] at hmove
              cases hmove
          | shift =>
              rw [haction] at hmove
              cases input with
              | nil => cases hmove
              | cons => cases hmove

/-- Every node of the tree of a script is well placed. -/
theorem parse_placed
    {root : Expr F} (hordered : Ordered lexemes) (hparse : parse registry lexemes = some root) :
    ∀ node ∈ root.nodes, WellPlaced registry lexemes node := by
  obtain ⟨start, stop, hreached⟩ := parseLoop_reached reached_nil hparse
  exact ((hreached.placed hordered).items _ List.mem_cons_self).1.nodes

/-- Every token of a script that is parsed is one. -/
theorem parse_good
    {root : Expr F} (hparse : parse registry lexemes = some root) :
    ∀ lexeme ∈ lexemes, lexeme.token ≠ .bad := by
  obtain ⟨start, stop, hreached⟩ := parseLoop_reached reached_nil hparse
  obtain ⟨consumed, rfl, hparsed⟩ := hreached.parsed
  rw [List.append_nil]
  exact hparsed.good

end Nodes

end OpenRecovery.Edify
