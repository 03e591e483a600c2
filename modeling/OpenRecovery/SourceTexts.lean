import OpenRecovery.MovedScripts
import Mathlib

/-!
# The text of an expression

The place of a node cuts a text out of the script.  That text is a script of its own, and its
tree is the node again.  A failed assertion quotes this text.
-/

namespace OpenRecovery.Edify

/-! ## The places of tokens -/

section Places

variable {pos : Nat} {input : Bytes} {lexemes : List Lexeme}

theorem Reads.bounds (hreads : Reads pos input lexemes) :
    ∀ lexeme ∈ lexemes, pos ≤ lexeme.start ∧ lexeme.start ≤ lexeme.stop ∧
      lexeme.stop ≤ pos + input.length := by
  induction hreads with
  | done => exact nofun
  | skip htakes hrest ih =>
      intro lexeme hlexeme
      have hbounds := ih lexeme hlexeme
      rw [List.length_append]
      omega
  | token htakes hrest ih =>
      intro lexeme hlexeme
      rw [List.length_append]
      rcases List.mem_cons.mp hlexeme with rfl | hlexeme
      · dsimp only
        omega
      · have hbounds := ih lexeme hlexeme
        omega

theorem Reads.ordered (hreads : Reads pos input lexemes) : Ordered lexemes := by
  induction hreads with
  | done => exact .nil
  | skip htakes hrest ih => exact ih
  | token htakes hrest ih =>
      refine List.pairwise_cons.mpr ⟨?_, ih⟩
      intro later hlater
      have hbounds := hrest.bounds later hlater
      dsimp only
      omega

end Places

/-! ## Quoting an argument -/

section Quoting

variable {Op : Type} {Reply : Op → Type}

/-- What `assert` does with an argument that is not true. -/
def quoteArgument (arg : Arg Op Reply) : Eval Op Reply (Option Value) := do
  let text ← sourceText arg
  fail (ascii "assert failed: " ++ text)

theorem quoteArgument_eq
    {arg : Arg Op Reply} {state : State} {text : Bytes}
    (hslice : slice state.script arg.start (arg.stop - arg.start) = .ok text) :
    quoteArgument arg state =
      pure (none, { state with errmsg := some (ascii "assert failed: " ++ text) }) := by
  have htext : sourceText arg state = pure (text, state) := by
    rw [sourceText, hslice]
  change (sourceText arg state >>= fun pair => fail (ascii "assert failed: " ++ pair.1) pair.2) = _
  rw [htext, pure_bind]
  rfl

theorem unlessNull_assoc {α β γ : Type} (first : Eval Op Reply (Option α))
    (second : α → Eval Op Reply (Option β)) (third : β → Eval Op Reply (Option γ)) :
    unlessNull (unlessNull first second) third =
      unlessNull first fun value => unlessNull (second value) third := by
  rw [unlessNull, unlessNull, bind_assoc, unlessNull]
  congr 1
  funext value
  cases value with
  | none => rw [pure_bind]
  | some value => rfl

/-- The arguments up to one, then the others. -/
theorem assertLoop_append (before after : List (Arg Op Reply)) :
    assertLoop (before ++ after) = unlessNull (assertLoop before) fun _ => assertLoop after := by
  induction before with
  | nil =>
      rw [assertLoop, unlessNull, stringValue, pure_bind]
      rfl
  | cons arg before ih =>
      rw [List.cons_append, assertLoop, assertLoop, unlessNull_assoc]
      congr 1
      funext value
      split
      · exact ih
      · rw [unlessNull, bind_assoc]
        congr 1

end Quoting

/-! ## Every node -/

section Faithful

variable {F : Type}

/-- What the place of a node says: it lies in the script and around the places of the
arguments, and its text is parsed to the node again. -/
structure Faithful (registry : Registry F) (script : Bytes) (node : Expr F) : Prop where
  start_le : node.start ≤ node.stop
  stop_le : node.stop ≤ script.length
  inside : ∀ child ∈ node.argv, node.start ≤ child.start ∧ child.stop ≤ node.stop
  alone : ∃ text tree, slice script node.start (node.stop - node.start) = .ok text ∧
    parseScript registry text = .ok (some tree) ∧
    (tree.move node.start).at node.start node.stop = node

/-- The arguments before this one being true, `assert` looks at this one.  If it is not
true, the message quotes a text that is parsed to this argument. -/
def Quoted (registry : Registry F) (script : Bytes) (before : List (Expr F)) (arg : Expr F)
    (after : List (Expr F)) : Prop :=
  ∃ text tree, parseScript registry text = .ok (some tree) ∧
    (tree.move arg.start).at arg.start arg.stop = arg ∧
    ∀ (Op : Type) (Reply : Op → Type) (table : F → Function Op Reply) (name : Bytes),
      ∃ quote : Eval Op Reply (Option Value),
        (assertFn name (arguments table (before ++ arg :: after)) =
          unlessNull (assertFn name (arguments table before)) fun _ =>
            unlessNull (evaluateExpr table arg) fun value =>
              if booleanString value then assertFn name (arguments table after) else quote) ∧
        ∀ state, state.script = script → quote state =
          pure (none, { state with errmsg := some (ascii "assert failed: " ++ text) })

theorem slice_middle (gap text rest : Bytes) {start stop : Nat} (hstart : gap.length = start)
    (hstop : gap.length + text.length = stop) :
    slice (gap ++ text ++ rest) start (stop - start) = .ok text := by
  have hlength : ((stop : Int) - start).toNat = text.length := by omega
  rw [slice, if_pos]
  · rw [hlength, Int.toNat_natCast, ← hstart, List.append_assoc, List.drop_left, List.take_left]
  · simp only [List.length_append]
    omega

theorem parseScript_eq {registry : Registry F} {script : Bytes} {root : Expr F}
    (hparse : parseScript registry script = .ok (some root)) :
    ∃ lexemes, scan 0 script = .ok lexemes ∧ parse registry lexemes = some root := by
  rw [parseScript] at hparse
  cases hscan : scan 0 script with
  | error reason =>
      rw [hscan] at hparse
      cases hparse
  | ok lexemes =>
      rw [hscan] at hparse
      exact ⟨lexemes, rfl, Except.ok.inj hparse⟩

theorem nodes_faithful
    {registry : Registry F} {script : Bytes} {root : Expr F}
    (hparse : parseScript registry script = .ok (some root)) :
    ∀ node ∈ root.nodes, Faithful registry script node := by
  intro node hnode
  obtain ⟨lexemes, hscan, hparse⟩ := parseScript_eq hparse
  have hgood := parse_good hparse
  have hreads := reads_of_scan hscan hgood
  obtain ⟨hinside, tree, ⟨before, tokens, after, first, last, count, rfl, hfirst, hlast, hstart,
    hstop, hmoves⟩, htree⟩ := parse_placed hreads.ordered hparse node hnode
  obtain ⟨gap, text, rest, rfl, hgap, htext, alone, halone, rfl⟩ :=
    scan_slice hscan hgood hfirst hlast
  rw [hstart] at hgap hmoves
  rw [hstop] at htext
  have hmoved := parse_of_moves hmoves
  rw [parse_move] at hmoved
  obtain ⟨other, hother, rfl⟩ := Option.map_eq_some_iff.mp hmoved
  refine ⟨by omega, ?_, hinside, text, other, slice_middle gap text rest hgap htext, ?_, htree⟩
  · simp only [List.length_append]
    omega
  · rw [parseScript, halone]
    exact congrArg Except.ok hother

theorem arguments_append {Op : Type} {Reply : Op → Type} (table : F → Function Op Reply)
    (before after : List (Expr F)) :
    arguments table (before ++ after) = arguments table before ++ arguments table after := by
  induction before with
  | nil => rfl
  | cons arg before ih =>
      rw [List.cons_append, arguments, ih, arguments, List.cons_append]

theorem Faithful.quoted
    {registry : Registry F} {script : Bytes} {arg : Expr F}
    (hfaithful : Faithful registry script arg) (before after : List (Expr F)) :
    Quoted registry script before arg after := by
  obtain ⟨text, tree, hslice, hparse, htree⟩ := hfaithful.alone
  refine ⟨text, tree, hparse, htree, ?_⟩
  intro Op Reply table name
  refine ⟨quoteArgument ⟨evaluateValue table arg, arg.start, arg.stop⟩, ?_, ?_⟩
  · rw [assertFn, arguments_append, assertLoop_append, arguments, assertLoop]
    rfl
  · rintro state rfl
    exact quoteArgument_eq hslice

mutual

theorem child_mem_nodes {node child : Expr F} :
    (root : Expr F) → node ∈ root.nodes → child ∈ node.argv → child ∈ root.nodes
  | .node fn name argv start stop, hnode, hchild => by
      rw [nodes_eq, List.mem_cons] at hnode ⊢
      refine .inr ?_
      rcases hnode with rfl | hnode
      · exact mem_nodesAll.mpr ⟨child, hchild, by rw [nodes_eq]; exact List.mem_cons_self⟩
      · exact child_mem_nodesAll argv hnode hchild

theorem child_mem_nodesAll {node child : Expr F} :
    (trees : List (Expr F)) → node ∈ Expr.nodesAll trees → child ∈ node.argv →
      child ∈ Expr.nodesAll trees
  | [], hnode, _ => by cases hnode
  | tree :: trees, hnode, hchild => by
      rw [Expr.nodesAll, List.mem_append] at hnode ⊢
      rcases hnode with hnode | hnode
      · exact .inl (child_mem_nodes tree hnode hchild)
      · exact .inr (child_mem_nodesAll trees hnode hchild)

end

/-- Every node of the tree of a script stands where its place says, and every argument is
quoted as it stands in the script. -/
theorem source_spans_faithful
    {registry : Registry F} {script : Bytes} {root : Expr F}
    (hparse : parseScript registry script = .ok (some root)) :
    ∀ node ∈ root.nodes, Faithful registry script node ∧
      ∀ before arg after, node.argv = before ++ arg :: after →
        Quoted registry script before arg after := by
  intro node hnode
  refine ⟨nodes_faithful hparse node hnode, ?_⟩
  intro before arg after hargv
  have harg : arg ∈ node.argv := by
    rw [hargv]
    exact List.mem_append_right _ List.mem_cons_self
  exact (nodes_faithful hparse arg (child_mem_nodes root hnode harg)).quoted before after

/-- In `assert(!(a));` the place of the literal is that of the parentheses around it. -/
theorem source_spans_faithful_parentheses :
    Faithful updaterRegistry (ascii "assert(!(a));")
        (.node (.core .literal) (ascii "a") [] 8 11) ∧
      Quoted updaterRegistry (ascii "assert(!(a));") []
        (.node (.core .logicalNot) operatorName [.node (.core .literal) (ascii "a") [] 8 11] 7 11)
        [] := by
  have hparse : parseScript updaterRegistry (ascii "assert(!(a));") = .ok (some
      (.node (.core .assert) (ascii "assert") [.node (.core .logicalNot) operatorName
        [.node (.core .literal) (ascii "a") [] 8 11] 7 11] 0 12)) := rfl
  have hfaithful := source_spans_faithful hparse
  refine ⟨(hfaithful _ ?_).1,
    (hfaithful (.node (.core .assert) (ascii "assert") [_] 0 12) ?_).2 [] _ [] rfl⟩
  · simp [Expr.nodes, Expr.nodesAll]
  · simp [Expr.nodes, Expr.nodesAll]

end Faithful

end OpenRecovery.Edify
