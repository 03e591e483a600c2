import Mathlib

/-!
# Runs of a step that can fail

A run performs a list of actions one after the other and stops at the first failure.  An
invariant or a relation between two runs is shown for one action and then holds for whole
runs; what an action needs is asked of the states the run really reaches.
-/

namespace OpenRecovery

def failureOf {Value Failure : Type} : Except Failure Value → Option Failure
  | .ok _ => none
  | .error failure => some failure

/-- A result comes from a result of the first part. -/
theorem bind_eq_ok {Value Other Failure : Type} {first : Except Failure Value}
    {rest : Value → Except Failure Other} {result : Other} :
    first >>= rest = .ok result ↔ ∃ value, first = .ok value ∧ rest value = .ok result := by
  cases first with
  | error failure => exact ⟨nofun, fun ⟨_, hvalue, _⟩ => nomatch hvalue⟩
  | ok value => exact ⟨fun hrest => ⟨value, rfl, hrest⟩, fun ⟨_, rfl, hrest⟩ => hrest⟩

/-- What follows a first part that has ended goes on with its result. -/
theorem bind_eq_of_ok {Value Other Failure : Type} {first : Except Failure Value}
    {rest : Value → Except Failure Other} {value : Value} (hfirst : first = .ok value) :
    first >>= rest = rest value := by
  subst hfirst
  rfl

theorem map_eq_ok {Value Other Failure : Type} {first : Except Failure Value}
    {change : Value → Other} {result : Other} :
    first.map change = .ok result ↔ ∃ value, first = .ok value ∧ change value = result := by
  cases first with
  | error failure => exact ⟨nofun, fun ⟨_, hvalue, _⟩ => nomatch hvalue⟩
  | ok value => exact ⟨fun hrest => ⟨value, rfl, Except.ok.inj hrest⟩, fun ⟨_, rfl, hrest⟩ =>
      congrArg Except.ok hrest⟩

theorem bind_eq_error {Value Other Failure : Type} {first : Except Failure Value}
    {rest : Value → Except Failure Other} {failure : Failure} :
    first >>= rest = .error failure ↔
      first = .error failure ∨ ∃ value, first = .ok value ∧ rest value = .error failure := by
  cases first with
  | error other =>
      constructor
      · exact fun herror => .inl (congrArg Except.error (Except.error.inj herror))
      · rintro (hfirst | ⟨_, hvalue, -⟩)
        · exact congrArg Except.error (Except.error.inj hfirst)
        · cases hvalue
  | ok value =>
      constructor
      · exact fun hrest => .inr ⟨value, rfl, hrest⟩
      · rintro (hfirst | ⟨_, hvalue, hrest⟩)
        · cases hfirst
        · cases hvalue
          exact hrest

theorem map_eq_error {Value Other Failure : Type} {first : Except Failure Value}
    {change : Value → Other} {failure : Failure} :
    first.map change = .error failure ↔ first = .error failure := by
  cases first with
  | error other => exact ⟨fun h => congrArg _ (Except.error.inj h), fun h =>
      congrArg _ (Except.error.inj h)⟩
  | ok value => exact ⟨nofun, nofun⟩

/-- A loop over a range of which the results are known. -/
theorem mapM_range_eq_ok {Value Failure : Type} {each : Nat → Except Failure Value}
    {values : List Value}
    (heach : ∀ k (hk : k < values.length), each k = .ok values[k]) :
    (List.range values.length).mapM each = .ok values := by
  induction values generalizing each with
  | nil => rfl
  | cons value values ih =>
      have hfirst : each 0 = .ok value := heach 0 (Nat.zero_lt_succ _)
      have hrest := @ih (each ∘ Nat.succ) fun k hk => heach (k + 1) (Nat.succ_lt_succ hk)
      rw [List.length_cons, List.range_succ_eq_map, List.mapM_cons, List.mapM_map, hfirst, hrest]
      rfl

section Runs

variable {State Action Failure : Type} {step : State → Action → Except Failure State}

/-- The actions a run performs, each with the state before it. -/
def performed (step : State → Action → Except Failure State) :
    State → List Action → List (State × Action)
  | _, [] => []
  | state, action :: actions =>
      (state, action) ::
        match step state action with
        | .ok next => performed step next actions
        | .error _ => []

theorem foldlM_ok_cons
    {state next : State} {action : Action} (hstep : step state action = .ok next)
    (actions : List Action) :
    (action :: actions).foldlM step state = actions.foldlM step next := by
  rw [List.foldlM_cons, hstep]
  rfl

theorem foldlM_error_cons
    {state : State} {action : Action} {failure : Failure}
    (hstep : step state action = .error failure) (actions : List Action) :
    (action :: actions).foldlM step state = .error failure := by
  rw [List.foldlM_cons, hstep]
  rfl

theorem performed_ok
    {state next : State} {action : Action} (hstep : step state action = .ok next)
    (actions : List Action) :
    performed step state (action :: actions) =
      (state, action) :: performed step next actions := by
  rw [performed, hstep]

theorem mem_of_mem_performed
    {state : State} {actions : List Action} {taken : State × Action}
    (htaken : taken ∈ performed step state actions) : taken.2 ∈ actions := by
  induction actions generalizing state with
  | nil => cases htaken
  | cons action actions ih =>
      rw [performed, List.mem_cons] at htaken
      rcases htaken with rfl | htaken
      · exact List.mem_cons_self
      · split at htaken
        · exact List.mem_cons_of_mem _ (ih htaken)
        · cases htaken

/-- An invariant that every allowed action keeps holds after a run of allowed actions, and
the run does not fail. -/
theorem run_invariant
    {Inv : State → Prop} {Allowed : State → Action → Prop}
    (hkeep : ∀ state action, Inv state → Allowed state action →
      ∃ next, step state action = .ok next ∧ Inv next)
    {state : State} (hstate : Inv state) {actions : List Action}
    (hallowed : ∀ taken ∈ performed step state actions, Allowed taken.1 taken.2) :
    ∃ last, actions.foldlM step state = .ok last ∧ Inv last := by
  induction actions generalizing state with
  | nil => exact ⟨state, rfl, hstate⟩
  | cons action actions ih =>
      have hfirst : Allowed state action := hallowed (state, action) (List.mem_cons_self ..)
      obtain ⟨next, hnext, hinv⟩ := hkeep state action hstate hfirst
      rw [performed_ok hnext, List.forall_mem_cons] at hallowed
      obtain ⟨last, hlast, hend⟩ := ih hinv hallowed.2
      exact ⟨last, by rw [foldlM_ok_cons hnext, hlast], hend⟩

/-- An invariant that every allowed action keeps holds in all states of a run, also if the run
ends early. -/
theorem run_keeps
    {Inv : State → Prop} {Allowed : State → Action → Prop}
    (hkeep : ∀ state action next, Inv state → Allowed state action →
      step state action = .ok next → Inv next)
    {state : State} (hstate : Inv state) {actions : List Action}
    (hallowed : ∀ taken ∈ performed step state actions, Allowed taken.1 taken.2) :
    (∀ taken ∈ performed step state actions, Inv taken.1) ∧
      ∀ last, actions.foldlM step state = .ok last → Inv last := by
  induction actions generalizing state with
  | nil =>
      refine ⟨List.forall_mem_nil _, fun last hlast => ?_⟩
      cases hlast
      exact hstate
  | cons action actions ih =>
      have hfirst : Allowed state action := hallowed (state, action) (List.mem_cons_self ..)
      cases hnext : step state action with
      | error failure =>
          rw [performed, hnext]
          refine ⟨List.forall_mem_singleton.mpr hstate, fun last hlast => ?_⟩
          rw [foldlM_error_cons hnext] at hlast
          cases hlast
      | ok next =>
          rw [performed_ok hnext, List.forall_mem_cons] at hallowed
          obtain ⟨hall, hend⟩ := ih (hkeep state action next hstate hfirst hnext) hallowed.2
          rw [performed_ok hnext, List.forall_mem_cons, foldlM_ok_cons hnext]
          exact ⟨⟨hstate, hall⟩, hend⟩

/-- A run that fails does so at one of its actions. -/
theorem run_failure
    {state : State} {actions : List Action} {failure : Failure}
    (hfailure : actions.foldlM step state = .error failure) :
    ∃ taken ∈ performed step state actions, step taken.1 taken.2 = .error failure := by
  induction actions generalizing state with
  | nil => cases hfailure
  | cons action actions ih =>
      rw [List.foldlM_cons] at hfailure
      rcases (bind_eq_error).mp hfailure with hfirst | ⟨next, hnext, hrest⟩
      · exact ⟨(state, action), List.mem_cons_self, hfirst⟩
      · obtain ⟨taken, htaken, hstep⟩ := ih hrest
        rw [performed_ok hnext]
        exact ⟨taken, List.mem_cons_of_mem _ htaken, hstep⟩

/-- What two runs do with the same actions, if a relation between their states is kept. -/
inductive SameOutcome (Related : State → State → Prop) :
    Except Failure State → Except Failure State → Prop
  | ok {first second : State} (hrelated : Related first second) :
      SameOutcome Related (.ok first) (.ok second)
  | error (failure : Failure) : SameOutcome Related (.error failure) (.error failure)

theorem SameOutcome.mono
    {Related Weaker : State → State → Prop} {first second : Except Failure State}
    (hsame : SameOutcome Related first second)
    (hweaker : ∀ left right, Related left right → Weaker left right) :
    SameOutcome Weaker first second := by
  cases hsame with
  | ok hrelated => exact .ok (hweaker _ _ hrelated)
  | error failure => exact .error failure

/-- A relation that may depend on the actions still to come is carried through a run. -/
theorem run_relation
    {Related : List Action → State → State → Prop}
    (hkeep : ∀ action actions first second, Related (action :: actions) first second →
      SameOutcome (Related actions) (step first action) (step second action))
    {actions : List Action} {first second : State} (hrelated : Related actions first second) :
    SameOutcome (Related []) (actions.foldlM step first) (actions.foldlM step second) := by
  induction actions generalizing first second with
  | nil => exact .ok hrelated
  | cons action actions ih =>
      have hstep := hkeep action actions first second hrelated
      cases hfirst : step first action with
      | error failure =>
          rw [hfirst] at hstep
          cases hsecond : step second action with
          | error other =>
              rw [hsecond] at hstep
              cases hstep
              rw [foldlM_error_cons hfirst, foldlM_error_cons hsecond]
              exact .error failure
          | ok next =>
              rw [hsecond] at hstep
              cases hstep
      | ok next =>
          rw [hfirst] at hstep
          cases hsecond : step second action with
          | error other =>
              rw [hsecond] at hstep
              cases hstep
          | ok other =>
              rw [hsecond] at hstep
              cases hstep with
              | ok hnext =>
                  rw [foldlM_ok_cons hfirst, foldlM_ok_cons hsecond]
                  exact ih hnext

end Runs

end OpenRecovery
