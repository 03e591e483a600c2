import OpenRecovery.Effects
import Mathlib

/-!
# Traces of a program

A trace lists the requests of a run in their order, each with the reply it got.
Any reply is allowed, so that what holds of all traces of a program holds on any
system.
-/

namespace OpenRecovery.Effects

/-- A request and its reply. -/
abbrev Event (Op : Type) (Reply : Op → Type) := Σ op : Op, Reply op

namespace Prog

variable {Op : Type} {Reply : Op → Type} {α β : Type}

/-- A run of the program that makes these requests and returns this value. -/
inductive Traces : Prog Op Reply α → List (Event Op Reply) → α → Prop
  | returned (value : α) : Traces (.pure value) [] value
  | asked {op : Op} {next : Reply op → Prog Op Reply α} {events : List (Event Op Reply)}
      {value : α} (reply : Reply op) (hrest : Traces (next reply) events value) :
      Traces (.request op next) (⟨op, reply⟩ :: events) value

@[simp] theorem traces_pure {result value : α} {events : List (Event Op Reply)} :
    (Prog.pure result : Prog Op Reply α).Traces events value ↔ events = [] ∧ value = result := by
  constructor
  · intro htrace
    cases htrace with
    | returned => exact ⟨rfl, rfl⟩
  · rintro ⟨rfl, rfl⟩
    exact .returned _

@[simp] theorem traces_request
    {op : Op} {next : Reply op → Prog Op Reply α} {events : List (Event Op Reply)} {value : α} :
    (Prog.request op next).Traces events value ↔
      ∃ reply rest, events = ⟨op, reply⟩ :: rest ∧ (next reply).Traces rest value := by
  constructor
  · intro htrace
    cases htrace with
    | asked reply hrest => exact ⟨reply, _, rfl, hrest⟩
  · rintro ⟨reply, rest, rfl, hrest⟩
    exact .asked reply hrest

theorem traces_bind
    {program : Prog Op Reply α} {rest : α → Prog Op Reply β} {events : List (Event Op Reply)}
    {value : β} :
    (program >>= rest).Traces events value ↔
      ∃ first middle second, events = first ++ second ∧ program.Traces first middle ∧
        (rest middle).Traces second value := by
  induction program generalizing events with
  | pure result =>
      rw [pure_bind_eq]
      constructor
      · intro htrace
        exact ⟨[], result, events, rfl, .returned _, htrace⟩
      · rintro ⟨first, middle, second, rfl, hfirst, hsecond⟩
        obtain ⟨rfl, rfl⟩ := (traces_pure).mp hfirst
        exact hsecond
  | request op next ih =>
      rw [request_bind_eq, traces_request]
      constructor
      · rintro ⟨reply, events', rfl, htrace⟩
        obtain ⟨first, middle, second, rfl, hfirst, hsecond⟩ := (ih reply).mp htrace
        exact ⟨⟨op, reply⟩ :: first, middle, second, rfl, .asked reply hfirst, hsecond⟩
      · rintro ⟨first, middle, second, rfl, hfirst, hsecond⟩
        obtain ⟨reply, rest', rfl, hrest⟩ := (traces_request).mp hfirst
        exact ⟨reply, rest' ++ second, rfl, (ih reply).mpr ⟨rest', middle, second, rfl, hrest,
          hsecond⟩⟩

/-- A program that may fail ends with its first part, or goes on with its value. -/
theorem traces_except_bind
    {ε : Type} {program : ExceptT ε (Prog Op Reply) α} {rest : α → ExceptT ε (Prog Op Reply) β}
    {events : List (Event Op Reply)} {value : Except ε β} :
    (program >>= rest).run.Traces events value ↔
      (∃ error, program.run.Traces events (.error error) ∧ value = .error error) ∨
        ∃ first middle second, events = first ++ second ∧
          program.run.Traces first (.ok middle) ∧ (rest middle).run.Traces second value := by
  rw [ExceptT.run_bind, traces_bind]
  constructor
  · rintro ⟨first, middle, second, rfl, hfirst, hsecond⟩
    cases middle with
    | error error =>
        obtain ⟨rfl, rfl⟩ := (traces_pure).mp hsecond
        rw [List.append_nil]
        exact .inl ⟨error, hfirst, rfl⟩
    | ok middle => exact .inr ⟨first, middle, second, rfl, hfirst, hsecond⟩
  · rintro (⟨error, hfirst, rfl⟩ | ⟨first, middle, second, rfl, hfirst, hsecond⟩)
    · exact ⟨events, .error error, [], (List.append_nil _).symm, hfirst, (traces_pure).mpr ⟨rfl, rfl⟩⟩
    · exact ⟨first, .ok middle, second, rfl, hfirst, hsecond⟩

theorem Returns.of_traces
    {good : α → Prop} {program : Prog Op Reply α} {events : List (Event Op Reply)} {value : α}
    (hreturns : program.Returns good) (htrace : program.Traces events value) : good value := by
  induction htrace with
  | returned value => exact hreturns
  | asked reply hrest ih => exact ih (hreturns reply)

theorem Uses.of_traces
    {allowed : Op → Prop} {program : Prog Op Reply α} {events : List (Event Op Reply)} {value : α}
    (huses : program.Uses allowed) (htrace : program.Traces events value) :
    ∀ event ∈ events, allowed event.1 := by
  induction htrace with
  | returned value => nofun
  | asked reply hrest ih =>
      intro event hevent
      rcases List.mem_cons.mp hevent with rfl | hevent
      · exact huses.1
      · exact ih (huses.2 reply) event hevent

/-- A program that is answered by programs makes the requests of these. -/
theorem uses_interpret
    {Op' : Type} {Reply' : Op' → Type} {ε : Type} {allowed : Op' → Prop}
    {answer : (op : Op) → ExceptT ε (Prog Op' Reply') (Reply op)}
    (hanswer : ∀ op, Uses allowed (answer op).run) (program : Prog Op Reply (Except ε α)) :
    Uses allowed (program.interpret answer : ExceptT ε (Prog Op' Reply') α).run := by
  induction program with
  | pure result =>
      cases result with
      | error error => trivial
      | ok value => trivial
  | request op next ih => exact uses_run_bind (hanswer op) ih

/-- A trace determines the value. -/
theorem Traces.unique
    {program : Prog Op Reply α} {events : List (Event Op Reply)} {value value' : α}
    (htrace : program.Traces events value) (htrace' : program.Traces events value') :
    value = value' := by
  induction htrace with
  | returned value => exact ((traces_pure).mp htrace').2.symm
  | asked reply hrest ih =>
      obtain ⟨_, _, hevents, hrest'⟩ := (traces_request).mp htrace'
      cases hevents
      exact ih hrest'

/-- The run in which every request gets a fixed reply. -/
def answers (reply : (op : Op) → Reply op) : Prog Op Reply α → List (Event Op Reply) × α
  | .pure value => ([], value)
  | .request op next =>
      let rest := (next (reply op)).answers reply
      (⟨op, reply op⟩ :: rest.1, rest.2)

theorem traces_answers (reply : (op : Op) → Reply op) (program : Prog Op Reply α) :
    program.Traces (program.answers reply).1 (program.answers reply).2 := by
  induction program with
  | pure value => exact .returned value
  | request op next ih => exact .asked _ (ih (reply op))

theorem reply_of_mem_answers {reply : (op : Op) → Reply op} {program : Prog Op Reply α}
    {op : Op} {answer : Reply op} (hmem : ⟨op, answer⟩ ∈ (program.answers reply).1) :
    answer = reply op := by
  induction program with
  | pure value => cases hmem
  | request op' next ih =>
      rcases List.mem_cons.mp hmem with heq | hrest
      · cases heq
        rfl
      · exact ih _ hrest

end Prog

end OpenRecovery.Effects
