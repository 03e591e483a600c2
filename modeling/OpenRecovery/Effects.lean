import Mathlib

/-!
# Programs that issue requests, and what a power cut leaves behind

A program is a finite tree: it either returns a value or issues one request
and continues with the reply.  The same tree is read in three ways.  `run`
answers every request with a deterministic handler.  `Reaches` lets a machine
choose among several replies and lets the program be killed before, between
or inside its requests.  `Safe` is the corresponding weakest precondition,
with one postcondition for a normal return and one for a kill.

Nothing in this file depends on a particular set of requests.
-/

namespace OpenRecovery.Effects

/-- A program over requests `Op`, where request `op` is answered by a value
of type `Reply op`. -/
inductive Prog (Op : Type) (Reply : Op → Type) (α : Type) where
  | pure (value : α)
  | request (op : Op) (next : Reply op → Prog Op Reply α)

namespace Prog

variable {Op Op' : Type} {Reply : Op → Type} {Reply' : Op' → Type}
variable {α β γ σ : Type}

def bind : Prog Op Reply α → (α → Prog Op Reply β) → Prog Op Reply β
  | .pure value, rest => rest value
  | .request op next, rest => .request op fun reply => (next reply).bind rest

instance : Monad (Prog Op Reply) where
  pure := .pure
  bind := .bind

/-- The program that issues one request and returns its reply. -/
def ask (op : Op) : Prog Op Reply (Reply op) :=
  .request op .pure

@[simp] theorem pure_eq (value : α) :
    (Pure.pure value : Prog Op Reply α) = .pure value := rfl

@[simp] theorem pure_bind_eq
    (value : α) (rest : α → Prog Op Reply β) :
    (Prog.pure value >>= rest) = rest value := rfl

@[simp] theorem request_bind_eq
    (op : Op) (next : Reply op → Prog Op Reply α)
    (rest : α → Prog Op Reply β) :
    (Prog.request op next >>= rest) =
      .request op fun reply => next reply >>= rest := rfl

@[simp] theorem ask_bind_eq
    (op : Op) (rest : Reply op → Prog Op Reply β) :
    (ask op >>= rest) = .request op rest := rfl

theorem bind_pure_eq (program : Prog Op Reply α) : (program >>= .pure) = program := by
  induction program with
  | pure value => rfl
  | request op next ih => exact congrArg (request op) (funext ih)

theorem bind_assoc_eq
    (program : Prog Op Reply α) (first : α → Prog Op Reply β) (second : β → Prog Op Reply γ) :
    (program >>= first >>= second) = program >>= fun value => first value >>= second := by
  induction program with
  | pure value => rfl
  | request op next ih => exact congrArg (request op) (funext ih)

instance : LawfulMonad (Prog Op Reply) :=
  LawfulMonad.mk' _ bind_pure_eq (fun _ _ => rfl) bind_assoc_eq

/-! ## Deterministic execution -/

/-- Answer every request with `handle`. -/
def run (handle : (op : Op) → σ → Reply op × σ) :
    Prog Op Reply α → σ → α × σ
  | .pure value, state => (value, state)
  | .request op next, state =>
      let answer := handle op state
      (next answer.1).run handle answer.2

variable {handle : (op : Op) → σ → Reply op × σ}

@[simp] theorem run_pure (value : α) (state : σ) :
    (Prog.pure value : Prog Op Reply α).run handle state = (value, state) := rfl

@[simp] theorem run_request
    (op : Op) (next : Reply op → Prog Op Reply α) (state : σ) :
    (Prog.request op next).run handle state =
      (next (handle op state).1).run handle (handle op state).2 := rfl

@[simp] theorem run_bind
    (program : Prog Op Reply α) (rest : α → Prog Op Reply β) (state : σ) :
    (program >>= rest).run handle state =
      (rest (program.run handle state).1).run handle
        (program.run handle state).2 := by
  induction program generalizing state with
  | pure value => rfl
  | request op next ih =>
      simp only [request_bind_eq, run_request]
      exact ih _ _

/-- Every request of the run is issued in a state that `guard` allows it in. -/
def Guarded (handle : (op : Op) → σ → Reply op × σ) (guard : Op → σ → Prop) :
    Prog Op Reply α → σ → Prop
  | .pure _, _ => True
  | .request op next, state =>
      guard op state ∧
        Guarded handle guard (next (handle op state).1) (handle op state).2

theorem guarded_bind
    {guard : Op → σ → Prop} (program : Prog Op Reply α) (rest : α → Prog Op Reply β) (state : σ) :
    Guarded handle guard (program >>= rest) state ↔
      Guarded handle guard program state ∧
        Guarded handle guard (rest (program.run handle state).1)
          (program.run handle state).2 := by
  induction program generalizing state with
  | pure value => exact ⟨fun h => ⟨trivial, h⟩, fun h => h.2⟩
  | request op next ih =>
      simp only [request_bind_eq, Guarded, run_request, ih, and_assoc]

/-! ## Execution on a machine that may fail or lose power -/

end Prog

/-- A machine answers requests in one of several ways.  `torn op before after`
says which states a power cut in the middle of the request can leave. -/
structure Machine (Op : Type) (Reply : Op → Type) (σ : Type) where
  step : (op : Op) → σ → Reply op → σ → Prop
  torn : Op → σ → σ → Prop

/-- The machine that always answers as `handle` does. -/
def Machine.ofHandler
    {Op : Type} {Reply : Op → Type} {σ : Type}
    (handle : (op : Op) → σ → Reply op × σ) (torn : Op → σ → σ → Prop) :
    Machine Op Reply σ where
  step op before reply after := (reply, after) = handle op before
  torn := torn

/-- Such a machine with requests that a power cut never tears. -/
def Machine.atomic
    {Op : Type} {Reply : Op → Type} {σ : Type}
    (handle : (op : Op) → σ → Reply op × σ) : Machine Op Reply σ :=
  .ofHandler handle fun _ _ _ => False

namespace Prog

variable {Op Op' : Type} {Reply : Op → Type} {Reply' : Op' → Type}
variable {α β γ σ : Type}

/-- `machine` can bring `program` from `before` to `after`; the outcome is the
returned value, or `none` if the program was killed on the way. -/
inductive Reaches (machine : Machine Op Reply σ) :
    Prog Op Reply α → σ → Option α → σ → Prop where
  | returned (value : α) (state : σ) :
      Reaches machine (.pure value) state (some value) state
  | killed (program : Prog Op Reply α) (state : σ) :
      Reaches machine program state none state
  | torn {op : Op} {next : Reply op → Prog Op Reply α} {before after : σ}
      (htorn : machine.torn op before after) :
      Reaches machine (.request op next) before none after
  | step {op : Op} {next : Reply op → Prog Op Reply α}
      {before middle after : σ} {reply : Reply op} {outcome : Option α}
      (hstep : machine.step op before reply middle)
      (hrest : Reaches machine (next reply) middle outcome after) :
      Reaches machine (.request op next) before outcome after

/-- Every normal return satisfies `post` and every kill leaves a state in
`crash`. -/
def Safe (machine : Machine Op Reply σ) :
    Prog Op Reply α → (α → σ → Prop) → (σ → Prop) → σ → Prop
  | .pure value, post, crash, state => post value state ∧ crash state
  | .request op next, post, crash, state =>
      crash state ∧
        (∀ after, machine.torn op state after → crash after) ∧
        ∀ reply after, machine.step op state reply after →
          (next reply).Safe machine post crash after

variable {machine : Machine Op Reply σ}
variable {post post' : α → σ → Prop} {crash crash' : σ → Prop}

@[simp] theorem safe_pure (value : α) (state : σ) :
    (Prog.pure value : Prog Op Reply α).Safe machine post crash state ↔
      post value state ∧ crash state := Iff.rfl

@[simp] theorem safe_request
    (op : Op) (next : Reply op → Prog Op Reply α) (state : σ) :
    (Prog.request op next).Safe machine post crash state ↔
      crash state ∧
        (∀ after, machine.torn op state after → crash after) ∧
        ∀ reply after, machine.step op state reply after →
          (next reply).Safe machine post crash after := Iff.rfl

@[simp] theorem safe_request_atomic
    {handle : (op : Op) → σ → Reply op × σ}
    (op : Op) (next : Reply op → Prog Op Reply α) (state : σ) :
    (Prog.request op next).Safe (Machine.atomic handle) post crash state ↔
      crash state ∧
        (next (handle op state).1).Safe (Machine.atomic handle) post crash
          (handle op state).2 := by
  constructor
  · rintro ⟨hnow, -, hnext⟩
    exact ⟨hnow, hnext _ _ rfl⟩
  · rintro ⟨hnow, hnext⟩
    refine ⟨hnow, fun after htorn => htorn.elim, ?_⟩
    intro reply after hstep
    obtain ⟨rfl, rfl⟩ := Prod.mk.inj hstep
    exact hnext

theorem Safe.crash_now
    {program : Prog Op Reply α} {state : σ}
    (hsafe : program.Safe machine post crash state) : crash state := by
  cases program with
  | pure value => exact hsafe.2
  | request op next => exact hsafe.1

theorem Safe.mono
    {program : Prog Op Reply α} {state : σ}
    (hsafe : program.Safe machine post crash state)
    (hpost : ∀ value after, post value after → post' value after)
    (hcrash : ∀ after, crash after → crash' after) :
    program.Safe machine post' crash' state := by
  induction program generalizing state with
  | pure value => exact ⟨hpost _ _ hsafe.1, hcrash _ hsafe.2⟩
  | request op next ih =>
      refine ⟨hcrash _ hsafe.1, fun after htorn => hcrash _ (hsafe.2.1 _ htorn), ?_⟩
      intro reply after hstep
      exact ih reply (hsafe.2.2 reply after hstep)

/-- A normal return is also a moment at which the program can be killed. -/
theorem Safe.crash_post
    {program : Prog Op Reply α} {state : σ}
    (hsafe : program.Safe machine post crash state) :
    program.Safe machine (fun value after => post value after ∧ crash after) crash state := by
  induction program generalizing state with
  | pure value => exact ⟨hsafe, hsafe.2⟩
  | request op next ih =>
      refine ⟨hsafe.1, hsafe.2.1, ?_⟩
      intro reply after hstep
      exact ih reply (hsafe.2.2 reply after hstep)

theorem Safe.and
    {program : Prog Op Reply α} {state : σ}
    (hfirst : program.Safe machine post crash state)
    (hsecond : program.Safe machine post' crash' state) :
    program.Safe machine (fun value after => post value after ∧ post' value after)
      (fun after => crash after ∧ crash' after) state := by
  induction program generalizing state with
  | pure value => exact ⟨⟨hfirst.1, hsecond.1⟩, hfirst.2, hsecond.2⟩
  | request op next ih =>
      refine ⟨⟨hfirst.1, hsecond.1⟩, fun after htorn => ⟨hfirst.2.1 _ htorn, hsecond.2.1 _ htorn⟩, ?_⟩
      intro reply after hstep
      exact ih reply (hfirst.2.2 reply after hstep) (hsecond.2.2 reply after hstep)

theorem safe_bind
    (program : Prog Op Reply α) (rest : α → Prog Op Reply β)
    (post : β → σ → Prop) (state : σ) :
    (program >>= rest).Safe machine post crash state ↔
      program.Safe machine
        (fun value after => (rest value).Safe machine post crash after)
        crash state := by
  induction program generalizing state with
  | pure value =>
      simp only [pure_bind_eq, safe_pure]
      exact ⟨fun h => ⟨h, h.crash_now⟩, fun h => h.1⟩
  | request op next ih =>
      simp only [request_bind_eq, safe_request]
      refine and_congr Iff.rfl (and_congr Iff.rfl ?_)
      refine forall_congr' fun reply => forall_congr' fun after => ?_
      exact imp_congr Iff.rfl (ih reply after)

/-- `Safe` says exactly what can be observed of the runs of a program. -/
theorem safe_iff_reaches (program : Prog Op Reply α) (state : σ) :
    program.Safe machine post crash state ↔
      (∀ value after,
        program.Reaches machine state (some value) after → post value after) ∧
      ∀ after, program.Reaches machine state none after → crash after := by
  induction program generalizing state with
  | pure value =>
      constructor
      · rintro ⟨hpost, hcrash⟩
        refine ⟨?_, ?_⟩
        · intro value after hreach
          cases hreach
          exact hpost
        · intro after hreach
          cases hreach
          exact hcrash
      · rintro ⟨hpost, hcrash⟩
        exact ⟨hpost _ _ (.returned value state), hcrash _ (.killed _ state)⟩
  | request op next ih =>
      constructor
      · rintro ⟨hnow, htornAll, hstepAll⟩
        refine ⟨?_, ?_⟩
        · intro value after hreach
          cases hreach with
          | step hstep hrest =>
              exact ((ih _ _).mp (hstepAll _ _ hstep)).1 _ _ hrest
        · intro after hreach
          cases hreach with
          | killed => exact hnow
          | torn htorn => exact htornAll _ htorn
          | step hstep hrest =>
              exact ((ih _ _).mp (hstepAll _ _ hstep)).2 _ hrest
      · rintro ⟨hpost, hcrash⟩
        refine ⟨hcrash _ (.killed _ state), fun after htorn => hcrash _ (.torn htorn), ?_⟩
        intro reply after hstep
        refine (ih reply after).mpr ⟨?_, ?_⟩
        · intro value final hrest
          exact hpost _ _ (.step hstep hrest)
        · intro final hrest
          exact hcrash _ (.step hstep hrest)

theorem Safe.of_reaches
    {program : Prog Op Reply α} {before after : σ} {outcome : Option α}
    (hsafe : program.Safe machine post crash before)
    (hreach : program.Reaches machine before outcome after) :
    match outcome with
    | some value => post value after
    | none => crash after := by
  cases outcome with
  | some value => exact ((safe_iff_reaches _ _).mp hsafe).1 _ _ hreach
  | none => exact ((safe_iff_reaches _ _).mp hsafe).2 _ hreach

/-- What every step keeps, a run keeps. -/
theorem Reaches.invariant
    {inv : σ → Prop} {program : Prog Op Reply α} {outcome : Option α} {before after : σ}
    (hreach : program.Reaches machine before outcome after)
    (hstep : ∀ op before reply after, machine.step op before reply after → inv before → inv after)
    (htorn : ∀ op before after, machine.torn op before after → inv before → inv after)
    (hinv : inv before) : inv after := by
  induction hreach with
  | returned => exact hinv
  | killed => exact hinv
  | torn h => exact htorn _ _ _ h hinv
  | step h hrest ih => exact ih (hstep _ _ _ _ h hinv)

/-- A handler gives one of the runs of its own machine. -/
theorem reaches_run
    {handle : (op : Op) → σ → Reply op × σ} {torn : Op → σ → σ → Prop}
    (program : Prog Op Reply α) (state : σ) :
    program.Reaches (Machine.ofHandler handle torn) state
      (some (program.run handle state).1) (program.run handle state).2 := by
  induction program generalizing state with
  | pure value => exact .returned value state
  | request op next ih => exact .step rfl (ih _ _)

theorem Safe.run_post
    {handle : (op : Op) → σ → Reply op × σ} {torn : Op → σ → σ → Prop}
    {program : Prog Op Reply α} {state : σ}
    (hsafe : program.Safe (Machine.ofHandler handle torn) post crash state) :
    post (program.run handle state).1 (program.run handle state).2 :=
  hsafe.of_reaches (reaches_run program state)

/-- On a machine given by a handler, a run decides everything that can be said
about a normal return. -/
theorem safe_of_run
    {handle : (op : Op) → σ → Reply op × σ}
    {program : Prog Op Reply α} {state : σ}
    (hpost : post (program.run handle state).1 (program.run handle state).2) :
    program.Safe (Machine.atomic handle) post (fun _ => True) state := by
  induction program generalizing state with
  | pure value => exact ⟨hpost, trivial⟩
  | request op next ih =>
      rw [safe_request_atomic]
      exact ⟨trivial, ih _ hpost⟩

/-! ## Restarting after a kill -/

/-- `program` was started and killed any number of times in a row. -/
inductive Restarts (machine : Machine Op Reply σ) (program : Prog Op Reply α) :
    σ → σ → Prop where
  | refl (state : σ) : Restarts machine program state state
  | kill {before middle after : σ}
      (hreach : program.Reaches machine before none middle)
      (hrest : Restarts machine program middle after) :
      Restarts machine program before after

/-- A property that every killed run preserves survives any number of
kills. -/
theorem Restarts.invariant
    {program : Prog Op Reply α} {inv : σ → Prop} {before after : σ}
    (hsafe : ∀ state, inv state →
      program.Safe machine (fun _ _ => True) inv state)
    (hinv : inv before)
    (hrestarts : program.Restarts machine before after) : inv after := by
  induction hrestarts with
  | refl => exact hinv
  | kill hreach _ ih =>
      exact ih ((hsafe _ hinv).of_reaches hreach)

/-! ## Programs inside a larger system -/

/-- Reissue every request of a program through `lift`. -/
def translate (lift : (op : Op) → Prog Op' Reply' (Reply op)) :
    Prog Op Reply α → Prog Op' Reply' α
  | .pure value => .pure value
  | .request op next => lift op >>= fun reply => (next reply).translate lift

variable {σ' : Type}

/-- A translated program is safe on a larger system whenever the original is
safe on the part of the state that its requests are passed to. -/
theorem Safe.translate
    {lift : (op : Op) → Prog Op' Reply' (Reply op)} {machine' : Machine Op' Reply' σ'}
    {embed : σ → σ'}
    (hlift : ∀ op part,
      (lift op).Safe machine'
        (fun reply whole => ∃ part', machine.step op part reply part' ∧
          whole = embed part')
        (fun whole => whole = embed part ∨
          ∃ part', (machine.torn op part part' ∨
            ∃ reply, machine.step op part reply part') ∧ whole = embed part')
        (embed part))
    {program : Prog Op Reply α} {part : σ}
    (hsafe : program.Safe machine post crash part) :
    (program.translate lift).Safe machine'
      (fun value whole => ∃ part', whole = embed part' ∧ post value part')
      (fun whole => ∃ part', whole = embed part' ∧ crash part')
      (embed part) := by
  induction program generalizing part with
  | pure value => exact ⟨⟨part, rfl, hsafe.1⟩, part, rfl, hsafe.2⟩
  | request op next ih =>
      rw [Prog.translate, safe_bind]
      refine (hlift op part).mono ?_ ?_
      · rintro reply whole ⟨part', hstep, rfl⟩
        exact ih reply (hsafe.2.2 reply part' hstep)
      · rintro whole (rfl | ⟨part', htorn | ⟨reply, hstep⟩, rfl⟩)
        · exact ⟨part, rfl, hsafe.1⟩
        · exact ⟨part', rfl, hsafe.2.1 part' htorn⟩
        · exact ⟨part', rfl, (hsafe.2.2 reply part' hstep).crash_now⟩

/-- Whatever the replies, the program returns a value in `good`. -/
def Returns (good : α → Prop) : Prog Op Reply α → Prop
  | .pure value => good value
  | .request _ next => ∀ reply, (next reply).Returns good

theorem Returns.bind
    {good : α → Prop} {good' : β → Prop} {program : Prog Op Reply α}
    {rest : α → Prog Op Reply β}
    (hfirst : program.Returns good) (hrest : ∀ value, good value → (rest value).Returns good') :
    (program >>= rest).Returns good' := by
  induction program with
  | pure value => exact hrest value hfirst
  | request op next ih => exact fun reply => ih reply (hfirst reply)

theorem Returns.mono
    {good good' : α → Prop} {program : Prog Op Reply α}
    (hreturns : program.Returns good) (hgood : ∀ value, good value → good' value) :
    program.Returns good' := by
  induction program with
  | pure value => exact hgood value hreturns
  | request op next ih => exact fun reply => ih reply (hreturns reply)

theorem returns_trivial (program : Prog Op Reply α) : program.Returns fun _ => True := by
  induction program with
  | pure value => trivial
  | request op next ih => exact ih

theorem Returns.run_value
    {handle : (op : Op) → σ → Reply op × σ} {good : α → Prop} {program : Prog Op Reply α}
    (hreturns : program.Returns good) (state : σ) : good (program.run handle state).1 := by
  induction program generalizing state with
  | pure value => exact hreturns
  | request op next ih => exact ih _ (hreturns _) _

theorem Returns.translate
    {lift : (op : Op) → Prog Op' Reply' (Reply op)} {good : α → Prop} {program : Prog Op Reply α}
    (hreturns : program.Returns good) : (program.translate lift).Returns good := by
  induction program with
  | pure value => exact hreturns
  | request op next ih =>
      exact (returns_trivial (lift op)).bind fun reply _ => ih reply (hreturns reply)

/-- Every request of the program satisfies `allowed`. -/
def Uses (allowed : Op → Prop) : Prog Op Reply α → Prop
  | .pure _ => True
  | .request op next => allowed op ∧ ∀ reply, (next reply).Uses allowed

theorem Uses.bind
    {allowed : Op → Prop} {program : Prog Op Reply α}
    {rest : α → Prog Op Reply β}
    (hfirst : program.Uses allowed) (hrest : ∀ value, (rest value).Uses allowed) :
    (program >>= rest).Uses allowed := by
  induction program with
  | pure value => exact hrest value
  | request op next ih => exact ⟨hfirst.1, fun reply => ih reply (hfirst.2 reply)⟩

theorem Uses.mono
    {allowed allowed' : Op → Prop} {program : Prog Op Reply α}
    (huses : program.Uses allowed) (hallowed : ∀ op, allowed op → allowed' op) :
    program.Uses allowed' := by
  induction program with
  | pure value => trivial
  | request op next ih => exact ⟨hallowed op huses.1, fun reply => ih reply (huses.2 reply)⟩

theorem Uses.translate
    {lift : (op : Op) → Prog Op' Reply' (Reply op)} {allowed : Op → Prop} {allowed' : Op' → Prop}
    {program : Prog Op Reply α} (huses : program.Uses allowed)
    (hlift : ∀ op, allowed op → (lift op).Uses allowed') :
    (program.translate lift).Uses allowed' := by
  induction program with
  | pure value => trivial
  | request op next ih =>
      exact (hlift op huses.1).bind fun reply => ih reply (huses.2 reply)

/-- A property kept by every allowed request is kept by every program that
issues only allowed requests. -/
theorem Uses.safe
    {allowed : Op → Prop} {inv : σ → Prop} {program : Prog Op Reply α} {state : σ}
    (huses : program.Uses allowed)
    (hstep : ∀ op before reply after, allowed op → inv before →
      machine.step op before reply after → inv after)
    (htorn : ∀ op before after, allowed op → inv before →
      machine.torn op before after → inv after)
    (hinv : inv state) :
    program.Safe machine (fun _ after => inv after) inv state := by
  induction program generalizing state with
  | pure value => exact ⟨hinv, hinv⟩
  | request op next ih =>
      refine ⟨hinv, fun after h => htorn op state after huses.1 hinv h, ?_⟩
      intro reply after h
      exact ih reply (huses.2 reply) (hstep op state reply after huses.1 hinv h)

theorem Uses.guarded
    {handle : (op : Op) → σ → Reply op × σ} {guard : Op → σ → Prop}
    {allowed : Op → Prop} {inv : σ → Prop} {program : Prog Op Reply α} {state : σ}
    (huses : program.Uses allowed)
    (hstep : ∀ op before, allowed op → inv before →
      guard op before ∧ inv (handle op before).2)
    (hinv : inv state) : program.Guarded handle guard state := by
  induction program generalizing state with
  | pure value => trivial
  | request op next ih =>
      obtain ⟨hguard, hinv'⟩ := hstep op state huses.1 hinv
      exact ⟨hguard, ih _ (huses.2 _) hinv'⟩

/-- On a machine given by a handler, such a program also returns what its
`run` returns. -/
theorem Uses.safe_run
    {handle : (op : Op) → σ → Reply op × σ} {torn : Op → σ → σ → Prop}
    {allowed : Op → Prop} {inv : σ → Prop} {program : Prog Op Reply α} {state : σ}
    (huses : program.Uses allowed)
    (hstep : ∀ op before, allowed op → inv before → inv (handle op before).2)
    (htorn : ∀ op before after, allowed op → inv before →
      torn op before after → inv after)
    (hinv : inv state) :
    program.Safe (Machine.ofHandler handle torn)
      (fun value after => (value, after) = program.run handle state ∧ inv after)
      inv state := by
  induction program generalizing state with
  | pure value => exact ⟨⟨rfl, hinv⟩, hinv⟩
  | request op next ih =>
      refine ⟨hinv, fun after h => htorn op state after huses.1 hinv h, ?_⟩
      intro reply after h
      obtain ⟨rfl, rfl⟩ := Prod.mk.inj h
      exact ih _ (huses.2 _) (hstep op state huses.1 hinv)

/-! ## Programs that can get stuck -/

variable {ε : Type}

/-- The program is safe, and nothing is asked of a run that ends in an error
except that it leaves a state in `crash`. -/
def SafeOk (machine : Machine Op Reply σ) (program : ExceptT ε (Prog Op Reply) α)
    (post : α → σ → Prop) (crash : σ → Prop) (state : σ) : Prop :=
  Safe machine program.run (fun result after => ∀ value, result = .ok value → post value after)
    crash state

theorem safeOk_pure (value : α) (state : σ) :
    SafeOk machine (Pure.pure value : ExceptT ε (Prog Op Reply) α) post crash state ↔
      post value state ∧ crash state := by
  refine and_congr ?_ Iff.rfl
  exact ⟨fun h => h value rfl, fun h _ hvalue => Except.ok.inj hvalue ▸ h⟩

theorem safeOk_throw (error : ε) (state : σ) :
    SafeOk machine (throw error : ExceptT ε (Prog Op Reply) α) post crash state ↔
      crash state := by
  refine ⟨fun h => h.2, fun h => ⟨?_, h⟩⟩
  intro value hvalue
  cases hvalue

theorem safeOk_bind
    {program : ExceptT ε (Prog Op Reply) α} {rest : α → ExceptT ε (Prog Op Reply) β}
    {post : β → σ → Prop} {state : σ} :
    SafeOk machine (program >>= rest) post crash state ↔
      SafeOk machine program (fun value after => SafeOk machine (rest value) post crash after)
        crash state := by
  rw [SafeOk, ExceptT.run_bind, safe_bind]
  constructor
  · intro hsafe
    refine hsafe.mono ?_ fun _ h => h
    rintro result after hafter value rfl
    exact hafter
  · intro hsafe
    refine hsafe.crash_post.mono ?_ fun _ h => h
    rintro result after ⟨hafter, hcrash⟩
    cases result with
    | ok value => exact hafter value rfl
    | error error => exact ⟨fun value hvalue => (nomatch hvalue), hcrash⟩

theorem safeOk_lift {program : Prog Op Reply α} {state : σ} :
    SafeOk machine (ExceptT.lift program : ExceptT ε (Prog Op Reply) α) post crash state ↔
      program.Safe machine post crash state := by
  rw [SafeOk, ExceptT.run_lift, map_eq_pure_bind, safe_bind]
  constructor
  · intro hsafe
    exact hsafe.mono (fun value after hafter => hafter.1 value rfl) fun _ h => h
  · intro hsafe
    refine hsafe.crash_post.mono ?_ fun _ h => h
    rintro value after ⟨hpost, hcrash⟩
    exact ⟨fun _ hvalue => Except.ok.inj hvalue ▸ hpost, hcrash⟩

theorem SafeOk.mono
    {program : ExceptT ε (Prog Op Reply) α} {state : σ}
    (hsafe : SafeOk machine program post crash state)
    (hpost : ∀ value after, post value after → post' value after)
    (hcrash : ∀ after, crash after → crash' after) :
    SafeOk machine program post' crash' state :=
  Safe.mono hsafe (fun _ after h value hvalue => hpost value after (h value hvalue)) hcrash

theorem SafeOk.and
    {program : ExceptT ε (Prog Op Reply) α} {state : σ}
    (hfirst : SafeOk machine program post crash state)
    (hsecond : SafeOk machine program post' crash' state) :
    SafeOk machine program (fun value after => post value after ∧ post' value after)
      (fun after => crash after ∧ crash' after) state :=
  (Safe.and hfirst hsecond).mono
    (fun _ _ h value hvalue => ⟨h.1 value hvalue, h.2 value hvalue⟩) fun _ h => h

theorem uses_run_bind
    {allowed : Op → Prop} {program : ExceptT ε (Prog Op Reply) α}
    {rest : α → ExceptT ε (Prog Op Reply) β}
    (hfirst : Uses allowed program.run) (hrest : ∀ value, Uses allowed (rest value).run) :
    Uses allowed (program >>= rest).run := by
  rw [ExceptT.run_bind]
  refine hfirst.bind ?_
  rintro (error | value)
  · trivial
  · exact hrest value

theorem uses_run_lift {allowed : Op → Prop} {program : Prog Op Reply α}
    (huses : program.Uses allowed) :
    Uses allowed (ExceptT.lift program : ExceptT ε (Prog Op Reply) α).run := by
  rw [ExceptT.run_lift, map_eq_pure_bind]
  exact huses.bind fun _ => trivial

/-- Run a program that can get stuck. -/
def exec (handle : (op : Op) → σ → Reply op × σ) (program : ExceptT ε (Prog Op Reply) α)
    (state : σ) : Except ε α × σ :=
  run handle program.run state

section Exec

variable {handle : (op : Op) → σ → Reply op × σ}

@[simp] theorem exec_pure (value : α) (state : σ) :
    exec handle (Pure.pure value : ExceptT ε (Prog Op Reply) α) state = (.ok value, state) := rfl

@[simp] theorem exec_throw (error : ε) (state : σ) :
    exec handle (throw error : ExceptT ε (Prog Op Reply) α) state = (.error error, state) := rfl

theorem exec_lift (program : Prog Op Reply α) (state : σ) :
    exec handle (ExceptT.lift program : ExceptT ε (Prog Op Reply) α) state =
      (.ok (program.run handle state).1, (program.run handle state).2) := by
  rw [exec, ExceptT.run_lift, map_eq_pure_bind, run_bind]
  rfl

theorem exec_bind_ok
    {program : ExceptT ε (Prog Op Reply) α} {rest : α → ExceptT ε (Prog Op Reply) β}
    {state state' : σ} {value : α} (hexec : exec handle program state = (.ok value, state')) :
    exec handle (program >>= rest) state = exec handle (rest value) state' := by
  unfold exec at hexec ⊢
  rw [ExceptT.run_bind, run_bind, hexec]

theorem exec_bind_error
    {program : ExceptT ε (Prog Op Reply) α} {rest : α → ExceptT ε (Prog Op Reply) β}
    {state state' : σ} {error : ε} (hexec : exec handle program state = (.error error, state')) :
    exec handle (program >>= rest) state = (.error error, state') := by
  unfold exec at hexec ⊢
  rw [ExceptT.run_bind, run_bind, hexec]
  rfl

/-- A run that returns has gone through both parts. -/
theorem exec_bind_eq_ok
    {program : ExceptT ε (Prog Op Reply) α} {rest : α → ExceptT ε (Prog Op Reply) β}
    {state after : σ} {result : β}
    (hexec : exec handle (program >>= rest) state = (.ok result, after)) :
    ∃ value middle, exec handle program state = (.ok value, middle) ∧
      exec handle (rest value) middle = (.ok result, after) := by
  cases hfirst : exec handle program state with
  | mk first middle =>
      cases first with
      | ok value => exact ⟨value, middle, rfl, (exec_bind_ok hfirst).symm.trans hexec⟩
      | error error =>
          rw [exec_bind_error hfirst] at hexec
          cases hexec

theorem guarded_run_bind
    {guard : Op → σ → Prop} {program : ExceptT ε (Prog Op Reply) α}
    {rest : α → ExceptT ε (Prog Op Reply) β} {state : σ} :
    Guarded handle guard (program >>= rest).run state ↔
      Guarded handle guard program.run state ∧
        ∀ value, (exec handle program state).1 = .ok value →
          Guarded handle guard (rest value).run (exec handle program state).2 := by
  rw [ExceptT.run_bind, guarded_bind, exec]
  refine and_congr Iff.rfl ?_
  rcases (run handle program.run state).1 with error | value
  · exact ⟨fun _ value hvalue => (nomatch hvalue), fun _ => trivial⟩
  · exact ⟨fun h _ hvalue => Except.ok.inj hvalue ▸ h, fun h => h value rfl⟩

theorem guarded_run_lift
    {guard : Op → σ → Prop} {program : Prog Op Reply α} {state : σ} :
    Guarded handle guard (ExceptT.lift program : ExceptT ε (Prog Op Reply) α).run state ↔
      Guarded handle guard program state := by
  rw [ExceptT.run_lift, map_eq_pure_bind, guarded_bind]
  exact ⟨fun h => h.1, fun h => ⟨h, trivial⟩⟩

end Exec

/-- Answer the requests of a program that can get stuck in another monad. -/
def interpret {m : Type → Type} [Monad m] [MonadExceptOf ε m]
    (answer : (op : Op) → m (Reply op)) : Prog Op Reply (Except ε α) → m α
  | .pure (.ok value) => Pure.pure value
  | .pure (.error error) => throw error
  | .request op next => answer op >>= fun reply => (next reply).interpret answer

end Prog

end OpenRecovery.Effects
