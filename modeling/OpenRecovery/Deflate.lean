import Mathlib

/-!
# Decompression in pieces

A format says what compressed data stand for.  A decompressor is fed with pieces
of the data and asked for as much output as there is room for; it is correct if
what it gives is what the data stand for, however the pieces are cut.  Nothing in
this file depends on a particular program.
-/

namespace OpenRecovery.Deflate

/-- A format of compressed data.  `output` is all that the beginning of a stream
determines, and `complete` says that a whole stream is there. -/
structure Format where
  output : List UInt8 → List UInt8
  complete : List UInt8 → Bool
  output_nil : output [] = []
  output_append : ∀ data more, output data <+: output (data ++ more)
  complete_append : ∀ data more, complete data = true →
    complete (data ++ more) = true ∧ output (data ++ more) = output data

/-- `Z_OK`, `Z_STREAM_END`, or another code. -/
inductive ZStatus where
  | ok
  | streamEnd
  | error
  deriving DecidableEq

/-- What a call of `inflate` leaves: its code, the number of bytes it has taken from
the input, what it has put into the output buffer, and the stream. -/
structure ZReply (State : Type) where
  zerr : ZStatus
  used : Nat
  output : List UInt8
  state : State

/-- `inflateInit2`, which may fail, and `inflate` for some input and some room. -/
structure Zlib where
  State : Type
  init : Option State
  inflate : State → List UInt8 → Nat → ZReply State

namespace Zlib

/-- The states after calls that have returned `Z_OK`, with all that was taken and
all that was given until then. -/
inductive Reaches (zlib : Zlib) : List UInt8 → List UInt8 → zlib.State → Prop
  | init {state : zlib.State} (hinit : zlib.init = some state) : Reaches zlib [] [] state
  | step {consumed emitted : List UInt8} {state : zlib.State} {input : List UInt8} {room : Nat}
      (hreaches : Reaches zlib consumed emitted state)
      (hok : (zlib.inflate state input room).zerr = .ok) :
      Reaches zlib (consumed ++ input.take (zlib.inflate state input room).used)
        (emitted ++ (zlib.inflate state input room).output) (zlib.inflate state input room).state

/-- A decompressor stays within its buffers, gives what the data stand for, and
tells the end of the stream when it has given all of it.  A call that returns `Z_OK`
has taken or given something. -/
structure Correct (zlib : Zlib) (format : Format) : Prop where
  used_le : ∀ state input room, (zlib.inflate state input room).used ≤ input.length
  output_le : ∀ state input room, (zlib.inflate state input room).output.length ≤ room
  gives : ∀ {consumed emitted state}, zlib.Reaches consumed emitted state → ∀ input room,
    (zlib.inflate state input room).zerr ≠ .error →
      emitted ++ (zlib.inflate state input room).output <+:
        format.output (consumed ++ input.take (zlib.inflate state input room).used)
  ends : ∀ {consumed emitted state}, zlib.Reaches consumed emitted state → ∀ input room,
    (zlib.inflate state input room).zerr = .streamEnd →
      format.complete (consumed ++ input.take (zlib.inflate state input room).used) = true ∧
        emitted ++ (zlib.inflate state input room).output =
          format.output (consumed ++ input.take (zlib.inflate state input room).used)
  progress : ∀ state input room, (zlib.inflate state input room).zerr = .ok →
    0 < (zlib.inflate state input room).used ∨ (zlib.inflate state input room).output ≠ []

end Zlib

/-! ## A decompressor for every format -/

section Stepwise

variable (format : Format) (consumed input : List UInt8) (given room : Nat)

/-- A byte is taken when all is given that the bytes before determine. -/
def stepUsed : Nat :=
  if given < (format.output consumed).length then 0 else min 1 input.length

/-- All that is taken after a call. -/
def stepConsumed : List UInt8 :=
  consumed ++ input.take (stepUsed format consumed input given)

def stepOutput : List UInt8 :=
  ((format.output (stepConsumed format consumed input given)).drop given).take room

def stepZerr : ZStatus :=
  if format.complete (stepConsumed format consumed input given) = true ∧
      given + (stepOutput format consumed input given room).length =
        (format.output (stepConsumed format consumed input given)).length then .streamEnd
  else if stepUsed format consumed input given = 0 ∧
      stepOutput format consumed input given room = [] then .error
  else .ok

def stepReply : ZReply (List UInt8 × Nat) where
  zerr := stepZerr format consumed input given room
  used := stepUsed format consumed input given
  output := stepOutput format consumed input given room
  state := (stepConsumed format consumed input given,
    given + (stepOutput format consumed input given room).length)

/-- The decompressor that takes one byte after the other.  A state is what was taken
and how much was given. -/
def Zlib.stepwise : Zlib where
  State := List UInt8 × Nat
  init := some ([], 0)
  inflate := fun state input room => stepReply format state.1 input state.2 room

variable {format consumed input given room}

theorem stepOutput_append (hgiven : given ≤ (format.output consumed).length) :
    (format.output consumed).take given ++ stepOutput format consumed input given room =
      (format.output (stepConsumed format consumed input given)).take
        (given + (stepOutput format consumed input given room).length) := by
  obtain ⟨more, hmore⟩ := format.output_append consumed
    (input.take (stepUsed format consumed input given))
  have hbefore : (format.output consumed).take given =
      (format.output (stepConsumed format consumed input given)).take given := by
    rw [stepConsumed, ← hmore, List.take_append_of_le_length hgiven]
  rw [hbefore, List.take_add]
  congr 1
  rw [stepOutput, List.length_take, List.take_eq_take_min]

theorem stepOutput_le (hgiven : given ≤ (format.output consumed).length) :
    given + (stepOutput format consumed input given room).length ≤
      (format.output (stepConsumed format consumed input given)).length := by
  have hless := (format.output_append consumed
    (input.take (stepUsed format consumed input given))).length_le
  rw [← stepConsumed] at hless
  rw [stepOutput, List.length_take, List.length_drop]
  omega

theorem stepZerr_cases :
    stepZerr format consumed input given room = .streamEnd ∧
        format.complete (stepConsumed format consumed input given) = true ∧
        given + (stepOutput format consumed input given room).length =
          (format.output (stepConsumed format consumed input given)).length ∨
      stepZerr format consumed input given room = .error ∧
        ¬(format.complete (stepConsumed format consumed input given) = true ∧
          given + (stepOutput format consumed input given room).length =
            (format.output (stepConsumed format consumed input given)).length) ∧
        stepUsed format consumed input given = 0 ∧
        stepOutput format consumed input given room = [] ∨
      stepZerr format consumed input given room = .ok ∧
        (0 < stepUsed format consumed input given ∨
          stepOutput format consumed input given room ≠ []) := by
  rw [stepZerr]
  by_cases hend : format.complete (stepConsumed format consumed input given) = true ∧
      given + (stepOutput format consumed input given room).length =
        (format.output (stepConsumed format consumed input given)).length
  · rw [if_pos hend]
    exact .inl ⟨rfl, hend⟩
  · rw [if_neg hend]
    by_cases hstuck : stepUsed format consumed input given = 0 ∧
        stepOutput format consumed input given room = []
    · rw [if_pos hstuck]
      exact .inr (.inl ⟨rfl, hend, hstuck⟩)
    · rw [if_neg hstuck]
      rw [not_and_or] at hstuck
      exact .inr (.inr ⟨rfl, hstuck.imp_left Nat.pos_of_ne_zero⟩)

/-- A call that takes and gives nothing has nothing to take or to give. -/
theorem stepwise_stuck
    (hgiven : given ≤ (format.output consumed).length) (hroom : 0 < room)
    (hused : stepUsed format consumed input given = 0)
    (houtput : stepOutput format consumed input given room = []) :
    input = [] ∧ given = (format.output consumed).length := by
  have hall : given = (format.output consumed).length := by
    by_contra hless
    have hlength := congrArg List.length houtput
    rw [stepOutput, stepConsumed, hused, List.take_zero, List.append_nil, List.length_take,
      List.length_drop, List.length_nil] at hlength
    omega
  refine ⟨?_, hall⟩
  rw [stepUsed, if_neg (by omega)] at hused
  apply List.eq_nil_of_length_eq_zero
  omega

/-- The states are what they are meant to be. -/
theorem stepwise_reaches
    {emitted : List UInt8} {state : (Zlib.stepwise format).State}
    (hreaches : (Zlib.stepwise format).Reaches consumed emitted state) :
    state.1 = consumed ∧ emitted = (format.output consumed).take state.2 ∧
      state.2 ≤ (format.output consumed).length := by
  induction hreaches with
  | init hinit =>
      obtain rfl := Option.some.inj hinit
      refine ⟨rfl, ?_, Nat.zero_le _⟩
      rw [List.take_zero]
  | @step consumed emitted state input room hreaches hok ih =>
      obtain ⟨hstate, hemitted, hgiven⟩ := ih
      obtain ⟨taken, given⟩ := state
      obtain rfl : taken = consumed := hstate
      refine ⟨rfl, ?_, stepOutput_le hgiven⟩
      rw [hemitted]
      exact stepOutput_append hgiven

theorem stepwise_correct (format : Format) : (Zlib.stepwise format).Correct format where
  used_le := by
    intro state input room
    change stepUsed format state.1 input state.2 ≤ input.length
    rw [stepUsed]
    split
    · exact Nat.zero_le _
    · exact Nat.min_le_right _ _
  output_le := fun state input room => List.length_take_le _ _
  gives := by
    intro consumed emitted state hreaches input room _
    obtain ⟨rfl, hemitted, hgiven⟩ := stepwise_reaches hreaches
    rw [hemitted]
    change (format.output state.1).take state.2 ++ stepOutput format state.1 input state.2 room <+:
      format.output (stepConsumed format state.1 input state.2)
    rw [stepOutput_append hgiven]
    exact List.take_prefix _ _
  ends := by
    intro consumed emitted state hreaches input room hend
    obtain ⟨rfl, hemitted, hgiven⟩ := stepwise_reaches hreaches
    rw [hemitted]
    change format.complete (stepConsumed format state.1 input state.2) = true ∧
      (format.output state.1).take state.2 ++ stepOutput format state.1 input state.2 room =
        format.output (stepConsumed format state.1 input state.2)
    change stepZerr format state.1 input state.2 room = .streamEnd at hend
    rcases stepZerr_cases with ⟨-, hcomplete, hall⟩ | ⟨herror, -⟩ | ⟨hok, -⟩
    · refine ⟨hcomplete, ?_⟩
      rw [stepOutput_append hgiven, hall, List.take_length]
    · cases hend.symm.trans herror
    · cases hend.symm.trans hok
  progress := by
    intro state input room hok
    change stepZerr format state.1 input state.2 room = .ok at hok
    change 0 < stepUsed format state.1 input state.2 ∨ stepOutput format state.1 input state.2 room ≠ []
    rcases stepZerr_cases with ⟨hend, -⟩ | ⟨herror, -⟩ | ⟨-, hprogress⟩
    · cases hok.symm.trans hend
    · cases hok.symm.trans herror
    · exact hprogress

end Stepwise

end OpenRecovery.Deflate
