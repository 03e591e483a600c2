import Mathlib

/-!
# Streams with one message on the way

A sender reads pieces of a stream, and may read the next one only after the one before
it was acknowledged.  A receiver that cannot write all of a message at once keeps the
rest of it waiting, and acknowledges it once it was written.

The permission to read is always in one of four places.
-/

namespace StopAndWait

variable {α : Type}

/-- Where the permission to read is: `ready` says that the sender has it, `sent` are
the messages on the way, `waiting` those that are not written yet, and `acks` counts
the acknowledgements on the way. -/
inductive Flow : (ready : Bool) → (sent waiting : List (List α)) → (acks : Nat) →
    (read written : List α) → Prop
  | atSender (data : List α) : Flow true [] [] 0 data data
  | onTheWay (data message : List α) : Flow false [message] [] 0 (data ++ message) data
  | waiting (data message : List α) : Flow false [] [message] 0 (data ++ message) data
  | acknowledged (data : List α) : Flow false [] [] 1 data data

variable {ready : Bool} {sent waiting : List (List α)} {acks : Nat} {read written : List α}

/-- The permission is neither lost nor doubled. -/
theorem Flow.count (hflow : Flow ready sent waiting acks read written) :
    ready.toNat + sent.length + waiting.length + acks = 1 := by
  cases hflow <;> simp

/-- What was read is what was written, what waits and what is on the way. -/
theorem Flow.read_eq (hflow : Flow ready sent waiting acks read written) :
    read = written ++ (waiting.flatten ++ sent.flatten) := by
  cases hflow <;> simp

theorem Flow.written_prefix (hflow : Flow ready sent waiting acks read written) :
    written ++ waiting.flatten <+: read := by
  rw [hflow.read_eq, ← List.append_assoc]
  exact List.prefix_append _ _

theorem Flow.send
    (hflow : Flow true sent waiting acks read written) (message : List α) :
    Flow false (sent ++ [message]) waiting acks (read ++ message) written := by
  cases hflow with
  | atSender => exact .onTheWay _ message

theorem Flow.receive
    {message : List α} (hflow : Flow ready (message :: sent) waiting acks read written) :
    ready = false ∧ sent = [] ∧ waiting = [] ∧ acks = 0 ∧ read = written ++ message := by
  cases hflow with
  | onTheWay => exact ⟨rfl, rfl, rfl, rfl, rfl⟩

theorem Flow.write_all
    {message : List α} (hflow : Flow ready (message :: sent) waiting acks read written) :
    Flow ready sent waiting (acks + 1) read (written ++ message) := by
  obtain ⟨rfl, rfl, rfl, rfl, rfl⟩ := hflow.receive
  exact .acknowledged _

theorem Flow.write_some
    {message : List α} (hflow : Flow ready (message :: sent) waiting acks read written)
    (count : Nat) :
    Flow ready sent [message.drop count] acks read (written ++ message.take count) := by
  obtain ⟨rfl, rfl, rfl, rfl, rfl⟩ := hflow.receive
  have hsplit : written ++ message =
      (written ++ message.take count) ++ message.drop count := by
    rw [List.append_assoc, List.take_append_drop]
  rw [hsplit]
  exact .waiting _ _

theorem Flow.wait
    {message : List α} (hflow : Flow ready sent (message :: waiting) acks read written) :
    ready = false ∧ sent = [] ∧ waiting = [] ∧ acks = 0 ∧ read = written ++ message := by
  cases hflow with
  | waiting => exact ⟨rfl, rfl, rfl, rfl, rfl⟩

theorem Flow.drain_all
    {message : List α} (hflow : Flow ready sent (message :: waiting) acks read written) :
    Flow ready sent [] (acks + 1) read (written ++ message) := by
  obtain ⟨rfl, rfl, rfl, rfl, rfl⟩ := hflow.wait
  exact .acknowledged _

theorem Flow.drain_some
    {message : List α} (hflow : Flow ready sent (message :: waiting) acks read written)
    (count : Nat) :
    Flow ready sent [message.drop count] acks read (written ++ message.take count) := by
  obtain ⟨rfl, rfl, rfl, rfl, rfl⟩ := hflow.wait
  have hsplit : written ++ message =
      (written ++ message.take count) ++ message.drop count := by
    rw [List.append_assoc, List.take_append_drop]
  rw [hsplit]
  exact .waiting _ _

theorem Flow.acknowledge
    (hflow : Flow ready sent waiting (acks + 1) read written) :
    Flow true sent waiting acks read written := by
  cases hflow with
  | acknowledged => exact .atSender _

end StopAndWait
