import OpenRecovery.Bootloader
import OpenRecovery.FallibleRuns
import Mathlib

/-!
# The output of scripts

`run_shell_script` reads the standard output of a script from a pipe without blocking, and
looks for the end of the script whenever the pipe is empty.  The script writes and exits while
this goes on.
-/

namespace OpenRecovery.ShellScript

open Effects

/-! ## The loop -/

/-- Where the polling loop is: at its head, before the read and the menu of an interactive
menu, before the read, before `waitpid`, before the last read, and behind the loop. -/
inductive PollPoint where
  | top
  | menuRead
  | menu
  | read
  | wait
  | lastRead
  | returned
  deriving DecidableEq

structure ScriptState where
  toWrite : Bytes
  exited : Bool
  inTrigger : Bool
  pipe : Bytes
  point : PollPoint
  printed : Bytes
  deriving DecidableEq

inductive ScriptEvent where
  | write (count : Nat)
  | trigger
  | exit
  | poll
  deriving DecidableEq

/-- An event that cannot happen in a state. -/
inductive Disabled where
  | disabled
  deriving DecidableEq

/-- Size of the buffer without its terminator. -/
def bufferSize : Nat := 1024

/-- A read that finds something, and `ui_print_raw` on the terminated buffer. -/
def readAndPrint (state : ScriptState) : ScriptState :=
  { state with
    pipe := state.pipe.drop bufferSize
    printed := state.printed ++ cString (state.pipe.take bufferSize) }

/-- The next step of the polling loop. -/
def pollStep (state : ScriptState) : Except Disabled ScriptState :=
  match state.point with
  | .top =>
      if state.inTrigger then .ok { state with inTrigger := false, point := .menuRead }
      else .ok { state with point := .read }
  | .menuRead => .ok { readAndPrint state with point := .menu }
  | .menu => .ok { state with point := .read }
  | .read =>
      if state.pipe = [] then .ok { state with point := .wait }
      else .ok { readAndPrint state with point := .top }
  | .wait => .ok { state with point := if state.exited then .lastRead else .top }
  | .lastRead => .ok { readAndPrint state with point := .returned }
  | .returned => .error .disabled

/-- What can happen next, with a pipe that holds up to `capacity` bytes. -/
def scriptStep (capacity : Nat) (state : ScriptState) : ScriptEvent → Except Disabled ScriptState
  | .write count =>
      if state.exited = false ∧ count ≤ state.toWrite.length ∧
          state.pipe.length + count ≤ capacity then
        .ok { state with
          toWrite := state.toWrite.drop count
          pipe := state.pipe ++ state.toWrite.take count }
      else .error .disabled
  | .trigger =>
      if state.exited = false then .ok { state with inTrigger := true } else .error .disabled
  | .exit =>
      if state.exited = false ∧ state.toWrite = [] then .ok { state with exited := true }
      else .error .disabled
  | .poll => pollStep state

/-- A script that will write some output. -/
def scriptStart (output : Bytes) : ScriptState where
  toWrite := output
  exited := false
  inTrigger := false
  pipe := []
  point := .top
  printed := []

/-! ## Every byte is printed, in the pipe or not written yet -/

/-- What holds in every state of a script. -/
structure OutputKept (output : Bytes) (state : ScriptState) : Prop where
  bytes : state.printed ++ (state.pipe ++ state.toWrite) = output
  written : state.exited = true → state.toWrite = []
  last : state.point = .lastRead ∨ state.point = .returned → state.exited = true

/-- A poll that finds the script gone finds the rest of its output within one buffer. -/
def RestFits (state : ScriptState) (event : ScriptEvent) : Prop :=
  state.point = .wait → state.exited = true → event = .poll → state.pipe.length ≤ bufferSize

/-- What is decided once the script is gone. -/
structure Decided (output : Bytes) (state : ScriptState) : Prop where
  lastRead : state.point = .lastRead → state.pipe.length ≤ bufferSize
  returned : state.point = .returned → state.printed = output

section Output

variable {capacity : Nat} {output : Bytes} {state next : ScriptState}

theorem readAndPrint_bytes (hkept : OutputKept output state) (hfree : ∀ byte ∈ output, byte ≠ 0) :
    (readAndPrint state).printed ++ ((readAndPrint state).pipe ++ (readAndPrint state).toWrite) =
      output := by
  have htake : cString (state.pipe.take bufferSize) = state.pipe.take bufferSize := by
    rw [cString, List.takeWhile_eq_self_iff]
    intro byte hbyte
    have hmem : byte ∈ output := by
      rw [← hkept.bytes]
      exact List.mem_append_right _ (List.mem_append_left _ (List.mem_of_mem_take hbyte))
    simpa using hfree byte hmem
  change (state.printed ++ cString (state.pipe.take bufferSize)) ++
    (state.pipe.drop bufferSize ++ state.toWrite) = output
  rw [htake, List.append_assoc, ← List.append_assoc (state.pipe.take bufferSize),
    List.take_append_drop, hkept.bytes]

/-- The last read completes the output if what is left fits into the buffer. -/
theorem readAndPrint_complete_iff (hkept : OutputKept output state)
    (hfree : ∀ byte ∈ output, byte ≠ 0) (hexited : state.exited = true) :
    (readAndPrint state).printed = output ↔ state.pipe.length ≤ bufferSize := by
  have hbytes := readAndPrint_bytes hkept hfree
  have hwritten : (readAndPrint state).toWrite = [] := hkept.written hexited
  rw [hwritten, List.append_nil] at hbytes
  have hrest : (readAndPrint state).printed = output ↔ (readAndPrint state).pipe = [] := by
    constructor
    · intro hprinted
      rw [hprinted] at hbytes
      exact List.append_right_eq_self.mp hbytes
    · intro hempty
      rwa [hempty, List.append_nil] at hbytes
  rw [hrest]
  exact List.drop_eq_nil_iff

theorem scriptStart_kept (output : Bytes) : OutputKept output (scriptStart output) where
  bytes := rfl
  written := nofun
  last := by
    rintro (hpoint | hpoint) <;> cases hpoint

/-- Every event keeps the bytes in order. -/
theorem scriptStep_kept (hkept : OutputKept output state) (hfree : ∀ byte ∈ output, byte ≠ 0)
    {event : ScriptEvent} (hstep : scriptStep capacity state event = .ok next) :
    OutputKept output next := by
  obtain ⟨hbytes, hwritten, hlast⟩ := hkept
  have hread := readAndPrint_bytes ⟨hbytes, hwritten, hlast⟩ hfree
  cases event with
  | write count =>
      rw [scriptStep] at hstep
      split_ifs at hstep with henabled
      cases hstep
      refine ⟨?_, fun hexited => ?_, hlast⟩
      · change state.printed ++ ((state.pipe ++ state.toWrite.take count) ++
          state.toWrite.drop count) = output
        rw [List.append_assoc, List.take_append_drop, hbytes]
      · exact absurd (henabled.1.symm.trans hexited) Bool.false_ne_true
  | trigger =>
      rw [scriptStep] at hstep
      split_ifs at hstep
      cases hstep
      exact ⟨hbytes, hwritten, hlast⟩
  | exit =>
      rw [scriptStep] at hstep
      split_ifs at hstep with henabled
      cases hstep
      exact ⟨hbytes, fun _ => henabled.2, fun _ => rfl⟩
  | poll =>
      rw [scriptStep, pollStep] at hstep
      cases hpoint : state.point with
      | top =>
          rw [hpoint] at hstep
          dsimp only at hstep
          split_ifs at hstep
          · cases hstep
            exact ⟨hbytes, hwritten, by rintro (h | h) <;> cases h⟩
          · cases hstep
            exact ⟨hbytes, hwritten, by rintro (h | h) <;> cases h⟩
      | menuRead =>
          rw [hpoint] at hstep
          cases hstep
          exact ⟨hread, hwritten, by rintro (h | h) <;> cases h⟩
      | menu =>
          rw [hpoint] at hstep
          cases hstep
          exact ⟨hbytes, hwritten, by rintro (h | h) <;> cases h⟩
      | read =>
          rw [hpoint] at hstep
          dsimp only at hstep
          split_ifs at hstep
          · cases hstep
            exact ⟨hbytes, hwritten, by rintro (h | h) <;> cases h⟩
          · cases hstep
            exact ⟨hread, hwritten, by rintro (h | h) <;> cases h⟩
      | wait =>
          rw [hpoint] at hstep
          cases hstep
          refine ⟨hbytes, hwritten, fun hpoints => ?_⟩
          by_cases hexited : state.exited = true
          · exact hexited
          · dsimp only at hpoints
            rw [if_neg hexited] at hpoints
            rcases hpoints with h | h <;> cases h
      | lastRead =>
          rw [hpoint] at hstep
          cases hstep
          exact ⟨hread, hwritten, fun _ => hlast (.inl hpoint)⟩
      | returned =>
          rw [hpoint] at hstep
          cases hstep

/-- Only the poll that finds the script gone decides anything. -/
theorem scriptStep_decided (hkept : OutputKept output state) (hfree : ∀ byte ∈ output, byte ≠ 0)
    {event : ScriptEvent} (hstep : scriptStep capacity state event = .ok next) :
    Decided output next ↔ RestFits state event ∧ Decided output state := by
  have hother : ∀ point, state.point = point → next.point ≠ .lastRead → next.point ≠ .returned →
      point ≠ .lastRead → point ≠ .returned → RestFits state event →
        (Decided output next ↔ RestFits state event ∧ Decided output state) := by
    intro point hpoint hnextLast hnextReturned hlast hreturned hfits
    refine iff_of_true ⟨fun h => absurd h hnextLast, fun h => absurd h hnextReturned⟩ ⟨hfits, ?_⟩
    exact ⟨fun h => absurd (hpoint.symm.trans h) hlast,
      fun h => absurd (hpoint.symm.trans h) hreturned⟩
  have hrunning : state.exited = false → next.point = state.point → event ≠ .poll →
      (Decided output next ↔ RestFits state event ∧ Decided output state) := by
    intro hrunning hsame hevent
    have hlast : ¬ (state.point = .lastRead ∨ state.point = .returned) := fun h =>
      Bool.false_ne_true (hrunning.symm.trans (hkept.last h))
    rw [not_or] at hlast
    exact hother _ rfl (by rw [hsame]; exact hlast.1) (by rw [hsame]; exact hlast.2) hlast.1 hlast.2
      fun _ _ hpoll => absurd hpoll hevent
  cases event with
  | write count =>
      rw [scriptStep] at hstep
      split_ifs at hstep with henabled
      cases hstep
      exact hrunning henabled.1 rfl nofun
  | trigger =>
      rw [scriptStep] at hstep
      split_ifs at hstep with henabled
      cases hstep
      exact hrunning henabled rfl nofun
  | exit =>
      rw [scriptStep] at hstep
      split_ifs at hstep with henabled
      cases hstep
      exact hrunning henabled.1 rfl nofun
  | poll =>
      have hfits : ∀ point, state.point = point → point ≠ .wait → RestFits state .poll :=
        fun point hpoint hwait h => absurd (hpoint.symm.trans h) hwait
      rw [scriptStep, pollStep] at hstep
      cases hpoint : state.point with
      | top =>
          rw [hpoint] at hstep
          dsimp only at hstep
          split_ifs at hstep
          · cases hstep
            exact hother _ hpoint nofun nofun nofun nofun (hfits _ hpoint nofun)
          · cases hstep
            exact hother _ hpoint nofun nofun nofun nofun (hfits _ hpoint nofun)
      | menuRead =>
          rw [hpoint] at hstep
          cases hstep
          exact hother _ hpoint nofun nofun nofun nofun (hfits _ hpoint nofun)
      | menu =>
          rw [hpoint] at hstep
          cases hstep
          exact hother _ hpoint nofun nofun nofun nofun (hfits _ hpoint nofun)
      | read =>
          rw [hpoint] at hstep
          dsimp only at hstep
          split_ifs at hstep
          · cases hstep
            exact hother _ hpoint nofun nofun nofun nofun (hfits _ hpoint nofun)
          · cases hstep
            exact hother _ hpoint nofun nofun nofun nofun (hfits _ hpoint nofun)
      | wait =>
          rw [hpoint] at hstep
          cases hstep
          have hdecided : Decided output state :=
            ⟨fun h => (nomatch hpoint.symm.trans h), fun h => (nomatch hpoint.symm.trans h)⟩
          by_cases hexited : state.exited = true
          · constructor
            · intro hnext
              exact ⟨fun _ _ _ => hnext.lastRead (if_pos hexited), hdecided⟩
            · rintro ⟨hrest, -⟩
              refine ⟨fun _ => hrest hpoint hexited rfl, fun h => ?_⟩
              exact nomatch (if_pos hexited).symm.trans h
          · refine hother _ hpoint ?_ ?_ nofun nofun fun _ h => absurd h hexited
            · intro h
              exact nomatch (if_neg hexited).symm.trans h
            · intro h
              exact nomatch (if_neg hexited).symm.trans h
      | lastRead =>
          rw [hpoint] at hstep
          cases hstep
          have hcomplete := readAndPrint_complete_iff hkept hfree (hkept.last (.inl hpoint))
          constructor
          · intro hnext
            refine ⟨hfits _ hpoint nofun, fun _ => hcomplete.mp (hnext.returned rfl), fun h => ?_⟩
            exact nomatch hpoint.symm.trans h
          · rintro ⟨-, hdecided⟩
            exact ⟨nofun, fun _ => hcomplete.mpr (hdecided.lastRead hpoint)⟩
      | returned =>
          rw [hpoint] at hstep
          cases hstep

/-- What a run decides. -/
theorem run_decided (hkept : OutputKept output state) (hfree : ∀ byte ∈ output, byte ≠ 0)
    {events : List ScriptEvent} {last : ScriptState}
    (hrun : events.foldlM (scriptStep capacity) state = .ok last) :
    Decided output last ↔
      (∀ taken ∈ performed (scriptStep capacity) state events, RestFits taken.1 taken.2) ∧
        Decided output state := by
  induction events generalizing state with
  | nil =>
      cases hrun
      exact ⟨fun hdecided => ⟨List.forall_mem_nil _, hdecided⟩, fun h => h.2⟩
  | cons event events ih =>
      cases hstep : scriptStep capacity state event with
      | error reason =>
          rw [foldlM_error_cons hstep] at hrun
          cases hrun
      | ok next =>
          rw [foldlM_ok_cons hstep] at hrun
          rw [ih (scriptStep_kept hkept hfree hstep) hrun, scriptStep_decided hkept hfree hstep,
            performed_ok hstep, List.forall_mem_cons]
          exact ⟨fun ⟨hrest, hfirst, hdecided⟩ => ⟨⟨hfirst, hrest⟩, hdecided⟩,
            fun ⟨⟨hfirst, hrest⟩, hdecided⟩ => ⟨hrest, hfirst, hdecided⟩⟩

/-- When the loop has been left the whole output has been printed exactly if the poll that
found the script gone found at most one buffer of it in the pipe. -/
theorem output_complete_iff (hfree : ∀ byte ∈ output, byte ≠ 0) {events : List ScriptEvent}
    {last : ScriptState}
    (hrun : events.foldlM (scriptStep capacity) (scriptStart output) = .ok last)
    (hreturned : last.point = .returned) :
    last.printed = output ↔
      ∀ taken ∈ performed (scriptStep capacity) (scriptStart output) events,
        RestFits taken.1 taken.2 := by
  have hstart : Decided output (scriptStart output) := ⟨nofun, nofun⟩
  have hdecided := run_decided (scriptStart_kept output) hfree hrun
  rw [and_iff_left hstart] at hdecided
  rw [← hdecided]
  exact ⟨fun hprinted => ⟨fun h => (nomatch hreturned.symm.trans h), fun _ => hprinted⟩,
    fun h => h.returned hreturned⟩

end Output

/-- A script that writes more than a buffer between the empty read and its exit. -/
theorem output_lost :
    (([.poll, .poll, .write 1025, .exit, .poll, .poll].foldlM (scriptStep 65536)
      (scriptStart (List.replicate 1025 97))).map fun last =>
        (last.point, last.printed.length)).toOption = some (.returned, 1024) := by
  decide +kernel

theorem output_complete_two :
    ∃ last,
      [.write 2, .poll, .poll, .poll, .poll, .exit, .poll, .poll].foldlM (scriptStep 65536)
        (scriptStart [104, 105]) = .ok last ∧
      (last.printed = [104, 105] ↔
        ∀ taken ∈ performed (scriptStep 65536) (scriptStart [104, 105])
          [.write 2, .poll, .poll, .poll, .poll, .exit, .poll, .poll], RestFits taken.1 taken.2) :=
  ⟨_, rfl, output_complete_iff (forall_mem_of_all (by decide)) rfl rfl⟩

end OpenRecovery.ShellScript
