import OpenRecovery.ConsoleRows
import Mathlib

/-!
# The buffers of the escape sequences

A sequence is collected in a buffer of 64 bytes and its parameters are counted in an array of
32.  Neither bound is checked by the source.  Which streams keep to them can be seen from
each escape and the bytes that may belong to a sequence behind it.
-/

namespace OpenRecovery.Terminal

open Effects Words

/-! ## Streams -/

def semicolon : UInt8 := 59

/-- The bytes behind an escape that may belong to its sequence. -/
def sequenceParts (rest : Bytes) : Bytes :=
  rest.takeWhile isEscapePart

/-- The byte that ends the sequence, if there is one. -/
def sequenceEnd (rest : Bytes) : Option UInt8 :=
  (rest.dropWhile isEscapePart).head?.filter (· ≠ escape)

/-- What is pending and what follows have place in the buffers: an open sequence in its buffer, a
completed one with its end and a terminator, and its parameters. -/
structure PartsFit (pending rest : Bytes) : Prop where
  opened : (pending ++ sequenceParts rest).length ≤ 64
  closed : sequenceEnd rest ≠ none → (pending ++ sequenceParts rest).length ≤ 62 ∧
    (pending ++ sequenceParts rest).count semicolon ≤ 31

/-- Every sequence of the stream fits. -/
def SequencesFit (text : Bytes) : Prop :=
  ∀ before rest, text = before ++ escape :: rest → PartsFit [] rest

/-- What a list of prints does, each with the sequence that the one before it left open. -/
def printActions : Option Bytes → List Bytes → List Action
  | _, [] => []
  | escaped, text :: texts =>
      (textActions escaped text).1 ++ printActions (textActions escaped text).2 texts

def NoOverflow (actions : List Action) : Prop :=
  ∀ fault, Action.overflow fault ∉ actions

section Streams

theorem sequencesFit_cons (c : UInt8) (text : Bytes) :
    SequencesFit (c :: text) ↔ (c = escape → PartsFit [] text) ∧ SequencesFit text := by
  constructor
  · intro hfit
    refine ⟨?_, ?_⟩
    · rintro rfl
      exact hfit [] text rfl
    · intro before rest htext
      exact hfit (c :: before) rest (by rw [htext, List.cons_append])
  · rintro ⟨hfirst, hrest⟩ before rest htext
    cases before with
    | nil =>
        obtain ⟨rfl, rfl⟩ := List.cons_eq_cons.mp htext
        exact hfirst rfl
    | cons first before =>
        obtain ⟨rfl, htail⟩ := List.cons_eq_cons.mp htext
        exact hrest before rest htail

theorem noOverflow_append (first second : List Action) :
    NoOverflow (first ++ second) ↔ NoOverflow first ∧ NoOverflow second := by
  constructor
  · intro hnone
    exact ⟨fun fault hmem => hnone fault (List.mem_append_left _ hmem),
      fun fault hmem => hnone fault (List.mem_append_right _ hmem)⟩
  · rintro ⟨hfirst, hsecond⟩ fault hmem
    rcases List.mem_append.mp hmem with hmem | hmem
    · exact hfirst fault hmem
    · exact hsecond fault hmem

/-- Only semicolons count parameters. -/
theorem parseEscape_noParameters {parts : Bytes} (hparts : ∀ part ∈ parts, isEscapePart part = true)
    {c : UInt8} (hc : isEscapePart c = false) (sequence : EscapeSequence) :
    (parseEscape (parts ++ [c]) sequence).noParameters =
      sequence.noParameters + parts.count semicolon := by
  induction parts generalizing sequence with
  | nil =>
      obtain ⟨hsqr, hleft, hquestion, hright, hsemicolon, hdigit⟩ :
          ¬c = 91 ∧ ¬c = 40 ∧ ¬c = 63 ∧ ¬c = 41 ∧ ¬c = 59 ∧ ¬isDigit c := by
        simpa [isEscapePart] using hc
      rw [List.nil_append, parseEscape, if_neg hsqr, if_neg hleft, if_neg hright, if_neg hquestion,
        if_neg hsemicolon, if_neg hdigit]
      rfl
  | cons part parts ih =>
      rw [List.forall_mem_cons] at hparts
      have hpart := of_decide_eq_true hparts.1
      rw [List.cons_append, parseEscape, List.count_cons]
      by_cases hsemicolon : part = semicolon
      · subst hsemicolon
        change (parseEscape (parts ++ [c])
          { sequence with noParameters := sequence.noParameters + 1 }).noParameters = _
        rw [ih hparts.2, if_pos (beq_self_eq_true _)]
        change sequence.noParameters + 1 + _ = _
        omega
      · have hsame : ∀ next : EscapeSequence, next.noParameters = sequence.noParameters →
            (parseEscape (parts ++ [c]) next).noParameters =
              sequence.noParameters + (parts.count semicolon + 0) := by
          intro next hnext
          rw [ih hparts.2, hnext, Nat.add_zero]
        rw [if_neg (show ¬(part == semicolon) = true by simpa using hsemicolon)]
        split_ifs with hsqr hleft hright hquestion hcount hdigit
        · exact hsame _ rfl
        · exact hsame _ rfl
        · exact hsame _ rfl
        · exact hsame _ rfl
        · exact absurd hcount hsemicolon
        · exact hsame _ rfl
        · simp [hsqr, hleft, hright, hquestion, hcount, hdigit] at hpart

/-- A completed sequence does not overflow exactly if its parameters have place. -/
theorem consoleUnescape_noOverflow {parts : Bytes}
    (hparts : ∀ part ∈ parts, isEscapePart part = true) {c : UInt8} (hc : isEscapePart c = false) :
    NoOverflow (consoleUnescape (parts ++ [c])) ↔ parts.count semicolon ≤ 31 := by
  have hcount := parseEscape_noParameters hparts hc {}
  rw [show ({} : EscapeSequence).noParameters = 0 from rfl, Nat.zero_add] at hcount
  have htext : NoOverflow (escapeText (parts ++ [c])) := by
    intro fault hmem
    rcases List.mem_cons.mp hmem with heq | hmem
    · cases heq
    · obtain ⟨_, -, heq⟩ := List.mem_map.mp hmem
      cases heq
  rw [consoleUnescape, hcount]
  by_cases hmany : 32 ≤ parts.count semicolon
  · rw [if_pos hmany]
    exact iff_of_false (fun hnone => hnone _ List.mem_cons_self) (by omega)
  · rw [if_neg hmany]
    refine iff_of_true ?_ (by omega)
    have hsingle : ∀ action : Action, (∀ fault, Action.overflow fault ≠ action) →
        NoOverflow [action] := fun action hne fault hmem =>
      hne fault (List.mem_singleton.mp hmem)
    split_ifs <;> first | exact htext | exact hsingle _ (by simp)

theorem partsFit_part {pending rest : Bytes} {c : UInt8} (hc : isEscapePart c = true) :
    PartsFit pending (c :: rest) ↔ PartsFit (pending ++ [c]) rest := by
  have hparts : pending ++ sequenceParts (c :: rest) = pending ++ [c] ++ sequenceParts rest := by
    rw [sequenceParts, sequenceParts, List.takeWhile_cons_of_pos hc, List.append_assoc]
    rfl
  have hend : sequenceEnd (c :: rest) = sequenceEnd rest := by
    rw [sequenceEnd, sequenceEnd, List.dropWhile_cons_of_pos hc]
  constructor
  · rintro ⟨hopened, hclosed⟩
    rw [hparts] at hopened hclosed
    rw [hend] at hclosed
    exact ⟨hopened, hclosed⟩
  · rintro ⟨hopened, hclosed⟩
    refine ⟨?_, ?_⟩
    · rwa [hparts]
    · rwa [hparts, hend]

theorem sequenceParts_stop {rest : Bytes} {c : UInt8} (hc : isEscapePart c = false) :
    sequenceParts (c :: rest) = [] :=
  List.takeWhile_cons_of_neg (by simp [hc])

theorem partsFit_escape {pending rest : Bytes} (hpending : pending.length ≤ 64) :
    PartsFit pending (escape :: rest) := by
  have hc : isEscapePart escape = false := by decide
  refine ⟨?_, fun hend => absurd ?_ hend⟩
  · rwa [sequenceParts_stop hc, List.append_nil]
  · rw [sequenceEnd, List.dropWhile_cons_of_neg (by decide)]
    rfl

theorem partsFit_end {pending rest : Bytes} {c : UInt8} (hc : isEscapePart c = false)
    (hne : c ≠ escape) (hpending : pending.length ≤ 64) :
    PartsFit pending (c :: rest) ↔ pending.length ≤ 62 ∧ pending.count semicolon ≤ 31 := by
  have hend : sequenceEnd (c :: rest) = some c := by
    rw [sequenceEnd, List.dropWhile_cons_of_neg (by simp [hc])]
    exact Option.filter_eq_some_iff.mpr ⟨rfl, by simpa using hne⟩
  constructor
  · rintro ⟨-, hclosed⟩
    rw [hend, sequenceParts_stop hc, List.append_nil] at hclosed
    exact hclosed (Option.some_ne_none c)
  · intro hfits
    refine ⟨?_, fun _ => ?_⟩
    · rwa [sequenceParts_stop hc, List.append_nil]
    · rwa [sequenceParts_stop hc, List.append_nil]

/-- The stream from some point of it on, where a sequence may be open. -/
theorem textActions_noOverflow (text : Bytes) (escaped : Option Bytes)
    (hparts : ∀ pending, escaped = some pending →
      (∀ part ∈ pending, isEscapePart part = true) ∧ pending.length ≤ 64) :
    NoOverflow (textActions escaped text).1 ↔
      (∀ pending, escaped = some pending → PartsFit pending text) ∧ SequencesFit text := by
  induction text generalizing escaped with
  | nil =>
      refine iff_of_true (by simp [NoOverflow, textActions]) ⟨fun pending hpending => ?_, ?_⟩
      · refine ⟨?_, fun hend => absurd rfl hend⟩
        rw [sequenceParts, List.takeWhile_nil, List.append_nil]
        exact (hparts pending hpending).2
      · intro before rest htext
        cases before with
        | nil => cases htext
        | cons first before => cases htext
  | cons c text ih =>
      rw [textActions, noOverflow_append, sequencesFit_cons, consoleByte.eq_def]
      by_cases hescape : c = escape
      · subst hescape
        rw [if_pos rfl, ih (some []) (by rintro _ ⟨⟩; exact ⟨(by simp), Nat.zero_le _⟩)]
        constructor
        · rintro ⟨-, hopen, hrest⟩
          exact ⟨fun pending hpending => partsFit_escape (hparts pending hpending).2,
            fun _ => hopen [] rfl, hrest⟩
        · rintro ⟨-, hopen, hrest⟩
          exact ⟨by simp [NoOverflow], fun pending hpending => Option.some.inj hpending ▸ hopen rfl,
            hrest⟩
      rw [if_neg hescape]
      cases escaped with
      | none =>
          dsimp only
          rw [ih none (by simp)]
          constructor
          · rintro ⟨-, -, hrest⟩
            exact ⟨(by simp), fun heq => absurd heq hescape, hrest⟩
          · rintro ⟨-, -, hrest⟩
            refine ⟨fun fault hmem => ?_, (by simp), hrest⟩
            cases List.mem_singleton.mp hmem
      | some pending =>
          obtain ⟨hall, hlength⟩ := hparts pending rfl
          have hfit : (∀ open', some pending = some open' → PartsFit open' (c :: text)) ↔
              PartsFit pending (c :: text) :=
            ⟨fun hopen => hopen pending rfl, fun hopen _ heq => Option.some.inj heq ▸ hopen⟩
          have hsequence : (c = escape → PartsFit [] text) ∧ SequencesFit text ↔
              SequencesFit text :=
            and_iff_right fun heq => absurd heq hescape
          rw [hfit, hsequence]
          dsimp only
          rw [consolePutEscapeSequence]
          by_cases hc : isEscapePart c = true
          · rw [if_pos hc, partsFit_part hc]
            by_cases hroom : pending.length < escapedBuffer
            · rw [if_pos hroom]
              dsimp only
              rw [ih (some (pending ++ [c])) ?_]
              · constructor
                · rintro ⟨-, hopen, hrest⟩
                  exact ⟨hopen _ rfl, hrest⟩
                · rintro ⟨hopen, hrest⟩
                  exact ⟨(by simp [NoOverflow]), fun _ heq => Option.some.inj heq ▸ hopen, hrest⟩
              · rintro _ ⟨⟩
                refine ⟨?_, ?_⟩
                · intro part hpart
                  rcases List.mem_append.mp hpart with hpart | hpart
                  · exact hall part hpart
                  · rwa [List.mem_singleton.mp hpart]
                · rw [List.length_append]
                  exact hroom
            · rw [if_neg hroom]
              refine iff_of_false (fun hnone => hnone.1 _ List.mem_cons_self) ?_
              rintro ⟨⟨hopened, -⟩, -⟩
              rw [List.length_append, List.length_append] at hopened
              change _ + 1 + _ ≤ 64 at hopened
              change ¬pending.length < 64 at hroom
              omega
          · rw [if_neg hc, partsFit_end (Bool.eq_false_iff.mpr hc) hescape hlength]
            by_cases hroom : pending.length + 1 < escapedBuffer
            · rw [if_pos hroom]
              dsimp only
              rw [consoleUnescape_noOverflow hall (Bool.eq_false_iff.mpr hc), ih none (by simp)]
              have hshort : pending.length ≤ 62 := by
                change pending.length + 1 < 64 at hroom
                omega
              constructor
              · rintro ⟨hcount, -, hrest⟩
                exact ⟨⟨hshort, hcount⟩, hrest⟩
              · rintro ⟨⟨-, hcount⟩, hrest⟩
                exact ⟨hcount, (by simp), hrest⟩
            · rw [if_neg hroom]
              refine iff_of_false (fun hnone => hnone.1 _ List.mem_cons_self) ?_
              rintro ⟨⟨hshort, -⟩, -⟩
              change ¬pending.length + 1 < 64 at hroom
              omega

end Streams

/-! ## Calls -/

section Calls

variable {size : ScreenDimensions} {palette : Palette} {screen : Screen}

theorem printActions_eq (escaped : Option Bytes) (texts : List Bytes) :
    printActions escaped texts = (textActions escaped texts.flatten).1 := by
  induction texts generalizing escaped with
  | nil => rfl
  | cons text texts ih => rw [printActions, ih, List.flatten_cons, textActions_append]

theorem fillCells_fault {row first stop : Int} {color : Option Color} {fault : Fault}
    (hfault : fillCells size screen row first stop color = .error fault) :
    fault = .textAccess := by
  rw [fillCells] at hfault
  split_ifs at hfault
  cases hfault
  rfl

theorem putLetter_fault {c : UInt8} {fault : Fault}
    (hfault : putLetter size screen c = .error fault) : fault = .textAccess := by
  have hfilled : ∀ {first stop : Int} {after : Screen → Screen},
      (fillCells size screen screen.curRow first stop none >>= fun filled => .ok (after filled)) =
        Except.error fault → fault = .textAccess := by
    intro first stop after herror
    rcases bind_eq_error.mp herror with hfill | ⟨_, -, hend⟩
    · exact fillCells_fault hfill
    · cases hend
  rw [putLetter] at hfault
  by_cases hnewline : c = newline
  · cases (if_pos hnewline).symm.trans hfault
  by_cases hreturn : c = carriageReturn
  · rw [if_neg hnewline, if_pos hreturn] at hfault
    cases hfault
  by_cases htab : c = tab
  · rw [if_neg hnewline, if_neg hreturn, if_pos htab] at hfault
    by_cases hlast : screen.curColumn + (5 - screen.curColumn.tmod 5) ≥ size.columns - 2
    · exact hfilled ((if_pos hlast).symm.trans hfault)
    · exact hfilled ((if_neg hlast).symm.trans hfault)
  rw [if_neg hnewline, if_neg hreturn, if_neg htab] at hfault
  by_cases hin : InConsole size screen.curRow screen.curColumn
  · rw [if_pos hin] at hfault
    by_cases hlast : screen.curColumn + 1 > size.columns - 2
    · simp only [if_pos hlast] at hfault
      split_ifs at hfault
    · simp only [if_neg hlast] at hfault
      split_ifs at hfault
  · rw [if_neg hin] at hfault
    split_ifs at hfault
    cases hfault
    rfl

/-- What is done to the cells of the screen cannot overrun the buffers of a sequence. -/
theorem perform_fault {action : Action} {fault : Fault}
    (hfault : perform size palette screen action = .error fault) :
    action = .overflow fault ∨ fault = .textAccess := by
  cases action with
  | putChar c => exact .inr (putLetter_fault (map_eq_error.mp hfault))
  | clearBelow =>
      rcases bind_eq_error.mp hfault with hfill | ⟨_, -, hend⟩
      · exact .inr (fillCells_fault hfill)
      · split_ifs at hend
        cases hend
        exact .inr rfl
  | clearLine mode =>
      rw [perform] at hfault
      split_ifs at hfault
      · exact .inr (fillCells_fault hfault)
      · exact .inr (fillCells_fault hfault)
      · exact .inr (fillCells_fault hfault)
  | overflow other =>
      cases hfault
      exact .inl rfl
  | _ => cases hfault

/-- No sequence overruns its buffer or its parameters, in whatever state the screen is. -/
structure EscapesHeld (texts : List Bytes) : Prop where
  actions : NoOverflow (printActions none texts)
  calls : ∀ (size : ScreenDimensions) (palette : Palette) (screen : Screen) (fault : Fault),
    texts.foldlM (uiConsolePrint size palette) ⟨screen, none⟩ = .error fault → fault = .textAccess

theorem prints_fault {texts : List Bytes} {escaped : Option Bytes}
    (hnone : NoOverflow (printActions escaped texts)) {fault : Fault}
    (hfault : texts.foldlM (uiConsolePrint size palette) ⟨screen, escaped⟩ = .error fault) :
    fault = .textAccess := by
  induction texts generalizing screen escaped with
  | nil => cases hfault
  | cons text texts ih =>
      rw [printActions, noOverflow_append] at hnone
      rw [List.foldlM_cons, uiConsolePrint_eq] at hfault
      rcases bind_eq_error.mp hfault with hfirst | ⟨after, hafter, hrest⟩
      · obtain ⟨taken, htaken, hstep⟩ := run_failure (map_eq_error.mp hfirst)
        rcases perform_fault hstep with haction | hplain
        · exact absurd (haction ▸ mem_of_mem_performed htaken) (hnone.1 fault)
        · exact hplain
      · obtain ⟨next, -, rfl⟩ := map_eq_ok.mp hafter
        exact ih hnone.2 hrest

/-- The buffers are kept to exactly on the streams in which every sequence fits. -/
theorem escape_buffers_held_iff (texts : List Bytes) :
    EscapesHeld texts ↔ SequencesFit texts.flatten := by
  have hactions : NoOverflow (printActions none texts) ↔ SequencesFit texts.flatten := by
    rw [printActions_eq, textActions_noOverflow _ none nofun]
    exact and_iff_right nofun
  constructor
  · exact fun hheld => hactions.mp hheld.actions
  · exact fun hfit => ⟨hactions.mpr hfit, fun _ _ _ _ => prints_fault (hactions.mpr hfit)⟩

end Calls

/-- A sequence of 65 digits, and one with 32 semicolons. -/
theorem long_sequences_overflow :
    ¬EscapesHeld [escape :: List.replicate 65 49] ∧
      ¬EscapesHeld [escape :: 91 :: List.replicate 32 semicolon ++ [109]] := by
  constructor
  · intro hheld
    exact hheld.actions .escapedBuffer (by decide)
  · intro hheld
    exact hheld.actions .parameters (by decide)

end OpenRecovery.Terminal
