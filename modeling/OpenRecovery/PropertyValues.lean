import OpenRecovery.ArgumentFailures
import OpenRecovery.PropertyFiles
import Mathlib

/-!
# The value of a property

What a property file says about a key is stated here without regard to how it is read.  The
search finds it, unless the file has no byte but newlines: then the search has no line to
begin with, and it follows a null pointer.
-/

namespace OpenRecovery.Edify

open Effects

/-! ## The value of a property -/

section Properties

/-- A text without the spaces around it. -/
def strip (text : Bytes) : Bytes :=
  (text.dropWhile isSpace).rdropWhile isSpace

/-- Neither blank nor a comment. -/
def isProperty (line : Bytes) : Bool :=
  strip line ≠ [] ∧ (strip line).head? ≠ some 35

def propertyName (line : Bytes) : Bytes :=
  strip (line.takeWhile (· ≠ 61))

def propertyValue (line : Bytes) : Bytes :=
  strip ((line.dropWhile (· ≠ 61)).drop 1)

/-- The first line that has the key, or has no sign before such a line. -/
def propertyLine (key file : Bytes) : Option Bytes :=
  ((file.splitOn newline).filter isProperty).find? fun line =>
    61 ∉ line ∨ propertyName line = key

/-- A malformed line, or the value of the key, which is empty if no line has it. -/
def propertyOutcome (key file : Bytes) : Except Bytes Bytes :=
  match propertyLine key file with
  | none => .ok []
  | some line => if 61 ∈ line then .ok (propertyValue line) else .error (line.dropWhile isSpace)

theorem dropWhile_eq_nil_iff_strip (line : Bytes) : line.dropWhile isSpace = [] ↔ strip line = [] := by
  constructor
  · intro hnil
    rw [strip, hnil, List.rdropWhile_nil]
  · intro hnil
    cases hline : line.dropWhile isSpace with
    | nil => rfl
    | cons first rest =>
        have hhead := head_dropWhile_isSpace line first (by rw [hline]; rfl)
        rw [strip, hline] at hnil
        have hspace := List.rdropWhile_eq_nil_iff.mp hnil first List.mem_cons_self
        rw [hhead] at hspace
        cases hspace

theorem head?_strip (line : Bytes) : (strip line).head? = (line.dropWhile isSpace).head? := by
  cases hline : line.dropWhile isSpace with
  | nil => rw [(dropWhile_eq_nil_iff_strip line).mp hline]
  | cons first rest =>
      have hne : strip line ≠ [] := fun hnil => by
        rw [(dropWhile_eq_nil_iff_strip line).mpr hnil] at hline
        cases hline
      obtain ⟨tail, htail⟩ := List.rdropWhile_prefix isSpace (line.dropWhile isSpace)
      rw [← hline, ← htail]
      exact (List.head?_append_of_ne_nil _ hne).symm

theorem not_isSpace_sign {byte : UInt8} (hspace : isSpace byte = true) : byte ≠ 61 := by
  rintro rfl
  cases hspace

theorem sign_mem_dropWhile (line : Bytes) : 61 ∈ line.dropWhile isSpace ↔ 61 ∈ line := by
  refine ⟨(List.dropWhile_suffix isSpace).mem, fun hmem => ?_⟩
  rw [← @List.takeWhile_append_dropWhile _ isSpace line] at hmem
  rcases List.mem_append.mp hmem with hspace | hrest
  · exact absurd rfl (not_isSpace_sign (List.mem_takeWhile_imp hspace))
  · exact hrest

theorem takeWhile_dropWhile_sign (line : Bytes) :
    (line.dropWhile isSpace).takeWhile (· ≠ 61) = (line.takeWhile (· ≠ 61)).dropWhile isSpace := by
  induction line with
  | nil => rfl
  | cons byte line ih =>
      by_cases hspace : isSpace byte
      · have hsign := not_isSpace_sign hspace
        rw [List.dropWhile_cons_of_pos hspace, ih, List.takeWhile_cons_of_pos (by simpa using hsign),
          List.dropWhile_cons_of_pos hspace]
      · rw [List.dropWhile_cons_of_neg hspace]
        by_cases hsign : byte = 61
        · subst hsign
          rfl
        · rw [List.takeWhile_cons_of_pos (by simpa using hsign), List.dropWhile_cons_of_neg hspace]

theorem dropWhile_dropWhile_sign (line : Bytes) :
    (line.dropWhile isSpace).dropWhile (· ≠ 61) = line.dropWhile (· ≠ 61) := by
  induction line with
  | nil => rfl
  | cons byte line ih =>
      by_cases hspace : isSpace byte
      · have hsign := not_isSpace_sign hspace
        rw [List.dropWhile_cons_of_pos hspace, ih, List.dropWhile_cons_of_pos (by simpa using hsign)]
      · rw [List.dropWhile_cons_of_neg hspace]

theorem verdictOf_eq (key line : Bytes) :
    verdictOf key line =
      if isProperty line then
        if 61 ∈ line then
          if propertyName line = key then .found (propertyValue line) else .next
        else .malformed (line.dropWhile isSpace)
      else .next := by
  have hname : propertyName line =
      ((line.dropWhile isSpace).takeWhile (· ≠ 61)).rdropWhile isSpace := by
    rw [propertyName, strip, takeWhile_dropWhile_sign]
  have hvalue : propertyValue line = ((((line.dropWhile isSpace).dropWhile (· ≠ 61)).drop
      1).dropWhile isSpace).rdropWhile isSpace := by
    rw [propertyValue, strip, dropWhile_dropWhile_sign]
  rw [verdictOf]
  by_cases hproperty : isProperty line = true
  · obtain ⟨hne, hhash⟩ := of_decide_eq_true hproperty
    rw [if_pos hproperty, if_neg, propertyOf, hname, hvalue]
    · simp only [sign_mem_dropWhile]
    · rintro (hnil | hhead)
      · exact hne ((dropWhile_eq_nil_iff_strip line).mp hnil)
      · exact hhash ((head?_strip line).trans hhead)
  · rw [if_neg hproperty, if_pos]
    by_contra hcontra
    obtain ⟨hne, hhash⟩ := not_or.mp hcontra
    exact hproperty (decide_eq_true ⟨fun hnil => hne ((dropWhile_eq_nil_iff_strip line).mpr hnil),
      fun hhead => hhash ((head?_strip line).symm.trans hhead)⟩)

/-- The search among any lines, of which the empty ones do not count. -/
theorem findProperty_filter (key : Bytes) (lines : List Bytes) :
    findProperty key (lines.filter (· ≠ [])) =
      match (lines.filter isProperty).find? fun line => 61 ∉ line ∨ propertyName line = key with
      | none => .ok none
      | some line =>
          if 61 ∈ line then .ok (some (propertyValue line)) else .error (line.dropWhile isSpace) := by
  induction lines with
  | nil => rfl
  | cons line lines ih =>
      by_cases hempty : line = []
      · subst hempty
        exact ih
      · rw [List.filter_cons_of_pos (by simpa using hempty), findProperty_cons, verdictOf_eq]
        by_cases hproperty : isProperty line = true
        · rw [if_pos hproperty, List.filter_cons_of_pos hproperty]
          by_cases hsign : 61 ∈ line
          · by_cases hname : propertyName line = key
            · rw [if_pos hsign, if_pos hname, List.find?_cons_of_pos (by simp [hname])]
              exact (if_pos hsign).symm
            · rw [if_pos hsign, if_neg hname, List.find?_cons_of_neg (by simp [hname, hsign])]
              exact ih
          · rw [if_neg hsign, List.find?_cons_of_pos (by simp [hsign])]
            exact (if_neg hsign).symm
        · rw [if_neg hproperty, List.filter_cons_of_neg hproperty]
          exact ih

theorem findProperty_eq {file : Bytes} (key : Bytes) (hfile : 0 ∉ file) :
    (findProperty key (linesOf file)).map (·.getD []) = propertyOutcome key file := by
  rw [linesOf_eq hfile, findProperty_filter, propertyOutcome, propertyLine]
  cases ((file.splitOn newline).filter isProperty).find? fun line =>
      decide (61 ∉ line ∨ propertyName line = key) with
  | none => rfl
  | some line =>
      dsimp only
      split
      · rfl
      · rfl

/-- Only newlines make no line. -/
theorem linesOf_eq_nil_iff {file : Bytes} (hfile : 0 ∉ file) :
    linesOf file = [] ↔ ¬∃ byte ∈ file, byte ≠ newline := by
  rw [linesOf_newlines hfile]
  cases hdrop : file.dropWhile (· = newline) with
  | nil =>
      refine ⟨fun _ => ?_, fun _ => rfl⟩
      rintro ⟨byte, hbyte, hne⟩
      exact hne (of_decide_eq_true (List.dropWhile_eq_nil_iff.mp hdrop byte hbyte))
  | cons first rest =>
      have hfirst : first ≠ newline := by
        have hnot := List.head?_dropWhile_not (fun byte : UInt8 => decide (byte = newline)) file
        rw [hdrop] at hnot
        exact of_decide_eq_false hnot
      have hmem : first ∈ file :=
        (List.dropWhile_suffix (· = newline)).mem (hdrop ▸ List.mem_cons_self)
      have hzero : 0 ∉ first :: rest := hdrop ▸ notMem_dropWhile hfile _
      constructor
      · intro hnil
        rw [linesOf_eq hzero, List.filter_eq_nil_iff] at hnil
        obtain ⟨head, tail, hsplit⟩ := List.exists_cons_of_ne_nil
          (List.splitOnP_ne_nil (· == newline) rest)
        have hmem : first :: head ∈ (first :: rest).splitOn newline := by
          change first :: head ∈ (first :: rest).splitOnP (· == newline)
          rw [List.splitOnP_cons_eq_if_modifyHead, if_neg (by simpa using hfirst), hsplit]
          exact List.mem_cons_self
        exact absurd (hnil _ hmem) (by simp)
      · intro hnone
        exact absurd ⟨first, hmem, hfirst⟩ hnone

/-! ## The call -/

/-- An argument that is a string. -/
def textArg (text : Bytes) : UpdaterArg :=
  ⟨literal text [], 0, 0⟩

section Outcomes

variable {ε Op : Type} {Reply : Op → Type} {α β : Type}

/-- How an evaluation ends if every request gets a fixed reply. -/
def outcomeOf (reply : (op : EdifyOp Op) → EdifyOp.Reply Reply op) (program : EvalT ε Op Reply α)
    (state : State) : Except ε (α × State) :=
  (((program.run state).run).answers reply).2

variable (reply : (op : EdifyOp Op) → EdifyOp.Reply Reply op)

theorem answers_bind (program : Prog (EdifyOp Op) (EdifyOp.Reply Reply) α)
    (rest : α → Prog (EdifyOp Op) (EdifyOp.Reply Reply) β) :
    ((program >>= rest).answers reply).2 = ((rest (program.answers reply).2).answers reply).2 := by
  induction program with
  | pure value => rfl
  | request op next ih => exact ih (reply op)

theorem outcomeOf_bind (program : EvalT ε Op Reply α) (rest : α → EvalT ε Op Reply β)
    (state : State) :
    outcomeOf reply (program >>= rest) state =
      (outcomeOf reply program state).bind fun pair => outcomeOf reply (rest pair.1) pair.2 := by
  rw [outcomeOf, StateT.run_bind, ExceptT.run_bind, answers_bind, outcomeOf]
  cases (((program.run state).run).answers reply).2 with
  | error error => rfl
  | ok pair => rfl

theorem outcomeOf_request (op : EdifyOp Op) (state : State) :
    outcomeOf reply (request op : EvalT ε Op Reply _) state = .ok (reply op, state) := rfl

end Outcomes

theorem outcomeOf_act {α : Type} (reply : (op : EdifyOp UpdaterOp) → EdifyOp.Reply UpdaterOp.Reply op)
    (program : Update α) (state : State) :
    outcomeOf reply (act program) state = (outcomeOf reply program state).mapError Fault.stuck := by
  change ((Prog.answers reply (_ >>= _)).2 : Except Fault (α × State)) = _
  rw [answers_bind]
  rfl

/-- The file can be read. -/
structure Supplies (reply : (op : EdifyOp UpdaterOp) → EdifyOp.Reply UpdaterOp.Reply op)
    (filename file : Bytes) : Prop where
  stat : ∃ st, reply (.other (.sys (.stat (pathOf filename)))) = some st ∧ st.size = file.length
  openRead : reply (.other (.sys (.openRead (pathOf filename)))) = true
  read : reply (.other (.sys (.read (pathOf filename) 0 file.length))) = some file

/-- What the call leaves: the value, or an error message. -/
def propertyReply (name filename : Bytes) (state : State) :
    Except Bytes Bytes → Option Value × State
  | .ok value => (some (.string value), state)
  | .error line =>
      let message := name ++ ascii ": malformed line \"" ++ line ++ ascii "\": " ++ filename ++
        ascii " not a prop file?"
      (none, { state with errmsg := some (message.take 4095) })

variable {platform : Platform}
variable {reply : (op : EdifyOp UpdaterOp) → EdifyOp.Reply UpdaterOp.Reply op}
variable {name filename key file : Bytes}

theorem readPropertyFile_outcome (state : State) (hmalloc : platform.lib.malloc (file.length + 1))
    (hsupplies : Supplies reply filename file) :
    outcomeOf reply (readPropertyFile platform name filename file.length) state =
      .ok (some file, state) := by
  rw [readPropertyFile, if_pos hmalloc, outcomeOf_bind, sys, outcomeOf_request,
    hsupplies.openRead]
  change outcomeOf reply (request _ >>= _) state = _
  rw [outcomeOf_bind, outcomeOf_request, hsupplies.read]
  change outcomeOf reply (if file.length = file.length then _ else _) state = _
  rw [if_pos rfl]
  rfl

/-- With the file at hand the call is the search. -/
theorem fileGetPropFn_outcome (state : State) (hmalloc : platform.lib.malloc (file.length + 1))
    (hsupplies : Supplies reply filename file) (hsize : file.length ≤ 65536) :
    outcomeOf reply (fileGetPropFn platform name [textArg filename, textArg key]) state =
      (outcomeOf reply (searchProperty name filename key file) state).mapError Fault.stuck := by
  obtain ⟨st, hstat, hst⟩ := hsupplies.stat
  change outcomeOf reply (act (sys (.stat (pathOf filename)) >>= _)) state = _
  rw [outcomeOf_act, outcomeOf_bind, sys, outcomeOf_request, hstat]
  change (outcomeOf reply (if 65536 < st.size then _ else _) state).mapError _ = _
  rw [hst, if_neg (Nat.not_lt.mpr hsize)]
  change (outcomeOf reply (readPropertyFile platform name filename file.length >>= _)
    state).mapError _ = _
  rw [outcomeOf_bind, readPropertyFile_outcome state hmalloc hsupplies]
  rfl

/-- The search with pointers and the whole call find the value of the key. -/
structure ReadsProperty (platform : Platform)
    (reply : (op : EdifyOp UpdaterOp) → EdifyOp.Reply UpdaterOp.Reply op)
    (name filename key file : Bytes) (state : State) : Prop where
  search : ∃ found, searchFile key file = .ok found ∧
    found.map (·.getD []) = propertyOutcome key file
  call : outcomeOf reply (fileGetPropFn platform name [textArg filename, textArg key]) state =
    .ok (propertyReply name filename state (propertyOutcome key file))

theorem searchProperty_outcome (state : State) (hfile : 0 ∉ file) (hline : linesOf file ≠ []) :
    outcomeOf reply (searchProperty name filename key file) state =
      .ok (propertyReply name filename state (propertyOutcome key file)) := by
  have hfind := findProperty_eq key hfile
  cases hlines : linesOf file with
  | nil => exact absurd hlines hline
  | cons line lines =>
      rw [hlines] at hfind
      rw [searchProperty, hlines, ← hfind]
      dsimp only
      cases findProperty key (line :: lines) with
      | error text => rfl
      | ok value => rfl

/-- A property file is read as it should be exactly if it has a byte that is no newline. -/
theorem file_getprop_reads_iff (state : State) (hmalloc : platform.lib.malloc (file.length + 1))
    (hsupplies : Supplies reply filename file) (hsize : file.length ≤ 65536) (hfile : 0 ∉ file)
    (hkey : 0 ∉ key) :
    ReadsProperty platform reply name filename key file state ↔ ∃ byte ∈ file, byte ≠ newline := by
  have hsearch := searchFile_eq hfile hkey
  constructor
  · rintro ⟨⟨found, hfound, -⟩, -⟩
    by_contra hnone
    rw [if_pos ((linesOf_eq_nil_iff hfile).mpr hnone), hfound] at hsearch
    cases hsearch
  · intro hbyte
    have hline : linesOf file ≠ [] := fun hnil => (linesOf_eq_nil_iff hfile).mp hnil hbyte
    refine ⟨⟨_, hsearch.trans (if_neg hline), findProperty_eq key hfile⟩, ?_⟩
    rw [fileGetPropFn_outcome state hmalloc hsupplies hsize, searchProperty_outcome state hfile hline]
    rfl

/-- A system in which every file has these contents. -/
def oneFileReply (file : Bytes) (op : EdifyOp UpdaterOp) : EdifyOp.Reply UpdaterOp.Reply op :=
  (quietHandle sampleEnv op { emptyWorld with files := fun _ => some ⟨file, 0, 0, 0⟩ }).1

theorem oneFileReply_supplies (filename file : Bytes) :
    Supplies (oneFileReply file) filename file := by
  refine ⟨⟨_, rfl, rfl⟩, rfl, ?_⟩
  change some ((file.drop 0).take file.length) = some file
  rw [List.drop_zero, List.take_length]

theorem file_getprop_reads_iff_version :
    ReadsProperty samplePlatform (oneFileReply (ascii "# v\nversion = 2 \n"))
      (ascii "file_getprop") (ascii "build.prop") (ascii "version") (ascii "# v\nversion = 2 \n")
      sampleState :=
  (file_getprop_reads_iff sampleState rfl (oneFileReply_supplies _ _) (by decide) (by decide)
    (by decide)).mpr ⟨35, by decide, by decide⟩

/-- In an empty file there is no line to begin with. -/
theorem file_getprop_empty_file :
    Supplies (oneFileReply []) (ascii "empty.prop") [] ∧
      outcomeOf (oneFileReply []) (fileGetPropFn samplePlatform (ascii "file_getprop")
        [textArg (ascii "empty.prop"), textArg (ascii "version")]) sampleState =
          .error (.stuck .outOfBounds) ∧
      ¬ReadsProperty samplePlatform (oneFileReply []) (ascii "file_getprop") (ascii "empty.prop")
        (ascii "version") [] sampleState := by
  refine ⟨oneFileReply_supplies _ _, rfl, ?_⟩
  rintro ⟨⟨found, hfound, -⟩, -⟩
  cases hfound

end Properties

end OpenRecovery.Edify
