import OpenRecovery.ArgsRestart
import OpenRecovery.Updater
import OpenRecovery.Traces
import Mathlib

/-!
# Reading a property file

`file_getprop` works on the buffer it has read the file into: `strtok` ends every line with
a zero byte, and so does the trimming of the key and of the value, with pointers that may
stand before the text that is trimmed.  The search is written here with these pointers.  It
finds what `searchProperty` finds, and that is the value of the key.
-/

namespace OpenRecovery.Edify

open Effects

/-! ## Pointers into a buffer -/

def loadByte (buffer : Bytes) (pointer : Int) : Except Stuck UInt8 :=
  if pointer < 0 then .error .outOfBounds
  else
    match buffer[pointer.toNat]? with
    | some byte => .ok byte
    | none => .error .outOfBounds

def storeByte (buffer : Bytes) (pointer : Int) (byte : UInt8) : Except Stuck Bytes :=
  if 0 ≤ pointer ∧ pointer < buffer.length then .ok (buffer.set pointer.toNat byte)
  else .error .outOfBounds

/-- `while (accepts(*pointer)) ++pointer`, where `rest` is the buffer from the pointer on. -/
def skipForward (accepts : UInt8 → Bool) : (rest : Bytes) → (pointer : Nat) → Except Stuck Nat
  | [], _ => .error .outOfBounds
  | byte :: rest, pointer =>
      if accepts byte then skipForward accepts rest (pointer + 1) else .ok pointer

/-- `while (stop > start && isspace(*stop)) --stop`, for at most `count` bytes. -/
def skipBack (buffer : Bytes) (start : Int) : (count : Nat) → (stop : Int) → Except Stuck Int
  | 0, stop => .ok stop
  | count + 1, stop =>
      if start < stop then do
        let byte ← loadByte buffer stop
        if isSpace byte then skipBack buffer start count (stop - 1) else .ok stop
      else .ok stop

/-- End a text with a zero byte behind its last byte that is not a space. -/
def trimEnd (buffer : Bytes) (start stop : Int) : Except Stuck Bytes := do
  let stop ← skipBack buffer start (stop - start).toNat stop
  storeByte buffer (stop + 1) 0

/-- A line from `strtok`, or a null pointer, the buffer, and the pointer for the next call. -/
def nextLine (buffer : Bytes) : Option Nat → Except Stuck (Option Nat × Bytes × Option Nat)
  | none => .ok (none, buffer, none)
  | some start => do
      let line ← skipForward (· = newline) (buffer.drop start) start
      let first ← loadByte buffer line
      if first = 0 then .ok (none, buffer, none)
      else do
        let stop ← skipForward (fun byte => byte ≠ 0 && byte ≠ newline) (buffer.drop line) line
        let last ← loadByte buffer stop
        if last = 0 then .ok (some line, buffer, none)
        else do
          let buffer ← storeByte buffer stop 0
          .ok (some line, buffer, some (stop + 1))

/-- What is known after a line. -/
inductive Verdict where
  | next
  | malformed (line : Bytes)
  | found (value : Bytes)
  deriving DecidableEq

/-- The value behind the sign, without spaces around it. -/
def readValue (buffer : Bytes) (equal : Nat) : Except Stuck (Bytes × Bytes) := do
  let start ← skipForward (fun byte => byte ≠ 0 && isSpace byte) (buffer.drop (equal + 1))
    (equal + 1)
  let buffer ← trimEnd buffer start (start + (cString (buffer.drop start)).length - 1)
  .ok (cString (buffer.drop start), buffer)

/-- A line that begins with neither a space nor a comment. -/
def examineProperty (key buffer : Bytes) (line : Nat) : Except Stuck (Verdict × Bytes) := do
  let equal ← skipForward (fun byte => byte ≠ 0 && byte ≠ 61) (buffer.drop line) line
  let byte ← loadByte buffer equal
  if byte = 0 then .ok (.malformed (cString (buffer.drop line)), buffer)
  else do
    let buffer ← trimEnd buffer line (equal - 1)
    if cString (buffer.drop line) ≠ cString key then .ok (.next, buffer)
    else do
      let (value, buffer) ← readValue buffer equal
      .ok (.found value, buffer)

/-- The body of the loop over the lines. -/
def examineLine (key buffer : Bytes) (line : Nat) : Except Stuck (Verdict × Bytes) := do
  let line ← skipForward (fun byte => byte ≠ 0 && isSpace byte) (buffer.drop line) line
  let first ← loadByte buffer line
  if first = 0 ∨ first = 35 then .ok (.next, buffer) else examineProperty key buffer line

/-- The loop, whose body has a line whenever it begins again. -/
def searchLines (key : Bytes) :
    (rounds : Nat) → (buffer : Bytes) → (line : Nat) → (save : Option Nat) →
      Except Stuck (Except Bytes (Option Bytes))
  | 0, _, _, _ => .error .hang
  | rounds + 1, buffer, line, save => do
      let (verdict, buffer) ← examineLine key buffer line
      match verdict with
      | .malformed text => .ok (.error text)
      | .found value => .ok (.ok (some value))
      | .next => do
          let (next, buffer, save) ← nextLine buffer save
          match next with
          | none => .ok (.ok none)
          | some line => searchLines key rounds buffer line save

/-- The search in a file.  The first line is not asked whether it is a null pointer. -/
def searchFile (key data : Bytes) : Except Stuck (Except Bytes (Option Bytes)) := do
  let (line, buffer, save) ← nextLine (data ++ [0]) (some 0)
  match line with
  | none => .error .outOfBounds
  | some line => searchLines key (data.length + 1) buffer line save

/-! ## What the pointers do -/

section Moves

variable {buffer front back : Bytes} {byte : UInt8} {pointer : Int}

theorem loadByte_eq (hbuffer : buffer = front ++ byte :: back) (hpointer : pointer = front.length) :
    loadByte buffer pointer = .ok byte := by
  subst hbuffer hpointer
  rw [loadByte, if_neg (by omega), Int.toNat_natCast, List.getElem?_append_right le_rfl,
    Nat.sub_self]
  rfl

theorem storeByte_eq (hbuffer : buffer = front ++ byte :: back) (hpointer : pointer = front.length)
    (value : UInt8) : storeByte buffer pointer value = .ok (front ++ value :: back) := by
  subst hbuffer hpointer
  rw [storeByte, if_pos, Int.toNat_natCast, List.set_append_right _ _ le_rfl, Nat.sub_self]
  · rfl
  · simp only [List.length_append, List.length_cons]
    omega

theorem skipForward_eq {accepts : UInt8 → Bool} {word : Bytes}
    (hword : ∀ byte ∈ word, accepts byte) (hbyte : accepts byte = false) (rest : Bytes)
    (start : Nat) :
    skipForward accepts (word ++ byte :: rest) start = .ok (start + word.length) := by
  induction word generalizing start with
  | nil =>
      rw [List.nil_append, skipForward, if_neg (Bool.eq_false_iff.mp hbyte)]
      rfl
  | cons head word ih =>
      rw [List.cons_append, skipForward, if_pos (hword head List.mem_cons_self),
        ih (fun other hother => hword other (List.mem_cons_of_mem _ hother)), List.length_cons,
        Nat.add_assoc, Nat.add_comm 1]

/-- The text between the pointers is a word with spaces behind it. -/
theorem skipBack_eq {word spaces : Bytes} {start : Int} (hstart : start = front.length)
    (hbuffer : buffer = front ++ (word ++ spaces) ++ back)
    (hspaces : ∀ byte ∈ spaces, isSpace byte) (hword : ∀ byte ∈ word.getLast?, isSpace byte = false)
    (hempty : word = [] → spaces = []) :
    skipBack buffer start ((word ++ spaces).length - 1) (start + (word ++ spaces).length - 1) =
      .ok (start + word.length - 1) := by
  induction spaces using List.reverseRecOn generalizing back with
  | nil =>
      rw [List.append_nil] at hbuffer ⊢
      rcases List.eq_nil_or_concat' word with rfl | ⟨init, last, rfl⟩
      · rfl
      · have hlast : isSpace last = false := hword last (by simp)
        cases hlength : (init ++ [last]).length - 1 with
        | zero => rw [skipBack]
        | succ count =>
            have hload : loadByte buffer (start + ((init ++ [last]).length : Nat) - 1) =
                .ok last := by
              refine @loadByte_eq _ (front ++ init) back _ _ ?_ ?_
              · rw [hbuffer]
                simp
              · simp only [List.length_append, List.length_singleton, hstart]
                omega
            rw [skipBack, hload]
            split
            · change (if isSpace last then _ else _) = _
              rw [if_neg (Bool.eq_false_iff.mp hlast)]
            · rfl
  | append_singleton spaces last ih =>
      have hne : word ≠ [] := by
        intro hword
        cases List.append_eq_nil_iff.mp (hempty hword) with
        | intro _ hlast => cases hlast
      have hpos := List.length_pos_of_ne_nil hne
      have hload : loadByte buffer (start + ((word ++ (spaces ++ [last])).length : Nat) - 1) =
          .ok last := by
        refine @loadByte_eq _ (front ++ (word ++ spaces)) back _ _ ?_ ?_
        · rw [hbuffer]
          simp
        · simp only [List.length_append, List.length_singleton, hstart]
          omega
      have hcount : (word ++ (spaces ++ [last])).length - 1 = (word ++ spaces).length - 1 + 1 := by
        simp only [List.length_append, List.length_singleton]
        omega
      have hrest := @ih (last :: back) (by rw [hbuffer]; simp)
        (fun byte hbyte => hspaces byte (List.mem_append_left _ hbyte))
        (fun hword => absurd hword hne)
      rw [hcount, skipBack, hload, if_pos]
      · change (if isSpace last then _ else _) = _
        rw [if_pos (hspaces last (List.mem_append_right _ (List.mem_singleton_self _))), ← hrest]
        congr 1
        simp only [List.length_append, List.length_singleton]
        omega
      · simp only [List.length_append, List.length_singleton]
        omega

theorem trimEnd_eq {word spaces : Bytes} {start stop : Int} (hstart : start = front.length)
    (hbuffer : buffer = front ++ (word ++ spaces) ++ back)
    (hspaces : ∀ byte ∈ spaces, isSpace byte) (hword : ∀ byte ∈ word.getLast?, isSpace byte = false)
    (hempty : word = [] → spaces = []) (hback : back ≠ [])
    (hstop : stop = start + (word ++ spaces).length - 1) :
    trimEnd buffer start stop = .ok (front ++ word ++ 0 :: (spaces ++ back).tail) := by
  have hcount : (stop - start).toNat = (word ++ spaces).length - 1 := by omega
  cases hnext : spaces ++ back with
  | nil => exact absurd (List.append_eq_nil_iff.mp hnext).2 hback
  | cons byte after =>
      rw [trimEnd, hcount, hstop, skipBack_eq hstart hbuffer hspaces hword hempty]
      refine @storeByte_eq buffer _ _ byte _ ?_ ?_ 0
      · rw [hbuffer, List.append_assoc, List.append_assoc, hnext, List.append_assoc]
        rfl
      · rw [hstart, List.length_append]
        omega

/-- A text that does not begin with a space is a word and the spaces behind it. -/
theorem trailing_spaces {text : Bytes} (hhead : ∀ byte ∈ text.head?, isSpace byte = false) :
    (∀ byte ∈ text.rtakeWhile isSpace, isSpace byte) ∧
      (∀ byte ∈ (text.rdropWhile isSpace).getLast?, isSpace byte = false) ∧
      (text.rdropWhile isSpace = [] → text.rtakeWhile isSpace = []) := by
  refine ⟨fun byte hbyte => List.mem_rtakeWhile_imp hbyte, ?_, ?_⟩
  · intro byte hbyte
    obtain ⟨init, hinit⟩ := List.getLast?_eq_some_iff.mp hbyte
    have hne : text.rdropWhile isSpace ≠ [] := by
      rw [hinit]
      simp
    have hlast := List.rdropWhile_last_not isSpace text hne
    simp only [hinit, List.getLast_append_singleton] at hlast
    exact eq_false_of_ne_true hlast
  · intro hnil
    have hall := List.rdropWhile_eq_nil_iff.mp hnil
    cases text with
    | nil => rfl
    | cons byte text =>
        have hspace := hall byte List.mem_cons_self
        rw [hhead byte rfl] at hspace
        cases hspace

/-- A text that does not begin with a space is cut behind its last byte that is not one. -/
theorem trimEnd_text {text : Bytes} {start stop : Int} (hstart : start = front.length)
    (hbuffer : buffer = front ++ (text ++ back)) (hhead : ∀ byte ∈ text.head?, isSpace byte = false)
    (hback : back ≠ []) (hstop : stop = start + text.length - 1) :
    trimEnd buffer start stop = .ok (front ++ text.rdropWhile isSpace ++
      0 :: (text.rtakeWhile isSpace ++ back).tail) := by
  have htext := @List.rdropWhile_append_rtakeWhile _ isSpace text
  obtain ⟨hspaces, hword, hempty⟩ := trailing_spaces hhead
  refine trimEnd_eq hstart ?_ hspaces hword hempty hback ?_
  · rw [htext, hbuffer, List.append_assoc]
  · rw [htext, hstop]

theorem drop_front {rest : Bytes} (hbuffer : buffer = front ++ rest) {count : Nat}
    (hcount : count = front.length) : buffer.drop count = rest := by
  rw [hbuffer, hcount, List.drop_left]

/-- What the body of the loop has to say about a line without spaces at its beginning. -/
def propertyOf (key line : Bytes) : Verdict :=
  if 61 ∈ line then
    if (line.takeWhile (· ≠ 61)).rdropWhile isSpace = key then
      .found ((((line.dropWhile (· ≠ 61)).drop 1).dropWhile isSpace).rdropWhile isSpace)
    else .next
  else .malformed line

def verdictOf (key line : Bytes) : Verdict :=
  let line := line.dropWhile isSpace
  if line = [] ∨ line.head? = some 35 then .next else propertyOf key line

theorem cString_at {text rest : Bytes} (hbuffer : buffer = front ++ (text ++ 0 :: rest))
    {count : Nat} (hcount : count = front.length) (htext : 0 ∉ text) :
    cString (buffer.drop count) = text := by
  rw [drop_front hbuffer hcount,
    cString_append fun byte hbyte => ne_of_mem_of_not_mem hbyte htext]

/-- The pointer stops at the first byte that is not accepted, or at the zero byte. -/
theorem skipForward_text {accepts : UInt8 → Bool} {text : Bytes} (htext : 0 ∉ text)
    (rest : Bytes) (start : Nat) :
    skipForward (fun byte => byte ≠ 0 && accepts byte) (text ++ 0 :: rest) start =
      .ok (start + (text.takeWhile accepts).length) := by
  have hword : ∀ byte ∈ text.takeWhile accepts, (byte ≠ 0 && accepts byte) = true := by
    intro byte hbyte
    have hne : byte ≠ 0 := by
      rintro rfl
      exact htext ((List.takeWhile_prefix accepts).mem hbyte)
    rw [List.mem_takeWhile_imp hbyte, Bool.and_true, decide_eq_true hne]
  have hsplit : text ++ 0 :: rest =
      text.takeWhile accepts ++ (text.dropWhile accepts ++ 0 :: rest) := by
    rw [← List.append_assoc, List.takeWhile_append_dropWhile]
  rw [hsplit]
  cases hdrop : text.dropWhile accepts with
  | nil => exact skipForward_eq hword rfl rest start
  | cons byte text' =>
      refine skipForward_eq hword ?_ (text' ++ 0 :: rest) start
      have hnot := List.head_dropWhile_not accepts (hdrop ▸ List.cons_ne_nil byte text')
      simp only [hdrop, List.head_cons] at hnot
      rw [hnot, Bool.and_false]

theorem head_dropWhile_isSpace (text : Bytes) :
    ∀ byte ∈ (text.dropWhile isSpace).head?, isSpace byte = false := by
  intro byte hbyte
  obtain ⟨rest, hrest⟩ := List.head?_eq_some_iff.mp hbyte
  have hnot := List.head_dropWhile_not isSpace (hrest ▸ List.cons_ne_nil byte rest)
  simpa only [hrest, List.head_cons] using hnot

theorem notMem_dropWhile {text : Bytes} (htext : 0 ∉ text) (accepts : UInt8 → Bool) :
    0 ∉ text.dropWhile accepts :=
  fun hmem => htext ((List.dropWhile_suffix accepts).mem hmem)

theorem notMem_takeWhile {text : Bytes} (htext : 0 ∉ text) (accepts : UInt8 → Bool) :
    0 ∉ text.takeWhile accepts :=
  fun hmem => htext ((List.takeWhile_prefix accepts).mem hmem)

theorem notMem_rdropWhile {text : Bytes} (htext : 0 ∉ text) (accepts : UInt8 → Bool) :
    0 ∉ text.rdropWhile accepts :=
  fun hmem => htext ((List.rdropWhile_prefix accepts text).mem hmem)

/-- The pointer is moved to the first byte of a text that is not accepted. -/
theorem skip_eq {text tail : Bytes} {start : Nat} (accepts : UInt8 → Bool) (htext : 0 ∉ text)
    (hbuffer : buffer = front ++ (text ++ 0 :: tail)) (hstart : start = front.length) :
    ∃ front' : Bytes, skipForward (fun byte => byte ≠ 0 && accepts byte) (buffer.drop start) start =
        .ok front'.length ∧ front' = front ++ text.takeWhile accepts ∧
      buffer = front' ++ (text.dropWhile accepts ++ 0 :: tail) := by
  refine ⟨front ++ text.takeWhile accepts, ?_, rfl, ?_⟩
  · rw [drop_front hbuffer hstart, skipForward_text htext, List.length_append, hstart]
  · rw [hbuffer, List.append_assoc, ← List.append_assoc (text.takeWhile accepts),
      List.takeWhile_append_dropWhile]

theorem readValue_eq {text tail : Bytes} {equal : Nat} (htext : 0 ∉ text)
    (hbuffer : buffer = front ++ (text ++ 0 :: tail)) (hequal : equal + 1 = front.length) :
    ∃ buffer', readValue buffer equal =
      .ok ((text.dropWhile isSpace).rdropWhile isSpace, buffer') := by
  obtain ⟨front', hskip, -, hsplit⟩ := skip_eq isSpace htext hbuffer hequal
  have hvalue := notMem_dropWhile htext isSpace
  obtain ⟨rest, htrim⟩ : ∃ rest, trimEnd buffer front'.length
      (front'.length + (text.dropWhile isSpace).length - 1) =
        .ok (front' ++ (text.dropWhile isSpace).rdropWhile isSpace ++ 0 :: rest) :=
    ⟨_, trimEnd_text rfl hsplit (head_dropWhile_isSpace text) (List.cons_ne_nil 0 tail) rfl⟩
  refine ⟨front' ++ (text.dropWhile isSpace).rdropWhile isSpace ++ 0 :: rest, ?_⟩
  rw [readValue, hskip]
  change (trimEnd buffer _ (_ + ((cString (buffer.drop front'.length)).length : Int) - 1) >>= _) = _
  rw [cString_at hsplit rfl hvalue, htrim]
  change Except.ok (cString (List.drop front'.length _), _) = _
  rw [cString_at (List.append_assoc ..) rfl (notMem_rdropWhile hvalue isSpace)]

theorem cString_key {key : Bytes} (hkey : 0 ∉ key) : cString key = key :=
  List.takeWhile_eq_self_iff.mpr fun _ hbyte =>
    decide_eq_true (ne_of_mem_of_not_mem hbyte hkey)

/-- The key is ended in place, and the value stays where it is. -/
theorem trimKey_eq {name rest : Bytes} {line equal : Nat}
    (hbuffer : buffer = front ++ (name ++ 61 :: rest)) (hline : line = front.length)
    (hequal : equal = front.length + name.length)
    (hhead : ∀ byte ∈ name.head?, isSpace byte = false) :
    ∃ mid : Bytes, trimEnd buffer line (equal - 1) =
        .ok (front ++ name.rdropWhile isSpace ++ 0 :: (mid ++ rest)) ∧
      (front ++ name.rdropWhile isSpace ++ 0 :: mid).length = equal + 1 := by
  have hname := congrArg List.length (@List.rdropWhile_append_rtakeWhile _ isSpace name)
  rw [List.length_append] at hname
  have htrim := @trimEnd_text buffer front (61 :: rest) name line (equal - 1) (by rw [hline])
    hbuffer hhead (List.cons_ne_nil _ _) (by rw [hline, hequal, Nat.cast_add])
  cases hspaces : name.rtakeWhile isSpace with
  | nil =>
      rw [hspaces] at htrim hname
      refine ⟨[], htrim, ?_⟩
      simp only [List.length_append, List.length_cons, List.length_nil] at hname ⊢
      omega
  | cons space spaces =>
      rw [hspaces] at htrim hname
      refine ⟨spaces ++ [61], ?_, ?_⟩
      · rw [htrim]
        simp
      · simp only [List.length_append, List.length_cons, List.length_nil] at hname ⊢
        omega

theorem examineProperty_eq {key text tail : Bytes} {line : Nat} (htext : 0 ∉ text)
    (hkey : 0 ∉ key) (hbuffer : buffer = front ++ (text ++ 0 :: tail)) (hline : line = front.length)
    (hhead : ∀ byte ∈ text.head?, isSpace byte = false) :
    ∃ buffer', examineProperty key buffer line = .ok (propertyOf key text, buffer') ∧
      (propertyOf key text = .next → ∃ front', buffer' = front' ++ tail ∧
        front'.length = front.length + text.length + 1) := by
  obtain ⟨front', hskip, hfront, hsplit⟩ := skip_eq (· ≠ 61) htext hbuffer hline
  have hpart := @List.takeWhile_append_dropWhile _ (· ≠ (61 : UInt8)) text
  have hname := notMem_takeWhile htext (· ≠ 61)
  have hequal : front'.length = front.length + (text.takeWhile (· ≠ 61)).length := by
    rw [hfront, List.length_append]
  rw [examineProperty, hskip, propertyOf]
  cases hdrop : text.dropWhile (· ≠ 61) with
  | nil =>
      have hnone : 61 ∉ text := fun hmem =>
        of_decide_eq_true (List.dropWhile_eq_nil_iff.mp hdrop 61 hmem) rfl
      rw [hdrop] at hsplit
      refine ⟨buffer, ?_, ?_⟩
      · change (loadByte buffer front'.length >>= _) = _
        rw [loadByte_eq hsplit rfl, if_neg hnone]
        change Except.ok (Verdict.malformed (cString (buffer.drop line)), buffer) = _
        rw [cString_at hbuffer hline htext]
      · rw [if_neg hnone]
        exact nofun
  | cons sign value =>
      obtain rfl : sign = 61 := by
        have hnot := List.head?_dropWhile_not (fun byte : UInt8 => decide (byte ≠ 61)) text
        rw [hdrop] at hnot
        exact not_not.mp (of_decide_eq_false hnot)
      rw [hdrop] at hpart hsplit
      generalize text.takeWhile (· ≠ 61) = name at *
      subst hpart
      have hvalue : 0 ∉ value := fun hmem =>
        htext (List.mem_append_right _ (List.mem_cons_of_mem _ hmem))
      rw [hfront, List.append_assoc, List.cons_append] at hsplit
      obtain ⟨mid, htrim, hmid⟩ := trimKey_eq hsplit hline hequal fun byte hbyte =>
        hhead byte (List.mem_head?_append_of_mem_head? hbyte)
      have hload : loadByte buffer front'.length = .ok 61 := by
        refine @loadByte_eq buffer front' (value ++ 0 :: tail) 61 _ ?_ rfl
        rw [hsplit, hfront, List.append_assoc]
      have hcut : cString (List.drop line
          (front ++ name.rdropWhile isSpace ++ 0 :: (mid ++ (value ++ 0 :: tail)))) =
            name.rdropWhile isSpace :=
        cString_at (List.append_assoc ..) hline (notMem_rdropWhile hname isSpace)
      have hbehind : front ++ name.rdropWhile isSpace ++ 0 :: (mid ++ (value ++ 0 :: tail)) =
          (front ++ name.rdropWhile isSpace ++ 0 :: mid) ++ (value ++ 0 :: tail) := by
        simp only [List.append_assoc, List.cons_append]
      rw [if_pos (List.mem_append_right _ List.mem_cons_self)]
      by_cases hfound : name.rdropWhile isSpace = key
      · obtain ⟨buffer', hread⟩ := readValue_eq hvalue hbehind hmid.symm
        refine ⟨buffer', ?_, ?_⟩
        · change (loadByte buffer front'.length >>= _) = _
          rw [hload]
          change (trimEnd buffer line (front'.length - 1) >>= _) = _
          rw [htrim]
          change (if cString _ ≠ cString key then _ else _) = _
          rw [hcut, cString_key hkey, if_neg (not_not.mpr hfound), hread, if_pos hfound]
          rfl
        · rw [if_pos hfound]
          exact nofun
      · refine ⟨front ++ name.rdropWhile isSpace ++ 0 :: (mid ++ (value ++ 0 :: tail)), ?_, ?_⟩
        · change (loadByte buffer front'.length >>= _) = _
          rw [hload]
          change (trimEnd buffer line (front'.length - 1) >>= _) = _
          rw [htrim]
          change (if cString _ ≠ cString key then _ else _) = _
          rw [hcut, cString_key hkey, if_pos hfound, if_neg hfound]
        · intro _
          refine ⟨front ++ name.rdropWhile isSpace ++ 0 :: mid ++ (value ++ [0]), ?_, ?_⟩
          · rw [hbehind]
            simp only [List.append_assoc, List.cons_append, List.nil_append]
          · rw [List.length_append, hmid, hequal]
            simp only [List.length_append, List.length_cons, List.length_nil]
            omega

/-- A line that the loop leaves to go on is changed, but what is behind it is not. -/
theorem examineLine_eq {key token tail : Bytes} {line : Nat} (htoken : 0 ∉ token) (hkey : 0 ∉ key)
    (hbuffer : buffer = front ++ (token ++ 0 :: tail)) (hline : line = front.length) :
    ∃ buffer', examineLine key buffer line = .ok (verdictOf key token, buffer') ∧
      (verdictOf key token = .next → ∃ front', buffer' = front' ++ tail ∧
        front'.length = front.length + token.length + 1) := by
  have hkeep : ∃ front', buffer = front' ++ tail ∧
      front'.length = front.length + token.length + 1 :=
    ⟨front ++ token ++ [0], by simp [hbuffer], by simp [Nat.add_assoc]⟩
  obtain ⟨start, hskip, hstart, hsplit⟩ := skip_eq isSpace htoken hbuffer hline
  have hbody := notMem_dropWhile htoken isSpace
  have hhead := head_dropWhile_isSpace token
  have hlength : start.length + (token.dropWhile isSpace).length =
      front.length + token.length := by
    rw [hstart, List.length_append, Nat.add_assoc, ← List.length_append,
      List.takeWhile_append_dropWhile]
  rw [examineLine, hskip, verdictOf]
  generalize token.dropWhile isSpace = body at hsplit hbody hhead hlength ⊢
  cases body with
  | nil =>
      refine ⟨buffer, ?_, fun _ => hkeep⟩
      change (loadByte buffer start.length >>= _) = _
      rw [loadByte_eq hsplit rfl]
      rfl
  | cons first body =>
      have hfirst : first ≠ 0 := ne_of_mem_of_not_mem List.mem_cons_self hbody
      have hload := loadByte_eq hsplit rfl
      by_cases hcomment : first = 35
      · refine ⟨buffer, ?_, fun _ => hkeep⟩
        change (loadByte buffer start.length >>= _) = _
        rw [hload]
        change (if first = 0 ∨ first = 35 then _ else _) = _
        rw [if_pos (.inr hcomment), if_pos (.inr (congrArg some hcomment))]
      · obtain ⟨buffer', hexamine, hbehind⟩ := examineProperty_eq hbody hkey hsplit rfl hhead
        have hproperty : ¬(first :: body = [] ∨ (first :: body).head? = some 35) := by
          rintro (hnil | hhash)
          · cases hnil
          · exact hcomment (Option.some.inj hhash)
        refine ⟨buffer', ?_, ?_⟩
        · change (loadByte buffer start.length >>= _) = _
          rw [hload]
          change (if first = 0 ∨ first = 35 then _ else _) = _
          rw [if_neg (not_or.mpr ⟨hfirst, hcomment⟩), if_neg hproperty, hexamine]
        · rw [if_neg hproperty, ← hlength]
          exact hbehind

/-! ## The lines one after another -/

theorem linesOf_eq {text : Bytes} (htext : 0 ∉ text) :
    linesOf text = (text.splitOn newline).filter (· ≠ []) := by
  rw [linesOf, cString_key htext]

theorem linesOf_newlines {text : Bytes} (htext : 0 ∉ text) :
    linesOf text = linesOf (text.dropWhile (· = newline)) := by
  induction text with
  | nil => rfl
  | cons byte text ih =>
      have hrest : 0 ∉ text := fun hmem => htext (List.mem_cons_of_mem _ hmem)
      by_cases hbyte : byte = newline
      · subst hbyte
        rw [List.dropWhile_cons_of_pos (by simp), ← ih hrest, linesOf_eq htext,
          linesOf_eq hrest, ← List.nil_append (newline :: text),
          List.splitOn_append_cons_self_of_not_mem List.not_mem_nil]
        rfl
      · rw [List.dropWhile_cons_of_neg (by simpa using hbyte)]

theorem linesOf_token {token : Bytes} (htoken : 0 ∉ token) (hne : token ≠ [])
    (hline : newline ∉ token) : linesOf token = [token] := by
  rw [linesOf_eq htoken, List.splitOn_eq_singleton hline,
    List.filter_cons_of_pos (by simpa using hne), List.filter_nil]

theorem linesOf_append {token rest : Bytes} (htext : 0 ∉ token ++ newline :: rest)
    (hne : token ≠ []) (hline : newline ∉ token) :
    linesOf (token ++ newline :: rest) = token :: linesOf rest := by
  have hrest : 0 ∉ rest := fun hmem =>
    htext (List.mem_append_right _ (List.mem_cons_of_mem _ hmem))
  rw [linesOf_eq htext, List.splitOn_append_cons_self_of_not_mem hline,
    List.filter_cons_of_pos (by simpa using hne), ← linesOf_eq hrest]

/-- The lines that the next calls of `strtok` will find in the buffer from a place on. -/
def Pending (pos : Nat) (save : Option Nat) (tail : Bytes) (lines : List Bytes) : Prop :=
  match save with
  | none => lines = []
  | some start => start = pos ∧ ∃ text, tail = text ++ [0] ∧ 0 ∉ text ∧ lines = linesOf text

/-- What the next call of `strtok` gives. -/
def GoesOn (buffer : Bytes) (save : Option Nat) : List Bytes → Prop
  | [] => nextLine buffer save = .ok (none, buffer, none)
  | token :: lines => ∃ front tail save', 0 ∉ token ∧
      nextLine buffer save = .ok (some front.length, front ++ (token ++ 0 :: tail), save') ∧
      Pending (front.length + token.length + 1) save' tail lines

theorem Pending.goesOn {save : Option Nat} {tail : Bytes} {lines : List Bytes}
    (hpending : Pending front.length save tail lines) : GoesOn (front ++ tail) save lines := by
  cases save with
  | none =>
      obtain rfl : lines = [] := hpending
      rfl
  | some start =>
      obtain ⟨rfl, text, rfl, htext, rfl⟩ := hpending
      have haccepts : (fun byte : UInt8 => decide (byte = newline)) =
          fun byte => byte ≠ 0 && decide (byte = newline) := by
        funext byte
        by_cases hbyte : byte = newline
        · subst hbyte
          rfl
        · rw [decide_eq_false hbyte, Bool.and_false]
      obtain ⟨front', hskip, -, hsplit⟩ := @skip_eq (front ++ (text ++ [0])) front text [] front.length
        (· = newline) htext rfl rfl
      rw [← haccepts] at hskip
      have hrest := notMem_dropWhile htext (· = newline)
      rw [linesOf_newlines htext]
      cases hdrop : text.dropWhile (· = newline) with
      | nil =>
          rw [hdrop] at hsplit
          change nextLine _ _ = _
          rw [nextLine, hskip]
          change (loadByte _ front'.length >>= _) = _
          rw [loadByte_eq hsplit rfl]
          rfl
      | cons first rest =>
          have hfirst : first ≠ newline := by
            have hnot := List.head?_dropWhile_not (fun byte : UInt8 => decide (byte = newline)) text
            rw [hdrop] at hnot
            exact of_decide_eq_false hnot
          rw [hdrop] at hsplit hrest
          have hload := loadByte_eq hsplit rfl
          obtain ⟨front'', hskip', hfront, hsplit'⟩ := skip_eq (· ≠ newline) hrest hsplit rfl
          have htoken := notMem_takeWhile hrest (· ≠ newline)
          have hne : (first :: rest).takeWhile (· ≠ newline) ≠ [] := by
            rw [List.takeWhile_cons_of_pos (by simpa using hfirst)]
            exact List.cons_ne_nil _ _
          have hline : newline ∉ (first :: rest).takeWhile (· ≠ newline) := by
            intro hmem
            have hnot := List.mem_takeWhile_imp hmem
            exact of_decide_eq_true hnot rfl
          have hpart := @List.takeWhile_append_dropWhile _ (· ≠ newline) (first :: rest)
          have hzero : first ≠ 0 := ne_of_mem_of_not_mem List.mem_cons_self hrest
          have hlength : front''.length =
              front'.length + ((first :: rest).takeWhile (· ≠ newline)).length := by
            rw [hfront, List.length_append]
          have hnext : nextLine (front ++ (text ++ [0])) (some front.length) = (do
              let last ← loadByte (front ++ (text ++ [0])) front''.length
              if last = 0 then .ok (some front'.length, front ++ (text ++ [0]), none)
              else do
                let buffer ← storeByte (front ++ (text ++ [0])) front''.length 0
                .ok (some front'.length, buffer, some (front''.length + 1))) := by
            rw [nextLine, hskip]
            change (loadByte _ front'.length >>= _) = _
            rw [hload]
            change (if first = 0 then _ else _) = _
            rw [if_neg hzero, hskip']
            rfl
          cases hbehind : (first :: rest).dropWhile (· ≠ newline) with
          | nil =>
              rw [hbehind] at hsplit' hpart
              rw [List.append_nil] at hpart
              rw [hpart] at hfront htoken hne hline
              rw [linesOf_token htoken hne hline]
              refine ⟨front', [], none, htoken, ?_, rfl⟩
              rw [hnext, loadByte_eq hsplit' rfl]
              change Except.ok (some front'.length, front ++ (text ++ [0]), none) = _
              rw [hsplit', hfront, List.append_assoc]
              rfl
          | cons last others =>
              obtain rfl : last = newline := by
                have hnot := List.head?_dropWhile_not (fun byte : UInt8 => decide (byte ≠ newline))
                  (first :: rest)
                rw [hbehind] at hnot
                exact not_not.mp (of_decide_eq_false hnot)
              rw [hbehind] at hsplit' hpart
              generalize (first :: rest).takeWhile (· ≠ newline) = token at *
              rw [← hpart] at hrest ⊢
              have hothers : 0 ∉ others := fun hmem =>
                hrest (List.mem_append_right _ (List.mem_cons_of_mem _ hmem))
              rw [linesOf_append hrest hne hline]
              refine ⟨front', others ++ [0], some (front''.length + 1), htoken, ?_, ?_, others, rfl,
                hothers, rfl⟩
              · rw [hnext, loadByte_eq hsplit' rfl]
                change (storeByte _ front''.length 0 >>= _) = _
                rw [storeByte_eq hsplit' rfl, hfront, List.append_assoc]
                rfl
              · rw [hlength]

/-- The loop says what `findProperty` says. -/
theorem findProperty_cons (key line : Bytes) (lines : List Bytes) :
    findProperty key (line :: lines) =
      match verdictOf key line with
      | .malformed text => .error text
      | .found value => .ok (some value)
      | .next => findProperty key lines := by
  rw [findProperty, verdictOf]
  split
  · rfl
  · rw [propertyOf]
    split
    · split
      · rfl
      · rfl
    · rfl

theorem searchLines_eq {key token tail : Bytes} {rounds : Nat} {save : Option Nat}
    {lines : List Bytes} (htoken : 0 ∉ token) (hkey : 0 ∉ key)
    (hpending : Pending (front.length + token.length + 1) save tail lines)
    (hrounds : lines.length < rounds) :
    searchLines key rounds (front ++ (token ++ 0 :: tail)) front.length save =
      .ok (findProperty key (token :: lines)) := by
  induction rounds generalizing front token tail save lines with
  | zero => exact absurd hrounds (Nat.not_lt_zero _)
  | succ rounds ih =>
      obtain ⟨buffer', hexamine, hbehind⟩ := @examineLine_eq _ front key token tail _ htoken hkey rfl rfl
      rw [searchLines, hexamine, findProperty_cons]
      cases hverdict : verdictOf key token with
      | malformed text => rfl
      | found value => rfl
      | next =>
          obtain ⟨front', rfl, hlength⟩ := hbehind hverdict
          rw [← hlength] at hpending
          have hgoes := hpending.goesOn
          change (nextLine (front' ++ tail) save >>= _) = _
          cases lines with
          | nil =>
              have hnone : nextLine (front' ++ tail) save = .ok (none, front' ++ tail, none) := hgoes
              rw [hnone]
              rfl
          | cons next lines =>
              obtain ⟨front'', tail', save', hnext, hline, hrest⟩ := hgoes
              rw [hline]
              exact ih hnext hrest (Nat.lt_of_succ_lt_succ hrounds)

theorem length_linesOf_le {text : Bytes} (htext : 0 ∉ text) :
    (linesOf text).length ≤ text.length + 1 := by
  have hsplit : (text.splitOnP (· == newline)).length ≤ text.length + 1 := by
    induction text with
    | nil => simp
    | cons byte text ih =>
        have hrest := ih fun hmem => htext (List.mem_cons_of_mem _ hmem)
        rw [List.splitOnP_cons_eq_if_modifyHead]
        split
        · rw [List.length_cons, List.length_cons]
          omega
        · rw [List.length_modifyHead, List.length_cons]
          omega
  rw [linesOf_eq htext]
  exact (List.length_filter_le ..).trans hsplit

/-- The search with pointers needs a line, and then finds what `findProperty` finds. -/
theorem searchFile_eq {key data : Bytes} (hdata : 0 ∉ data) (hkey : 0 ∉ key) :
    searchFile key data =
      if linesOf data = [] then .error .outOfBounds
      else .ok (findProperty key (linesOf data)) := by
  have hpending : Pending ([] : Bytes).length (some 0) (data ++ [0]) (linesOf data) :=
    ⟨rfl, data, rfl, hdata, rfl⟩
  have hgoes := hpending.goesOn
  rw [List.nil_append] at hgoes
  rw [searchFile]
  have hlength := length_linesOf_le hdata
  cases hlines : linesOf data with
  | nil =>
      rw [hlines] at hgoes
      have hnone : nextLine (data ++ [0]) (some 0) = .ok (none, data ++ [0], none) := hgoes
      rw [hnone]
      rfl
  | cons token lines =>
      rw [hlines] at hgoes hlength
      obtain ⟨front, tail, save, htoken, hnext, hrest⟩ := hgoes
      rw [hnext, if_neg (List.cons_ne_nil _ _)]
      exact searchLines_eq htoken hkey hrest (by simpa using hlength)

end Moves

end OpenRecovery.Edify
