import OpenRecovery.ArgsRestart
import OpenRecovery.CheckedBuffers
import OpenRecovery.FallibleRuns
import OpenRecovery.Words
import Mathlib

/-!
# The payload of `2nd-init`

The code that is put into `/init` is built in a small buffer: instructions, the arguments of
`execve`, the pointers to the environment strings and the strings.  Pointers and strings grow
from two fixed offsets.
-/

namespace OpenRecovery.SecondInit

open Effects Words

/-! ## The layout -/

/-- A write outside `injected_code`, or a read behind the environment. -/
inductive Fault where
  | codeWrite
  | environmentRead
  deriving DecidableEq

def codeSize : Nat := 0x400

/-- The bytes of the environment that are read. -/
def environmentSize : Nat := 0x1C0 - 1

def envpStart : Nat := 0x130

def initStart : Nat := 0x200

def stringStart : Nat := 0x220

/-- A `long` in memory. -/
def wordBytes (value : UInt32) : Bytes :=
  leBytes 4 value.toNat

/-- The instructions, the last of which is a branch to `execve`. -/
def instructions (execveAddress codeAddress : UInt32) : List UInt32 :=
  let distance : Int32 := (execveAddress - (codeAddress + 0x0C + 8)).toInt32 / 4
  [0xE59F00F8, 0xE59F10FC, 0xE59F2110, 0xEB000000 + (distance.toUInt32 &&& 0x00FFFFFF)]

def instructionBytes (execveAddress codeAddress : UInt32) : Bytes :=
  (instructions execveAddress codeAddress).flatMap wordBytes

/-- The next multiple of the size of a word. -/
def wordAlign (offset : Nat) : Nat :=
  (offset + 3) / 4 * 4

/-- The loop over the strings of the environment. -/
def placeVariables (codeAddress : UInt32) (iter : Bytes) (envp w : Nat) (code : Bytes) :
    Except Fault Bytes :=
  match iter with
  | [] => .error .environmentRead
  | first :: rest =>
      if first = 0 then .ok code
      else if 0 ∉ rest then .error .environmentRead
      else do
        let text := cString (first :: rest)
        let code ← storeAll .codeWrite code envp (wordBytes (codeAddress + .ofNat w))
        let code ← storeAll .codeWrite code w (text ++ [0])
        placeVariables codeAddress ((first :: rest).drop (text.length + 1)) (envp + 4)
          (wordAlign (w + (text.length + 1))) code
termination_by iter.length
decreasing_by
  rw [List.length_drop, List.length_cons]
  omega

/-- The contents of `injected_code` that are put into `/init`. -/
def injectedCode (execveAddress codeAddress : UInt32) (environ : Bytes) : Except Fault Bytes := do
  let initEnv := environ.take environmentSize ++ [0]
  let code := List.replicate codeSize 0
  let code ← storeAll .codeWrite code 0 (instructionBytes execveAddress codeAddress)
  let code ← storeAll .codeWrite code 0x100 (wordBytes (codeAddress + 0x200))
  let code ← storeAll .codeWrite code 0x108 (wordBytes (codeAddress + 0x100))
  let code ← storeAll .codeWrite code 0x120 (wordBytes (codeAddress + 0x130))
  let code ← storeAll .codeWrite code initStart (ascii "/init" ++ [0])
  placeVariables codeAddress initEnv envpStart stringStart code

/-! ## Environments -/

def blockOf (strings : List Bytes) : Bytes :=
  strings.flatMap fun text => text ++ [0]

/-- An environment block that is read as a whole. -/
structure Environment where
  strings : List Bytes
  nonempty : ∀ text ∈ strings, text ≠ []
  clean : ∀ text ∈ strings, ∀ c ∈ text, c ≠ 0
  short : (blockOf strings).length ≤ environmentSize

/-- The place that the strings take, each with its terminator and up to the next word. -/
def stringsLength (strings : List Bytes) : Nat :=
  (strings.map fun text => wordAlign (text.length + 1)).sum

/-- Two areas of the buffer have no byte in common. -/
def Apart (first second : Nat × Nat) : Prop :=
  first.1 + first.2 ≤ second.1 ∨ second.1 + second.2 ≤ first.1

/-- The instructions, the pointers with the word behind them, the name of the program and the
strings, each as an offset and a length. -/
def areas (strings : List Bytes) : List (Nat × Nat) :=
  [(0, 16), (envpStart, 4 * (strings.length + 1)), (initStart, 6),
    (stringStart, stringsLength strings)]

/-- The payload of an environment as it ought to be. -/
structure IsPayload (execveAddress codeAddress : UInt32) (strings : List Bytes) (code : Bytes) :
    Prop where
  size : code.length = codeSize
  apart : (areas strings).Pairwise Apart
  instructions : CellsAt code 0 (instructionBytes execveAddress codeAddress)
  init : CellsAt code initStart (ascii "/init" ++ [0])
  pointers : ∀ i text, strings[i]? = some text →
    CellsAt code (envpStart + 4 * i)
      (wordBytes (codeAddress + .ofNat (stringStart + stringsLength (strings.take i))))
  copies : ∀ i text, strings[i]? = some text →
    CellsAt code (stringStart + stringsLength (strings.take i)) (text ++ [0])
  terminated : CellsAt code (envpStart + 4 * strings.length) (wordBytes 0)

/-! ## Offsets -/

theorem le_wordAlign (offset : Nat) : offset ≤ wordAlign offset := by
  rw [wordAlign]
  omega

/-- An offset that is aligned already only moves by the aligned length. -/
theorem wordAlign_add {offset : Nat} (halign : offset % 4 = 0) (length : Nat) :
    wordAlign (offset + length) = offset + wordAlign length := by
  rw [wordAlign, wordAlign]
  omega

theorem stringsLength_append (first second : List Bytes) :
    stringsLength (first ++ second) = stringsLength first + stringsLength second := by
  rw [stringsLength, List.map_append, List.sum_append]
  rfl

theorem stringsLength_cons (text : Bytes) (strings : List Bytes) :
    stringsLength (text :: strings) = wordAlign (text.length + 1) + stringsLength strings := by
  rw [stringsLength, List.map_cons, List.sum_cons]
  rfl

theorem stringsLength_aligned (strings : List Bytes) : stringsLength strings % 4 = 0 := by
  induction strings with
  | nil => rfl
  | cons text strings ih =>
      rw [stringsLength_cons, wordAlign]
      omega

/-- The place of a string ends before the place of the next one. -/
theorem stringsLength_take_le {strings : List Bytes} {i : Nat} {text : Bytes}
    (htext : strings[i]? = some text) :
    stringsLength (strings.take i) + (text.length + 1) ≤ stringsLength strings := by
  obtain ⟨hi, rfl⟩ := List.getElem?_eq_some_iff.mp htext
  have hsplit : strings = strings.take i ++ strings[i] :: strings.drop (i + 1) := by
    rw [← List.drop_eq_getElem_cons hi, List.take_append_drop]
  have hlength := congrArg stringsLength hsplit
  rw [stringsLength_append, stringsLength_cons] at hlength
  have := le_wordAlign (strings[i].length + 1)
  omega

/-! ## The loop over the strings -/

section Loop

variable {codeAddress : UInt32} {code : Bytes} {envp w : Nat} {text : Bytes}

theorem wordBytes_length (value : UInt32) : (wordBytes value).length = 4 :=
  leBytes_length 4 value.toNat

theorem placeVariables_end (rest : Bytes) :
    placeVariables codeAddress (0 :: rest) envp w code = .ok code := by
  rw [placeVariables]
  exact if_pos rfl

/-- The next string: its address goes to the pointers, and it is copied. -/
theorem placeVariables_string (htext : text ≠ []) (hclean : ∀ c ∈ text, c ≠ 0) (rest : Bytes) :
    placeVariables codeAddress (text ++ 0 :: rest) envp w code = (do
      let code ← storeAll .codeWrite code envp (wordBytes (codeAddress + .ofNat w))
      let code ← storeAll .codeWrite code w (text ++ [0])
      placeVariables codeAddress rest (envp + 4) (wordAlign (w + (text.length + 1))) code) := by
  cases text with
  | nil => exact absurd rfl htext
  | cons first text =>
      have hstring : cString (first :: (text ++ 0 :: rest)) = first :: text := by
        rw [← List.cons_append, cString_append hclean]
      have hzero : ¬(0 : UInt8) ∉ text ++ 0 :: rest :=
        not_not.mpr (List.mem_append_right _ List.mem_cons_self)
      have hdrop : (first :: (text ++ 0 :: rest)).drop ((first :: text).length + 1) = rest := by
        rw [List.drop_succ_cons, List.length_cons, List.append_cons, List.drop_left']
        rw [List.length_append]
        rfl
      rw [List.cons_append, placeVariables, if_neg (hclean first List.mem_cons_self),
        if_neg hzero]
      dsimp only
      rw [hstring, hdrop]

theorem blockOf_cons (text : Bytes) (strings : List Bytes) :
    blockOf (text :: strings) ++ [0] = text ++ 0 :: (blockOf strings ++ [0]) := by
  simp only [blockOf, List.flatMap_cons, List.append_assoc, List.cons_append, List.nil_append]

/-- A loop that ends has had place for all strings. -/
theorem placeVariables_fits {strings : List Bytes} {next : Bytes}
    (hnonempty : ∀ text ∈ strings, text ≠ []) (hclean : ∀ text ∈ strings, ∀ c ∈ text, c ≠ 0)
    (hsize : code.length = codeSize) (halign : w % 4 = 0) (hw : w ≤ codeSize)
    (hrun : placeVariables codeAddress (blockOf strings ++ [0]) envp w code = .ok next) :
    w + stringsLength strings ≤ codeSize := by
  induction strings generalizing envp w code with
  | nil => exact hw
  | cons text strings ih =>
      rw [List.forall_mem_cons] at hnonempty hclean
      rw [blockOf_cons, placeVariables_string hnonempty.1 hclean.1] at hrun
      obtain ⟨first, hfirst, hrun⟩ := bind_eq_ok.mp hrun
      obtain ⟨second, hsecond, hrun⟩ := bind_eq_ok.mp hrun
      have hpointer := fits_of_storeAll (List.ne_nil_of_length_eq_add_one (wordBytes_length _))
        hfirst
      rw [storeAll_eq _ hpointer] at hfirst
      cases hfirst
      have hcopy := fits_of_storeAll
        (List.append_ne_nil_of_right_ne_nil text (List.cons_ne_nil 0 [])) hsecond
      rw [storeAll_eq _ hcopy] at hsecond
      cases hsecond
      rw [length_overwrite hpointer, hsize, List.length_append, List.length_singleton] at hcopy
      have hnext : wordAlign (w + (text.length + 1)) ≤ codeSize := by
        rw [wordAlign]
        rw [codeSize] at hcopy ⊢
        omega
      have hmore := ih hnonempty.2 hclean.2
        (by rw [length_overwrite, length_overwrite hpointer, hsize]
            rw [length_overwrite hpointer, hsize, List.length_append, List.length_singleton]
            exact hcopy)
        (by rw [wordAlign]; omega) hnext hrun
      rw [wordAlign_add halign] at hmore
      rw [stringsLength_cons]
      omega

/-- The payload with the strings that are placed so far, and zeros behind the pointers. -/
structure Placed (execveAddress codeAddress : UInt32) (done : List Bytes) (code : Bytes) : Prop
    where
  size : code.length = codeSize
  instructions : CellsAt code 0 (instructionBytes execveAddress codeAddress)
  init : CellsAt code initStart (ascii "/init" ++ [0])
  pointers : ∀ i text, done[i]? = some text →
    CellsAt code (envpStart + 4 * i)
      (wordBytes (codeAddress + .ofNat (stringStart + stringsLength (done.take i))))
  copies : ∀ i text, done[i]? = some text →
    CellsAt code (stringStart + stringsLength (done.take i)) (text ++ [0])
  zeros : CellsAt code (envpStart + 4 * done.length)
    (List.replicate (initStart - (envpStart + 4 * done.length)) 0)

theorem instructionBytes_length (execveAddress codeAddress : UInt32) :
    (instructionBytes execveAddress codeAddress).length = 16 := by
  simp only [instructionBytes, instructions, List.flatMap_cons, List.flatMap_nil,
    List.length_append, wordBytes_length, List.length_nil]

/-- One string more. -/
theorem Placed.string {execveAddress : UInt32} {done : List Bytes}
    (hplaced : Placed execveAddress codeAddress done code) (text : Bytes) (hcount : done.length + 1 ≤ 51)
    (hroom : stringStart + stringsLength done + (text.length + 1) ≤ codeSize) :
    ∃ first second,
      storeAll .codeWrite code (envpStart + 4 * done.length)
        (wordBytes (codeAddress + .ofNat (stringStart + stringsLength done))) =
          (.ok first : Except Fault Bytes) ∧
      storeAll .codeWrite first (stringStart + stringsLength done) (text ++ [0]) =
        (.ok second : Except Fault Bytes) ∧
      Placed execveAddress codeAddress (done ++ [text]) second := by
  have hsize := hplaced.size
  have hword := wordBytes_length (codeAddress + .ofNat (stringStart + stringsLength done))
  generalize hpointer : wordBytes (codeAddress + .ofNat (stringStart + stringsLength done)) =
    pointer at hword
  have hlast : (text ++ [0]).length = text.length + 1 := List.length_append
  simp only [envpStart, stringStart, codeSize] at hroom hsize ⊢
  have hfirst : 304 + 4 * done.length + pointer.length ≤ code.length := by omega
  have hnext := length_overwrite hfirst
  have hsecond : 544 + stringsLength done + (text ++ [0]).length ≤
      (overwrite code (304 + 4 * done.length) pointer).length := by omega
  refine ⟨_, _, storeAll_eq _ hfirst, storeAll_eq _ hsecond, ?_⟩
  -- cells that neither of the two writes touches
  have hkept : ∀ {place : Nat} {kept : Bytes}, CellsAt code place kept →
      (place + kept.length ≤ 304 + 4 * done.length ∨ 304 + 4 * done.length + 4 ≤ place) →
      place + kept.length ≤ 544 + stringsLength done →
      CellsAt (overwrite (overwrite code (304 + 4 * done.length) pointer)
        (544 + stringsLength done) (text ++ [0])) place kept := by
    intro place kept hcells hapart hbefore
    refine (hcells.overwrite hfirst ?_).overwrite hsecond (Or.inl hbefore)
    rw [hword]
    exact hapart
  refine ⟨?_, hkept hplaced.instructions ?_ ?_, hkept hplaced.init ?_ ?_, ?_, ?_, ?_⟩
  · rw [length_overwrite hsecond, hnext, hsize]
    rfl
  · rw [instructionBytes_length]
    omega
  · rw [instructionBytes_length]
    omega
  · rw [initStart]
    omega
  · have hname : (ascii "/init" ++ [0]).length = 6 := rfl
    rw [initStart, hname]
    omega
  · intro i other hother
    rcases Nat.lt_or_ge i done.length with hi | hi
    · rw [List.getElem?_append_left hi] at hother
      rw [List.take_append_of_le_length hi.le]
      have hcells := hplaced.pointers i other hother
      refine hkept hcells ?_ ?_
      · rw [wordBytes_length, envpStart]
        omega
      · rw [wordBytes_length, envpStart]
        omega
    · rw [List.getElem?_append_right hi, List.getElem?_singleton] at hother
      split at hother
      · rename_i hzero
        have hlength : i = done.length := by omega
        cases hother
        subst hlength
        rw [List.take_left, hpointer]
        refine (cellsAt_overwrite hfirst).overwrite hsecond (Or.inl ?_)
        rw [hword]
        omega
      · cases hother
  · intro i other hother
    rcases Nat.lt_or_ge i done.length with hi | hi
    · rw [List.getElem?_append_left hi] at hother
      rw [List.take_append_of_le_length hi.le]
      have hend := stringsLength_take_le hother
      have hlength : (other ++ [0]).length = other.length + 1 := List.length_append
      refine hkept (hplaced.copies i other hother) ?_ ?_
      · rw [stringStart]
        omega
      · rw [stringStart, hlength]
        omega
    · rw [List.getElem?_append_right hi, List.getElem?_singleton] at hother
      split at hother
      · rename_i hzero
        have hlength : i = done.length := by omega
        cases hother
        subst hlength
        rw [List.take_left]
        exact cellsAt_overwrite hsecond
      · cases hother
  · have hrest := hplaced.zeros.drop 4
    rw [List.drop_replicate] at hrest
    have hplace : envpStart + 4 * (done ++ [text]).length = envpStart + 4 * done.length + 4 := by
      rw [List.length_append, List.length_singleton]
      omega
    rw [hplace]
    refine hkept hrest (Or.inr le_rfl) ?_
    rw [List.length_replicate, initStart, envpStart]
    omega

/-- The loop places all strings of the block. -/
theorem Placed.strings {execveAddress : UInt32} {done strings : List Bytes}
    (hnonempty : ∀ text ∈ strings, text ≠ []) (hclean : ∀ text ∈ strings, ∀ c ∈ text, c ≠ 0)
    (hplaced : Placed execveAddress codeAddress done code)
    (hcount : done.length + strings.length ≤ 51)
    (hroom : stringStart + stringsLength done + stringsLength strings ≤ codeSize) :
    ∃ next,
      placeVariables codeAddress (blockOf strings ++ [0]) (envpStart + 4 * done.length)
        (stringStart + stringsLength done) code = .ok next ∧
      Placed execveAddress codeAddress (done ++ strings) next := by
  induction strings generalizing done code with
  | nil =>
      refine ⟨code, placeVariables_end [], ?_⟩
      rw [List.append_nil]
      exact hplaced
  | cons text strings ih =>
      rw [List.forall_mem_cons] at hnonempty hclean
      rw [stringsLength_cons] at hroom
      rw [List.length_cons] at hcount
      have hlong := le_wordAlign (text.length + 1)
      obtain ⟨first, second, hfirst, hsecond, hnext⟩ :=
        hplaced.string text (by omega) (by omega)
      have hlength : (done ++ [text]).length = done.length + 1 := List.length_append
      have hstrings : stringsLength (done ++ [text]) =
          stringsLength done + wordAlign (text.length + 1) := by
        rw [stringsLength_append, stringsLength_cons]
        rfl
      obtain ⟨last, hrun, hlast⟩ := ih hnonempty.2 hclean.2 hnext (by omega) (by omega)
      rw [← List.append_cons] at hlast
      refine ⟨last, ?_, hlast⟩
      have halign : (stringStart + stringsLength done) % 4 = 0 := by
        have := stringsLength_aligned done
        rw [stringStart]
        omega
      rw [hlength, hstrings, Nat.mul_succ, ← Nat.add_assoc, ← Nat.add_assoc] at hrun
      rw [blockOf_cons, placeVariables_string hnonempty.1 hclean.1, wordAlign_add halign]
      exact bind_eq_ok.mpr ⟨first, hfirst, bind_eq_ok.mpr ⟨second, hsecond, hrun⟩⟩

end Loop

/-! ## The whole payload -/

section Payload

variable {execveAddress codeAddress : UInt32}

theorem take_environment (env : Environment) :
    (blockOf env.strings).take environmentSize = blockOf env.strings :=
  List.take_of_length_le env.short

/-- The writes of the fixed parts. -/
theorem fixed_placed (execveAddress codeAddress : UInt32) :
    ∃ code, Placed execveAddress codeAddress [] code ∧ ∀ environ,
      injectedCode execveAddress codeAddress environ =
        placeVariables codeAddress (environ.take environmentSize ++ [0]) envpStart stringStart
          code := by
  have hzeros : CellsAt (List.replicate codeSize (0 : UInt8)) envpStart (List.replicate 208 0) :=
    cellsAt_replicate 0 (by rw [codeSize, envpStart]; omega)
  have hsize : (List.replicate codeSize (0 : UInt8)).length = 1024 := List.length_replicate
  have hinit : (ascii "/init" ++ [0]).length = 6 := rfl
  -- the five writes, each beside the parts that are there
  have hwords := instructionBytes_length execveAddress codeAddress
  obtain ⟨code1, hcode1, hsize1, hat1, hkept1⟩ := storeAll_fits Fault.codeWrite hsize 0
    (instructionBytes execveAddress codeAddress) (by omega)
  obtain ⟨code2, hcode2, hsize2, -, hkept2⟩ := storeAll_fits Fault.codeWrite hsize1 0x100
    (wordBytes (codeAddress + 0x200)) (by rw [wordBytes_length]; omega)
  obtain ⟨code3, hcode3, hsize3, -, hkept3⟩ := storeAll_fits Fault.codeWrite hsize2 0x108
    (wordBytes (codeAddress + 0x100)) (by rw [wordBytes_length]; omega)
  obtain ⟨code4, hcode4, hsize4, -, hkept4⟩ := storeAll_fits Fault.codeWrite hsize3 0x120
    (wordBytes (codeAddress + 0x130)) (by rw [wordBytes_length]; omega)
  obtain ⟨code5, hcode5, hsize5, hat5, hkept5⟩ := storeAll_fits Fault.codeWrite hsize4
    initStart (ascii "/init" ++ [0]) (by rw [hinit, initStart]; omega)
  refine ⟨code5, ⟨hsize5, ?_, hat5, nofun, nofun, ?_⟩, fun environ => ?_⟩
  · refine hkept5 _ _ (hkept4 _ _ (hkept3 _ _ (hkept2 _ _ hat1 (Or.inl ?_)) (Or.inl ?_))
      (Or.inl ?_)) (Or.inl ?_)
    all_goals
      rw [hwords]
      decide
  · refine hkept5 _ _ (hkept4 _ _ (hkept3 _ _ (hkept2 _ _ (hkept1 _ _ hzeros (Or.inr ?_))
      (Or.inr ?_)) (Or.inr ?_)) (Or.inr ?_)) (Or.inl ?_)
    · rw [hwords]
      decide
    iterate 3
      rw [wordBytes_length]
      decide
    · rw [List.length_replicate]
      decide
  · rw [injectedCode]
    exact (bind_eq_of_ok hcode1).trans ((bind_eq_of_ok hcode2).trans ((bind_eq_of_ok hcode3).trans
      ((bind_eq_of_ok hcode4).trans (bind_eq_of_ok hcode5))))

/-- The areas are apart as long as the pointers end before the name of the program. -/
theorem areas_apart_iff (strings : List Bytes) :
    (areas strings).Pairwise Apart ↔ strings.length ≤ 51 := by
  simp only [areas, List.pairwise_cons, List.forall_mem_cons, Apart, envpStart, initStart,
    stringStart]
  constructor
  · rintro ⟨-, ⟨hinit, -⟩, -⟩
    omega
  · intro hcount
    refine ⟨⟨Or.inl ?_, Or.inl ?_, Or.inl ?_, nofun⟩, ⟨Or.inl ?_, Or.inl ?_, nofun⟩,
      ⟨Or.inl ?_, nofun⟩, nofun, List.Pairwise.nil⟩
    all_goals omega

theorem injectedCode_payload (env : Environment) (execveAddress codeAddress : UInt32) :
    (∃ code, injectedCode execveAddress codeAddress (blockOf env.strings) = .ok code ∧
      IsPayload execveAddress codeAddress env.strings code) ↔
    env.strings.length ≤ 51 ∧ stringsLength env.strings ≤ 0x1E0 := by
  obtain ⟨code, hplaced, hcode⟩ := fixed_placed execveAddress codeAddress
  rw [hcode, take_environment]
  constructor
  · rintro ⟨next, hrun, hpayload⟩
    have hfits := placeVariables_fits env.nonempty env.clean hplaced.size (by rfl) (by decide) hrun
    rw [stringStart, codeSize] at hfits
    exact ⟨(areas_apart_iff env.strings).mp hpayload.apart, by omega⟩
  · rintro ⟨hcount, hlength⟩
    obtain ⟨next, hrun, hnext⟩ := hplaced.strings env.nonempty env.clean
      (by rw [List.length_nil]; omega)
      (by rw [show stringsLength [] = 0 from rfl, stringStart, codeSize]; omega)
    refine ⟨next, hrun, hnext.size, (areas_apart_iff env.strings).mpr hcount, hnext.instructions,
      hnext.init, hnext.pointers, hnext.copies, ?_⟩
    have hzero := hnext.zeros.take 4
    rw [List.take_replicate] at hzero
    have hword : min 4 (initStart - (envpStart + 4 * env.strings.length)) = 4 := by
      rw [initStart, envpStart]
      omega
    rw [List.nil_append, hword] at hzero
    exact hzero

/-- A number of variables of the same length. -/
def sameVariables (number length : Nat) (hlength : length ≠ 0)
    (hshort : (blockOf (List.replicate number (List.replicate length 0x41))).length ≤
      environmentSize) : Environment where
  strings := List.replicate number (List.replicate length 0x41)
  nonempty := by
    intro text htext
    rw [List.eq_of_mem_replicate htext]
    exact List.ne_nil_of_length_pos (by rw [List.length_replicate]; omega)
  clean := by
    intro text htext c hc
    rw [List.eq_of_mem_replicate htext] at hc
    rw [List.eq_of_mem_replicate hc]
    decide
  short := hshort

/-- Variables of one letter, of which the pointers run into the name of the program. -/
def manyVariables : Environment :=
  sameVariables 52 1 (by decide) (by decide)

/-- Variables of eight letters, each of which takes twelve bytes. -/
def wideVariables : Environment :=
  sameVariables 49 8 (by decide) (by decide +kernel)

theorem crowded_payload_wrong :
    (¬∃ code, injectedCode 0x9000 0x8000 (blockOf manyVariables.strings) = .ok code ∧
      IsPayload 0x9000 0x8000 manyVariables.strings code) ∧
    ∀ code, injectedCode 0x9000 0x8000 (blockOf wideVariables.strings) ≠ .ok code := by
  constructor
  · rintro ⟨code, -, hpayload⟩
    exact absurd ((areas_apart_iff _).mp hpayload.apart) (by decide)
  · intro next hrun
    obtain ⟨code, hplaced, hcode⟩ := fixed_placed 0x9000 0x8000
    rw [hcode, take_environment] at hrun
    have hfits := placeVariables_fits wideVariables.nonempty wideVariables.clean hplaced.size
      (by rfl) (by decide) hrun
    exact absurd hfits (by decide)

end Payload

end OpenRecovery.SecondInit
