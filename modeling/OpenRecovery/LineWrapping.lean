import Mathlib

/-!
# Text broken into lines

A text is split at a separator and each part is cut after every `width` characters.  The lines
of a text with one more character differ only in the last line.
-/

namespace OpenRecovery

variable {Letter : Type} {width : Nat}

/-- The pieces of a text that are no longer than the width; an empty text is one empty piece. -/
def cutAt (width : Nat) (text : List Letter) : List (List Letter) :=
  if _ : 0 < width ∧ width < text.length then
    text.take width :: cutAt width (text.drop width)
  else [text]
termination_by text.length
decreasing_by
  rw [List.length_drop]
  omega

theorem cutAt_short {text : List Letter} (hshort : text.length ≤ width) :
    cutAt width text = [text] := by
  rw [cutAt, dif_neg (by omega)]

theorem cutAt_long {text : List Letter} (hwidth : 0 < width) (hlong : width < text.length) :
    cutAt width text = text.take width :: cutAt width (text.drop width) := by
  rw [cutAt, dif_pos ⟨hwidth, hlong⟩]

/-- The last piece is the only one that a further character can change. -/
theorem exists_cutAt_concat (hwidth : 0 < width) (text : List Letter) :
    ∃ full last, cutAt width text = full ++ [last] ∧ last.length ≤ width ∧
      ∀ c, cutAt width (text ++ [c]) =
        if last.length < width then full ++ [last ++ [c]] else full ++ [last, [c]] := by
  by_cases hlong : width < text.length
  · obtain ⟨full, last, hcut, hlast, hnext⟩ := exists_cutAt_concat hwidth (text.drop width)
    refine ⟨text.take width :: full, last, by rw [cutAt_long hwidth hlong, hcut]; rfl, hlast,
      fun c => ?_⟩
    have hlonger : width < (text ++ [c]).length := by
      rw [List.length_append]
      omega
    rw [cutAt_long hwidth hlonger, List.take_append_of_le_length hlong.le,
      List.drop_append_of_le_length hlong.le, hnext c]
    split <;> rfl
  · have hshort : text.length ≤ width := not_lt.mp hlong
    refine ⟨[], text, cutAt_short hshort, hshort, fun c => ?_⟩
    have hlength : (text ++ [c]).length = text.length + 1 := List.length_append
    split
    · rename_i hroom
      exact cutAt_short (by omega)
    · rename_i hfull
      have hfull : text.length = width := by omega
      rw [cutAt_long hwidth (by omega), List.take_append_of_le_length hfull.ge,
        List.take_of_length_le hshort, List.drop_append_of_le_length hfull.ge,
        List.drop_of_length_le hshort]
      exact congrArg (text :: ·) (cutAt_short (Nat.one_le_iff_ne_zero.mpr hwidth.ne'))
termination_by text.length
decreasing_by
  rw [List.length_drop]
  omega

section Lines

variable [DecidableEq Letter]

/-- A character that is no separator belongs to the last part. -/
theorem exists_splitOn_concat (separator : Letter) (text : List Letter) :
    ∃ parts last, text.splitOn separator = parts ++ [last] ∧
      ∀ c, c ≠ separator → (text ++ [c]).splitOn separator = parts ++ [last ++ [c]] := by
  induction text with
  | nil =>
      refine ⟨[], [], List.splitOn_nil separator, fun c hc => ?_⟩
      rw [List.nil_append, List.splitOn_eq_singleton (by simpa using hc.symm)]
      rfl
  | cons first text ih =>
      obtain ⟨parts, last, hparts, hnext⟩ := ih
      by_cases hfirst : (first == separator) = true
      · refine ⟨[] :: parts, last, ?_, fun c hc => ?_⟩
        · rw [List.splitOn_cons_eq_if_modifyHead, if_pos hfirst, hparts]
          rfl
        · rw [List.cons_append, List.splitOn_cons_eq_if_modifyHead, if_pos hfirst, hnext c hc]
          rfl
      · cases parts with
        | nil =>
            refine ⟨[], first :: last, ?_, fun c hc => ?_⟩
            · rw [List.splitOn_cons_eq_if_modifyHead, if_neg hfirst, hparts]
              rfl
            · rw [List.cons_append, List.splitOn_cons_eq_if_modifyHead, if_neg hfirst, hnext c hc]
              rfl
        | cons part parts =>
            refine ⟨(first :: part) :: parts, last, ?_, fun c hc => ?_⟩
            · rw [List.splitOn_cons_eq_if_modifyHead, if_neg hfirst, hparts]
              rfl
            · rw [List.cons_append, List.splitOn_cons_eq_if_modifyHead, if_neg hfirst, hnext c hc]
              rfl

/-- The lines of a text: it ends a line at a separator, and where the line has the full width
and another character follows. -/
def wrappedLines (width : Nat) (separator : Letter) (text : List Letter) : List (List Letter) :=
  (text.splitOn separator).flatMap (cutAt width)

theorem wrappedLines_nil (width : Nat) (separator : Letter) :
    wrappedLines width separator [] = [[]] := by
  rw [wrappedLines, List.splitOn_nil, List.flatMap_singleton, cutAt_short (Nat.zero_le _)]

/-- The lines of a text and those of the text with one more character. -/
theorem wrappedLines_concat (hwidth : 0 < width) (separator : Letter) (text : List Letter) :
    ∃ done last, wrappedLines width separator text = done ++ [last] ∧ last.length ≤ width ∧
      ∀ c, wrappedLines width separator (text ++ [c]) =
        if c = separator then done ++ [last, []]
        else if last.length < width then done ++ [last ++ [c]]
        else done ++ [last, [c]] := by
  obtain ⟨parts, part, hsplit, hnext⟩ := exists_splitOn_concat separator text
  obtain ⟨full, last, hcut, hlast, hadd⟩ := exists_cutAt_concat hwidth part
  refine ⟨parts.flatMap (cutAt width) ++ full, last, ?_, hlast, fun c => ?_⟩
  · rw [wrappedLines, hsplit, List.flatMap_append, List.flatMap_singleton, hcut,
      List.append_assoc]
  · split
    · rename_i hseparator
      rw [wrappedLines, hseparator, List.splitOn_append_cons_self, List.splitOn_nil, hsplit,
        List.flatMap_append, List.flatMap_append, List.flatMap_singleton, List.flatMap_singleton,
        hcut, cutAt_short (Nat.zero_le _)]
      simp only [List.append_assoc, List.singleton_append]
    · rename_i hc
      rw [wrappedLines, hnext c hc, List.flatMap_append, List.flatMap_singleton, hadd c]
      split
      · rw [List.append_assoc]
      · rw [List.append_assoc]

end Lines

end OpenRecovery
