import Mathlib

/-!
# Writes to a buffer

Cells are written one after the other, and a write outside the buffer fails.  Cells that fit are
all written, and the others keep what they have.
-/

namespace OpenRecovery

variable {Cell Failure : Type}

/-- The values go to the cells from a place on. -/
def storeAll (outside : Failure) : (cells : List Cell) → (start : Nat) → (values : List Cell) →
    Except Failure (List Cell)
  | cells, _, [] => .ok cells
  | cells, start, value :: values =>
      if start < cells.length then storeAll outside (cells.set start value) (start + 1) values
      else .error outside

def overwrite (cells : List Cell) (start : Nat) (values : List Cell) : List Cell :=
  cells.take start ++ values ++ cells.drop (start + values.length)

theorem length_overwrite {cells values : List Cell} {start : Nat}
    (hfits : start + values.length ≤ cells.length) :
    (overwrite cells start values).length = cells.length := by
  rw [overwrite, List.length_append, List.length_append, List.length_take, List.length_drop]
  omega

theorem overwrite_before {cells values : List Cell} {start i : Nat}
    (hfits : start + values.length ≤ cells.length) (hi : i < start) :
    (overwrite cells start values)[i]? = cells[i]? := by
  have htake : (cells.take start).length = start := List.length_take_of_le (by omega)
  rw [overwrite, List.append_assoc, List.getElem?_append_left (by omega),
    List.getElem?_take_of_lt hi]

theorem overwrite_at {cells values : List Cell} {start i : Nat}
    (hfits : start + values.length ≤ cells.length) (hi : i < values.length) :
    (overwrite cells start values)[start + i]? = values[i]? := by
  have htake : (cells.take start).length = start := List.length_take_of_le (by omega)
  rw [overwrite, List.append_assoc, List.getElem?_append_right (by omega), htake,
    Nat.add_sub_cancel_left, List.getElem?_append_left hi]

theorem overwrite_behind {cells values : List Cell} {start i : Nat}
    (hfits : start + values.length ≤ cells.length) (hi : start + values.length ≤ i) :
    (overwrite cells start values)[i]? = cells[i]? := by
  have htake : (cells.take start).length = start := List.length_take_of_le (by omega)
  rw [overwrite, List.getElem?_append_right (by rw [List.length_append]; omega),
    List.length_append, htake, List.getElem?_drop, Nat.add_sub_cancel' hi]

theorem storeAll_eq (outside : Failure) {cells values : List Cell} {start : Nat}
    (hfits : start + values.length ≤ cells.length) :
    storeAll outside cells start values = .ok (overwrite cells start values) := by
  induction values generalizing cells start with
  | nil =>
      rw [storeAll, overwrite, List.append_nil, List.length_nil, Nat.add_zero,
        List.take_append_drop]
  | cons value values ih =>
      rw [List.length_cons] at hfits
      have hset : (start + 1) + values.length ≤ (cells.set start value).length := by
        rw [List.length_set]
        omega
      have hstart : start < cells.length := by omega
      rw [storeAll, if_pos hstart, ih hset, overwrite, overwrite, List.drop_set_of_lt (by omega),
        List.set_eq_take_append_cons_drop, if_pos hstart]
      have htake : (cells.take start ++ value :: cells.drop (start + 1)).take (start + 1) =
          cells.take start ++ [value] := by
        rw [List.take_append, List.take_of_length_le (by rw [List.length_take]; omega),
          List.length_take_of_le hstart.le, Nat.add_sub_cancel_left]
        rfl
      rw [htake, List.length_cons, Nat.add_right_comm, Nat.add_assoc]
      simp only [List.append_assoc, List.singleton_append]

/-- A value that does not fit is a failure. -/
theorem storeAll_error (outside : Failure) {cells values : List Cell} {start : Nat}
    (hvalues : values ≠ []) (hlong : cells.length < start + values.length) :
    storeAll outside cells start values = .error outside := by
  induction values generalizing cells start with
  | nil => exact absurd rfl hvalues
  | cons value values ih =>
      rw [List.length_cons] at hlong
      rw [storeAll]
      split
      · rename_i hstart
        have hmore : values ≠ [] := by
          rintro rfl
          rw [List.length_nil] at hlong
          omega
        refine ih hmore ?_
        rw [List.length_set]
        omega
      · rfl

/-- The cells from a place on have the values. -/
def CellsAt (cells : List Cell) (start : Nat) (values : List Cell) : Prop :=
  ∀ k, k < values.length → cells[start + k]? = values[k]?

theorem cellsAt_overwrite {cells values : List Cell} {start : Nat}
    (hfits : start + values.length ≤ cells.length) :
    CellsAt (overwrite cells start values) start values :=
  fun _ hk => overwrite_at hfits hk

theorem CellsAt.drop {cells values : List Cell} {start : Nat} (hcells : CellsAt cells start values)
    (skipped : Nat) : CellsAt cells (start + skipped) (values.drop skipped) := by
  intro k hk
  rw [List.length_drop] at hk
  rw [Nat.add_assoc, hcells (skipped + k) (by omega), List.getElem?_drop]

theorem CellsAt.take {cells values : List Cell} {start : Nat} (hcells : CellsAt cells start values)
    (number : Nat) : CellsAt cells start (values.take number) := by
  intro k hk
  rw [List.length_take] at hk
  rw [hcells k (by omega), List.getElem?_take_of_lt (by omega)]

theorem cellsAt_replicate {number start length : Nat} (value : Cell)
    (hlength : start + length ≤ number) :
    CellsAt (List.replicate number value) start (List.replicate length value) := by
  intro k hk
  rw [List.length_replicate] at hk
  rw [List.getElem?_replicate_of_lt (by omega), List.getElem?_replicate_of_lt hk]

/-- A write beside some cells leaves them. -/
theorem CellsAt.overwrite {cells kept values : List Cell} {place start : Nat}
    (hcells : CellsAt cells place kept) (hfits : start + values.length ≤ cells.length)
    (hapart : place + kept.length ≤ start ∨ start + values.length ≤ place) :
    CellsAt (overwrite cells start values) place kept := by
  intro k hk
  rw [← hcells k hk]
  rcases hapart with hbefore | hbehind
  · exact overwrite_before hfits (by omega)
  · exact overwrite_behind hfits (by omega)

/-- A write inside the buffer puts the values there and leaves what is beside them. -/
theorem storeAll_fits (outside : Failure) {cells : List Cell} {size : Nat}
    (hsize : cells.length = size) (start : Nat) (values : List Cell) (hfits : start + values.length ≤ size) :
    ∃ next, storeAll outside cells start values = .ok next ∧ next.length = size ∧
      CellsAt next start values ∧
      ∀ place kept, CellsAt cells place kept →
        place + kept.length ≤ start ∨ start + values.length ≤ place →
        CellsAt next place kept := by
  subst hsize
  exact ⟨overwrite cells start values, storeAll_eq outside hfits, length_overwrite hfits,
    cellsAt_overwrite hfits, fun _ _ hcells hapart => hcells.overwrite hfits hapart⟩

/-- A write that has been done was inside the buffer. -/
theorem fits_of_storeAll {outside : Failure} {cells values next : List Cell} {start : Nat}
    (hvalues : values ≠ []) (hstore : storeAll outside cells start values = .ok next) :
    start + values.length ≤ cells.length := by
  by_contra hlong
  rw [storeAll_error outside hvalues (not_le.mp hlong)] at hstore
  cases hstore

end OpenRecovery
