import Mathlib

/-!
# Sorted tables

The two functions of the C library that keep a table sorted by a comparison function and
search in it.  A comparison function returns a negative number, zero or a positive number.
-/

namespace OpenRecovery.SortedTable

section Tables

variable {Item : Type} (compare : Item → Item → Int)

/-- `qsort`; items that compare equal keep their order. -/
def qsort (table : List Item) : List Item :=
  table.insertionSort (compare · · ≤ 0)

def bsearchIn (key : Item) : (fuel : Nat) → List Item → Option Item
  | 0, _ => none
  | fuel + 1, table =>
      match table.drop (table.length / 2) with
      | [] => none
      | middle :: above =>
          if compare key middle = 0 then some middle
          else if compare key middle < 0 then bsearchIn key fuel (table.take (table.length / 2))
          else bsearchIn key fuel above

/-- `bsearch`. -/
def bsearch (key : Item) (table : List Item) : Option Item :=
  bsearchIn compare key (table.length + 1) table

/-- The comparison function belongs to an order. -/
structure Orders : Prop where
  sign : ∀ left right, compare left right < 0 ↔ 0 < compare right left
  trans : ∀ left middle right, compare left middle ≤ 0 → compare middle right ≤ 0 →
    compare left right ≤ 0

/-- The items stand in ascending order. -/
def Sorted (table : List Item) : Prop :=
  table.Pairwise fun left right => compare left right < 0

variable {compare}

theorem Orders.flip_zero (horder : Orders compare) {left right : Item}
    (hzero : compare left right = 0) : compare right left = 0 := by
  have hleft := horder.sign left right
  have hright := horder.sign right left
  omega

theorem Orders.lt_of_zero_of_lt (horder : Orders compare) {left middle right : Item}
    (hzero : compare left middle = 0) (hlt : compare middle right < 0) :
    compare left right < 0 := by
  have hle : compare left right ≤ 0 := horder.trans left middle right hzero.le hlt.le
  have hne : compare left right ≠ 0 := by
    intro hsame
    have hback : compare right middle ≤ 0 :=
      horder.trans right left middle (horder.flip_zero hsame).le hzero.le
    have hpos : 0 < compare right middle := (horder.sign middle right).1 hlt
    omega
  omega

theorem Orders.gt_of_zero_of_gt (horder : Orders compare) {left middle right : Item}
    (hzero : compare left middle = 0) (hlt : compare right middle < 0) :
    0 < compare left right := by
  apply (horder.sign right left).1
  have hle : compare right left ≤ 0 :=
    horder.trans right middle left hlt.le (horder.flip_zero hzero).le
  have hne : compare right left ≠ 0 := by
    intro hsame
    have hback : compare middle right ≤ 0 :=
      horder.trans middle left right (horder.flip_zero hzero).le (horder.flip_zero hsame).le
    have hpos : 0 < compare middle right := (horder.sign right middle).1 hlt
    omega
  omega

theorem mem_qsort {table : List Item} {item : Item} :
    item ∈ qsort compare table ↔ item ∈ table :=
  List.mem_insertionSort _

theorem length_qsort (table : List Item) : (qsort compare table).length = table.length :=
  List.length_insertionSort _ _

/-- A table without equal items is sorted. -/
theorem sorted_qsort (horder : Orders compare) {table : List Item}
    (hdistinct : table.Pairwise fun left right => compare left right ≠ 0) :
    Sorted compare (qsort compare table) := by
  have htotal : Std.Total fun left right => compare left right ≤ 0 := ⟨fun left right => by
    have hsign := horder.sign right left
    omega⟩
  have htrans : IsTrans Item fun left right => compare left right ≤ 0 := ⟨horder.trans⟩
  have hle : (qsort compare table).Pairwise fun left right => compare left right ≤ 0 :=
    List.pairwise_insertionSort _ _
  have hne : (qsort compare table).Pairwise fun left right => compare left right ≠ 0 := by
    apply (List.perm_insertionSort _ table).symm.pairwise hdistinct
    intro left right hne hzero
    exact hne (horder.flip_zero hzero)
  apply (hle.and hne).imp
  intro left right hboth
  omega

theorem bsearch_sound {key item : Item} {table : List Item}
    (hfound : bsearch compare key table = some item) :
    item ∈ table ∧ compare key item = 0 := by
  unfold bsearch at hfound
  generalize table.length + 1 = fuel at hfound
  induction fuel generalizing table with
  | zero => cases hfound
  | succ fuel ih =>
      rw [bsearchIn] at hfound
      cases habove : table.drop (table.length / 2) with
      | nil =>
          rw [habove] at hfound
          cases hfound
      | cons middle above =>
          rw [habove] at hfound
          have hdropped : ∀ other ∈ middle :: above, other ∈ table := by
            rw [← habove]
            exact fun other hother => List.mem_of_mem_drop hother
          dsimp only at hfound
          split at hfound
          case isTrue hzero =>
              cases hfound
              exact ⟨hdropped item (List.mem_cons_self ..), hzero⟩
          case isFalse =>
              split at hfound
              case isTrue =>
                  obtain ⟨hmem, hzero⟩ := ih hfound
                  exact ⟨List.mem_of_mem_take hmem, hzero⟩
              case isFalse =>
                  obtain ⟨hmem, hzero⟩ := ih hfound
                  exact ⟨hdropped item (List.mem_cons_of_mem _ hmem), hzero⟩

/-- In a sorted table every item with an equal key is found. -/
theorem bsearch_complete (horder : Orders compare) {key item : Item} {table : List Item}
    (hsorted : Sorted compare table) (hmem : item ∈ table) (hzero : compare key item = 0) :
    bsearch compare key table = some item := by
  unfold bsearch
  have hfuel : table.length < table.length + 1 := Nat.lt_succ_self _
  generalize table.length + 1 = fuel at hfuel
  induction fuel generalizing table with
  | zero => omega
  | succ fuel ih =>
      rw [bsearchIn]
      have hhalf : (table.take (table.length / 2)).length < fuel := by
        rw [List.length_take]
        have := List.length_pos_of_mem hmem
        omega
      have hsplit := List.take_append_drop (table.length / 2) table
      have hlength := List.length_drop (l := table) (i := table.length / 2)
      cases habove : table.drop (table.length / 2) with
      | nil =>
          rw [habove, List.length_nil] at hlength
          have := List.length_pos_of_mem hmem
          omega
      | cons middle above =>
          rw [habove, List.length_cons] at hlength
          rw [habove] at hsplit
          generalize table.take (table.length / 2) = below at hsplit hhalf ⊢
          subst hsplit
          obtain ⟨hbelow, habove, hacross⟩ := List.pairwise_append.1 hsorted
          rw [List.pairwise_cons] at habove
          dsimp only
          rcases List.mem_append.1 hmem with hlow | hhigh
          · have hlt : compare key middle < 0 :=
              horder.lt_of_zero_of_lt hzero (hacross item hlow middle (List.mem_cons_self ..))
            rw [if_neg (by omega), if_pos hlt]
            exact ih hbelow hlow hhalf
          · rcases List.mem_cons.1 hhigh with rfl | hhigh
            · rw [if_pos hzero]
            · have hgt : 0 < compare key middle :=
                horder.gt_of_zero_of_gt hzero (habove.1 item hhigh)
              rw [if_neg (by omega), if_neg (by omega)]
              apply ih habove.2 hhigh
              rw [List.length_append, List.length_cons] at hfuel
              omega

end Tables

end OpenRecovery.SortedTable
