import OpenRecovery.BsDiff
import Mathlib

/-!
# The loops of `bsdiff` stay inside their arrays

Each loop is given by the range of what it computes.  The score of the inner loop is
a difference of two counts of matches, so that it is not negative when it is looked
at; a match that ends the loop is therefore not empty, and `bsdiff` gets on.
-/

namespace OpenRecovery
namespace BsDiff

open Words

variable {I : List Int} {old new : Bytes}

/-! ## Single accesses -/

theorem byteAt_eq
    {buffer : Bytes} {index : Int} (hlow : 0 ≤ index) (hhigh : index < buffer.length) :
    byteAt buffer index = .ok (buffer.getD index.toNat 0) :=
  if_pos ⟨hlow, hhigh⟩

theorem bytesFrom_eq
    {buffer : Bytes} {index : Int} (hlow : 0 ≤ index) (hhigh : index ≤ buffer.length) :
    bytesFrom buffer index = .ok (buffer.drop index.toNat) :=
  if_pos ⟨hlow, hhigh⟩

/-- An index of the old data: one entry more than there are bytes, each of them a
position or the end. -/
def IndexOf (I : List Int) (old : Bytes) : Prop :=
  I.length = old.length + 1 ∧ ∀ position ∈ I, 0 ≤ position ∧ position ≤ old.length

theorem entry_eq
    (hindex : IndexOf I old) {index : Nat} (hbound : index ≤ old.length) :
    ∃ position, entry I index = .ok position ∧ 0 ≤ position ∧ position ≤ old.length := by
  have hlength : index < I.length := by
    rw [hindex.1]
    omega
  refine ⟨I[index], ?_, hindex.2 _ (List.getElem_mem hlength)⟩
  rw [entry, List.getElem?_eq_getElem hlength]

theorem matchlen_le (left right : Bytes) : matchlen left right ≤ right.length := by
  induction left generalizing right with
  | nil => exact Nat.zero_le _
  | cons a left ih =>
      cases right with
      | nil => exact Nat.zero_le _
      | cons b right =>
          unfold matchlen
          split_ifs
          · exact Nat.succ_le_succ (ih right)
          · exact Nat.zero_le _

theorem search_ok
    (hindex : IndexOf I old) (tail : Bytes) (st en : Nat) (hst : st ≤ en)
    (hen : en ≤ old.length) :
    ∃ len pos, search I old tail st en = .ok (len, pos) ∧ len ≤ tail.length ∧ 0 ≤ pos ∧
      pos ≤ old.length := by
  induction hwidth : en - st using Nat.strong_induction_on generalizing st en with
  | _ width ih =>
      rw [search]
      by_cases hnarrow : en - st < 2
      · rw [if_pos hnarrow]
        obtain ⟨first, hfirst, hlow, hhigh⟩ := entry_eq hindex (show st ≤ old.length by omega)
        obtain ⟨last, hlast, hlow', hhigh'⟩ := entry_eq hindex hen
        rw [hfirst, ok_bind, hlast, ok_bind, bytesFrom_eq hlow hhigh, ok_bind,
          bytesFrom_eq hlow' hhigh', ok_bind]
        dsimp only
        split_ifs
        · exact ⟨_, _, rfl, matchlen_le _ _, hlow, hhigh⟩
        · exact ⟨_, _, rfl, matchlen_le _ _, hlow', hhigh'⟩
      · rw [if_neg hnarrow]
        obtain ⟨middle, hmiddle, hlow, hhigh⟩ :=
          entry_eq hindex (show st + (en - st) / 2 ≤ old.length by omega)
        dsimp only
        rw [hmiddle, ok_bind, bytesFrom_eq hlow hhigh, ok_bind]
        split_ifs
        · exact ih (en - (st + (en - st) / 2)) (by omega) _ _ (by omega) hen rfl
        · exact ih (st + (en - st) / 2 - st) (by omega) _ _ (by omega) (by omega) rfl

/-! ## The score -/

/-- Whether the byte at a new position is the old byte at the last offset. -/
def same (old new : Bytes) (lastoffset : Int) (index : Nat) : Bool :=
  index + lastoffset < old.length ∧
    old.getD (index + lastoffset).toNat 0 = new.getD index 0

theorem sameAt_eq
    {lastoffset : Int} {index : Nat} (hlow : 0 ≤ index + lastoffset) (hhigh : index < new.length) :
    sameAt old new lastoffset index = .ok (same old new lastoffset index) := by
  unfold sameAt same
  by_cases hold : index + lastoffset < old.length
  · rw [if_pos hold, byteAt_eq hlow hold, ok_bind, byteAt_eq (Int.natCast_nonneg _) (by omega),
      ok_bind]
    simp [hold]
  · rw [if_neg hold]
    simp [hold]

/-- The number of matches before a position. -/
def matchesBefore (old new : Bytes) (lastoffset : Int) : Nat → Int
  | 0 => 0
  | index + 1 =>
      matchesBefore old new lastoffset index + if same old new lastoffset index then 1 else 0

theorem matchesBefore_succ (lastoffset : Int) (index : Nat) :
    matchesBefore old new lastoffset (index + 1) =
      matchesBefore old new lastoffset index + if same old new lastoffset index then 1 else 0 := rfl

theorem matchesBefore_mono
    (lastoffset : Int) {first last : Nat} (hle : first ≤ last) :
    matchesBefore old new lastoffset first ≤ matchesBefore old new lastoffset last := by
  induction last, hle using Nat.le_induction with
  | base => exact le_refl _
  | succ last hle ih =>
      rw [matchesBefore_succ]
      split_ifs
      · omega
      · omega

theorem addScore_eq
    {lastoffset : Int} {count scsc : Nat} {oldscore : Int} (hlow : 0 ≤ scsc + lastoffset)
    (hhigh : count = 0 ∨ scsc + count ≤ new.length) :
    addScore old new lastoffset count scsc oldscore =
      .ok (oldscore + (matchesBefore old new lastoffset (scsc + count) -
        matchesBefore old new lastoffset scsc)) := by
  induction count generalizing scsc oldscore with
  | zero =>
      rw [addScore, Nat.add_zero, sub_self, add_zero]
  | succ count ih =>
      rw [addScore, sameAt_eq hlow (by omega), ok_bind, ih (by omega) (by omega),
        show scsc + 1 + count = scsc + (count + 1) by omega]
      rw [matchesBefore_succ]
      congr 1
      split_ifs
      · omega
      · omega

/-! ## The inner loop -/

/-- What the inner loop finds: a position in the new data and, unless that is its
end, a match that is not empty. -/
structure Found (old new : Bytes) (first : Nat) (found : Scan) : Prop where
  after : first ≤ found.scan
  bound : found.scan ≤ new.length
  pos : 0 ≤ found.pos ∧ found.pos ≤ old.length
  advance : found.scan < new.length → 1 ≤ found.len ∧ found.scan + found.len ≤ new.length

theorem scanLoop_ok
    {lastoffset : Int} {first left : Nat} {found : Scan} (hindex : IndexOf I old)
    (hoffset : 0 ≤ first + lastoffset) (hleft : found.scan + left = new.length)
    (hscan : first ≤ found.scan) (hscsc : first ≤ found.scsc)
    (hscore : found.oldscore = matchesBefore old new lastoffset found.scsc -
      matchesBefore old new lastoffset found.scan)
    (hpos : left = 0 → 0 ≤ found.pos ∧ found.pos ≤ old.length) :
    ∃ found', scanLoop I old new lastoffset left found = .ok found' ∧
      Found old new first found' := by
  induction left generalizing found with
  | zero =>
      exact ⟨found, rfl, hscan, by omega, hpos rfl, by omega⟩
  | succ left ih =>
      obtain ⟨len, pos, hsearch, hlen, hposLow, hposHigh⟩ :=
        search_ok hindex (new.drop found.scan) 0 old.length (Nat.zero_le _) (le_refl _)
      rw [List.length_drop] at hlen
      have htail : bytesFrom new (found.scan : Int) = .ok (new.drop found.scan) :=
        bytesFrom_eq (Int.natCast_nonneg _) (by omega)
      have hadd : addScore old new lastoffset (found.scan + len - found.scsc) found.scsc
          found.oldscore = .ok (matchesBefore old new lastoffset
            (max found.scsc (found.scan + len)) -
              matchesBefore old new lastoffset found.scan) := by
        rw [addScore_eq (by omega) (by omega), hscore,
          show found.scsc + (found.scan + len - found.scsc) =
            max found.scsc (found.scan + len) by omega]
        congr 1
        omega
      have hnonneg : matchesBefore old new lastoffset found.scan ≤
          matchesBefore old new lastoffset (max found.scsc (found.scan + len)) :=
        matchesBefore_mono lastoffset (by omega)
      rw [scanLoop, htail, ok_bind, hsearch, ok_bind]
      dsimp only
      rw [hadd, ok_bind]
      split_ifs with hstop
      · refine ⟨_, rfl, hscan, ?_, ⟨hposLow, hposHigh⟩, ?_⟩
        · exact (by omega : found.scan ≤ new.length)
        · intro hmore
          constructor
          · exact (by omega : 1 ≤ len)
          · exact (by omega : found.scan + len ≤ new.length)
      · rw [sameAt_eq (by omega) (by omega), ok_bind]
        apply ih
        · exact (by omega : found.scan + 1 + left = new.length)
        · exact (by omega : first ≤ found.scan + 1)
        · exact (by omega : first ≤ max found.scsc (found.scan + len))
        · dsimp only
          rw [matchesBefore_succ]
          split_ifs
          · omega
          · omega
        · exact fun _ => ⟨hposLow, hposHigh⟩

/-! ## The extensions -/

theorem forwardLoop_ok
    {lastscan lastpos : Int} (hlastscan : 0 ≤ lastscan) (hlastpos : 0 ≤ lastpos) (left : Nat)
    (i s Sf lenf : Int) (hi : 0 ≤ i) (hnew : lastscan + i + left ≤ new.length)
    (hlow : 0 ≤ lenf) (hhigh : lenf ≤ i) (hold : lastpos + lenf ≤ old.length) :
    ∃ lenf', forwardLoop old new lastscan lastpos left i s Sf lenf = .ok lenf' ∧ 0 ≤ lenf' ∧
      lenf' ≤ i + left ∧ lastpos + lenf' ≤ old.length := by
  induction left generalizing i s Sf lenf with
  | zero => exact ⟨lenf, rfl, hlow, by omega, hold⟩
  | succ left ih =>
      rw [forwardLoop]
      by_cases hmore : lastpos + i < old.length
      · rw [if_pos hmore, byteAt_eq (by omega) hmore, ok_bind, byteAt_eq (by omega) (by omega),
          ok_bind]
        dsimp only
        generalize (if old.getD (lastpos + i).toNat 0 = new.getD (lastscan + i).toNat 0 then s + 1
          else s) = s'
        split_ifs
        · obtain ⟨lenf', hloop, hrange⟩ := ih (i + 1) s' s' (i + 1) (by omega) (by omega)
            (by omega) (by omega) (by omega)
          exact ⟨lenf', hloop, hrange.1, by omega, hrange.2.2⟩
        · obtain ⟨lenf', hloop, hrange⟩ := ih (i + 1) s' Sf lenf (by omega) (by omega) hlow
            (by omega) hold
          exact ⟨lenf', hloop, hrange.1, by omega, hrange.2.2⟩
      · rw [if_neg hmore]
        exact ⟨lenf, rfl, hlow, by omega, hold⟩

theorem backwardLoop_ok
    {scan pos : Int} (hscan : scan < new.length) (hpos : pos ≤ old.length) (left : Nat)
    (i s Sb lenb : Int) (hi : 1 ≤ i) (hleft : i + left ≤ scan + 1) (hlow : 0 ≤ lenb)
    (hhigh : lenb < i) (hlenb : lenb ≤ pos) :
    ∃ lenb', backwardLoop old new scan pos left i s Sb lenb = .ok lenb' ∧ 0 ≤ lenb' ∧
      lenb' < i + left ∧ lenb' ≤ pos := by
  induction left generalizing i s Sb lenb with
  | zero => exact ⟨lenb, rfl, hlow, by omega, hlenb⟩
  | succ left ih =>
      rw [backwardLoop]
      by_cases hmore : i ≤ pos
      · rw [if_pos hmore, byteAt_eq (by omega) (by omega), ok_bind,
          byteAt_eq (by omega) (by omega), ok_bind]
        dsimp only
        generalize (if old.getD (pos - i).toNat 0 = new.getD (scan - i).toNat 0 then s + 1
          else s) = s'
        split_ifs
        · obtain ⟨lenb', hloop, hrange⟩ := ih (i + 1) s' s' i (by omega) (by omega) (by omega)
            (by omega) hmore
          exact ⟨lenb', hloop, hrange.1, by omega, hrange.2.2⟩
        · obtain ⟨lenb', hloop, hrange⟩ := ih (i + 1) s' Sb lenb (by omega) (by omega) hlow
            (by omega) hlenb
          exact ⟨lenb', hloop, hrange.1, by omega, hrange.2.2⟩
      · rw [if_neg hmore]
        exact ⟨lenb, rfl, hlow, by omega, hlenb⟩

theorem overlapLoop_ok
    {newpos oldpos pos : Int} (hnewpos : 0 ≤ newpos) (holdpos : 0 ≤ oldpos) (hpos : 0 ≤ pos)
    (left : Nat) (i s Ss lens : Int) (hi : 0 ≤ i) (hnew : newpos + i + left ≤ new.length)
    (hold : oldpos + i + left ≤ old.length) (hold' : pos + i + left ≤ old.length)
    (hlow : 0 ≤ lens) (hhigh : lens ≤ i) :
    ∃ lens', overlapLoop old new newpos oldpos pos left i s Ss lens = .ok lens' ∧ 0 ≤ lens' ∧
      lens' ≤ i + left := by
  induction left generalizing i s Ss lens with
  | zero => exact ⟨lens, rfl, hlow, by omega⟩
  | succ left ih =>
      rw [overlapLoop]
      rw [byteAt_eq (by omega) (by omega), ok_bind, byteAt_eq (by omega) (by omega), ok_bind,
        ok_bind, byteAt_eq (by omega) (by omega), ok_bind]
      dsimp only
      generalize (if new.getD (newpos + i).toNat 0 = old.getD (oldpos + i).toNat 0 then s + 1
        else s) = s'
      generalize (if new.getD (newpos + i).toNat 0 = old.getD (pos + i).toNat 0 then s' - 1
        else s') = s''
      split_ifs
      · obtain ⟨lens', hloop, hrange⟩ := ih (i + 1) s'' s'' (i + 1) (by omega) (by omega)
          (by omega) (by omega) (by omega) (by omega)
        exact ⟨lens', hloop, hrange.1, by omega⟩
      · obtain ⟨lens', hloop, hrange⟩ := ih (i + 1) s'' Ss lens (by omega) (by omega)
          (by omega) (by omega) hlow (by omega)
        exact ⟨lens', hloop, hrange.1, by omega⟩

theorem backward_ok
    {scan : Nat} {pos lastscan : Int} (hpos : 0 ≤ pos) (hpos' : pos ≤ old.length)
    (hlastscan : 0 ≤ lastscan) (hlastscan' : lastscan ≤ scan) :
    ∃ lenb, backward old new scan pos lastscan = .ok lenb ∧ 0 ≤ lenb ∧ lenb ≤ scan - lastscan ∧
      lenb ≤ pos ∧ (scan = new.length → lenb = 0) := by
  unfold backward
  by_cases hmore : scan < new.length
  · rw [if_pos hmore]
    obtain ⟨lenb, hloop, hlow, hhigh, hbound⟩ := @backwardLoop_ok old new scan pos (by omega) hpos'
      (scan - lastscan).toNat 1 0 0 0 (le_refl 1) (by omega) (le_refl 0) (by omega) hpos
    exact ⟨lenb, hloop, hlow, by omega, hbound, by omega⟩
  · rw [if_neg hmore]
    exact ⟨0, rfl, le_refl 0, by omega, hpos, fun _ => rfl⟩

/-- The two extensions do not overlap any more. -/
theorem extend_ok
    {scan : Nat} {pos lastscan lastpos : Int} (hscan : scan ≤ new.length)
    (hpos : 0 ≤ pos) (hpos' : pos ≤ old.length) (hlastscan : 0 ≤ lastscan)
    (hlastscan' : lastscan ≤ scan) (hlastpos : 0 ≤ lastpos) (hlastpos' : lastpos ≤ old.length) :
    ∃ lenf lenb, extend old new scan pos lastscan lastpos = .ok (lenf, lenb) ∧ 0 ≤ lenf ∧
      0 ≤ lenb ∧ lenb ≤ pos ∧ lastpos + lenf ≤ old.length ∧ lastscan + lenf ≤ scan - lenb ∧
      (scan = new.length → lenb = 0) := by
  obtain ⟨lenf, hforward, hlenf, hlenf', hold⟩ := @forwardLoop_ok old new lastscan lastpos
    hlastscan hlastpos (scan - lastscan).toNat 0 0 0 0 (le_refl 0) (by omega) (le_refl 0)
    (le_refl 0) (by omega)
  obtain ⟨lenb, hbackward, hlenb, hlenb', hback, hend⟩ :=
    @backward_ok old new scan pos lastscan hpos hpos' hlastscan hlastscan'
  unfold extend
  rw [hforward, ok_bind, hbackward, ok_bind]
  split_ifs with hoverlap
  · obtain ⟨lens, hloop, hlow, hhigh⟩ := @overlapLoop_ok old new _ _ _
      (show 0 ≤ lastscan + lenf - (lastscan + lenf - (scan - lenb)) by omega)
      (show 0 ≤ lastpos + lenf - (lastscan + lenf - (scan - lenb)) by omega)
      (show 0 ≤ pos - lenb by omega) (lastscan + lenf - (scan - lenb)).toNat 0 0 0 0 (le_refl 0)
      (by omega) (by omega) (by omega) (le_refl 0) (le_refl 0)
    dsimp only
    rw [hloop, ok_bind]
    refine ⟨_, _, rfl, by omega, by omega, by omega, by omega, by omega, ?_⟩
    intro hlast
    have hzero := hend hlast
    omega
  · exact ⟨lenf, lenb, rfl, hlenf, hlenb, hback, hold, by omega, hend⟩

end BsDiff
end OpenRecovery
