import OpenRecovery.ZipArchive
import Mathlib

/-!
# Records of the central directory

The loop over the records follows addresses, but an address is an offset into the mapping
in disguise.  Here every stage of the loop is described by what stands at an offset: a
record passes the checks, it strays out of the mapping, or it is refused.
-/

namespace OpenRecovery.Minzip

open Words

namespace MemMapping

variable (map : MemMapping)

/-- The address of an offset. -/
def address (offset : Nat) : Nat :=
  add32 map.addr offset

/-- The little-endian number at an offset. -/
def word (width offset : Nat) : Nat :=
  leNat ((map.data.drop offset).take width)

/-- The code takes an offset for one inside the mapping although it lies behind the end,
because its address wraps around. -/
def Slips (offset : Nat) : Prop :=
  map.address offset ≤ map.stop ∧ map.length < offset

instance (offset : Nat) : Decidable (map.Slips offset) :=
  inferInstanceAs (Decidable (_ ∧ _))

variable {map}

theorem stop_lt_word : map.stop < 2 ^ 32 :=
  map.stop_lt

theorem length_lt : map.length + 4096 < 2 ^ 32 := by
  have hpage := map.page_le
  have hstop := map.stop_lt
  rw [length]
  omega

theorem add32_address (offset count : Nat) :
    add32 (map.address offset) count = map.address (offset + count) := by
  rw [address, address, add32, add32, add32, Nat.mod_add_mod, Nat.add_assoc]

theorem address_mod (offset : Nat) : map.address (offset % 2 ^ 32) = map.address offset := by
  rw [address, address, add32, add32, Nat.add_mod_mod]

theorem address_of_le {offset : Nat} (hoffset : offset ≤ map.length) :
    map.address offset = map.addr + offset := by
  have hstop := map.stop_lt_word
  rw [stop] at hstop
  exact Nat.mod_eq_of_lt (by omega)

theorem address_le_stop {offset : Nat} (hoffset : offset ≤ map.length) :
    map.address offset ≤ map.stop := by
  rw [address_of_le hoffset, stop]
  omega

/-- A read at an address is a read at its offset. -/
theorem read_address {offset : Nat} (hoffset : offset < 2 ^ 32) (len : Nat) :
    map.read (map.address offset) len =
      if offset + len ≤ map.length then .ok ((map.data.drop offset).take len)
      else .error .outOfBounds := by
  have hstop := map.stop_lt_word
  rw [stop] at hstop
  by_cases hwrap : map.addr + offset < 2 ^ 32
  · have haddress : map.address offset = map.addr + offset := Nat.mod_eq_of_lt hwrap
    rw [read, haddress, bytesAt, Nat.add_sub_cancel_left, stop]
    refine if_congr ?_ rfl rfl
    omega
  · have haddress : map.address offset = map.addr + offset - 2 ^ 32 := by
      rw [address, add32, Nat.mod_eq_sub_mod (by omega), Nat.mod_eq_of_lt (by omega)]
    rw [read, haddress, if_neg (by omega), if_neg (by omega)]

theorem getLE_inside {offset width : Nat} (hinside : offset + width ≤ map.length) :
    getLE map width (map.address offset) = .ok (map.word width offset) := by
  have hlength := map.length_lt
  rw [getLE, read_address (by omega), if_pos hinside]
  rfl

theorem getLE_outside {offset width : Nat} (hoffset : offset < 2 ^ 32)
    (hinside : ¬offset + width ≤ map.length) :
    getLE map width (map.address offset) = .error .outOfBounds := by
  rw [getLE, read_address hoffset, if_neg hinside]
  rfl

theorem word_lt (width offset : Nat) : map.word width offset < 256 ^ width := by
  refine (leNat_lt _).trans_le (Nat.pow_le_pow_right (by decide) ?_)
  exact List.length_take_le ..

end MemMapping

theorem require_pos {condition : Prop} [Decidable condition] (hcondition : condition) :
    require condition = .ok () :=
  if_pos hcondition

theorem require_neg {condition : Prop} [Decidable condition] (hcondition : ¬condition) :
    require condition = .error .bail :=
  if_neg hcondition

theorem exit_bind {α β : Type} (exit : ZipExit) (rest : α → Except ZipExit β) :
    (Except.error exit >>= rest) = .error exit := rfl

theorem value_bind {α β : Type} (value : α) (rest : α → Except ZipExit β) :
    (Except.ok value >>= rest) = rest value := rfl

/-! ## The name of a record -/

/-- A character that `validFilename` allows. -/
def printable (character : UInt8) : Bool :=
  32 ≤ character.toNat && character.toNat < 127

variable (map : MemMapping)

/-- The loop of `validFilename` stops at the first character that is not allowed, and
leaves the mapping if there is none in it. -/
theorem validFrom_address {offset count : Nat} (hoffset : offset ≤ map.length) :
    validFrom map (map.address offset) count =
      if offset + count ≤ map.length then
        .ok (((map.data.drop offset).take count).all printable)
      else if (map.data.drop offset).all printable then .error .outOfBounds
      else .ok false := by
  have hlength := map.length_lt
  induction count generalizing offset with
  | zero =>
      rw [if_pos (show offset + 0 ≤ map.length from hoffset)]
      rfl
  | succ count ih =>
      rw [validFrom, get1]
      by_cases hend : offset = map.length
      · have hnil : map.data.drop offset = [] := List.drop_eq_nil_of_le hend.ge
        rw [map.getLE_outside (by omega) (by omega), exit_bind, if_neg (by omega), hnil]
        rfl
      · have hlt : offset < map.data.length := lt_of_le_of_ne hoffset hend
        have hinside : offset + 1 ≤ map.length := hlt
        obtain ⟨character, hdrop⟩ :
            ∃ character, map.data.drop offset = character :: map.data.drop (offset + 1) :=
          ⟨_, List.drop_eq_getElem_cons hlt⟩
        have hword : map.word 1 offset = character.toNat := by
          rw [MemMapping.word, hdrop]
          rfl
        rw [map.getLE_inside hinside, value_bind, hword, hdrop, List.take_succ_cons,
          List.all_cons, List.all_cons]
        by_cases hcharacter : printable character = true
        · have hallowed : ¬(character.toNat < 32 ∨ 127 ≤ character.toNat) := by
            simp only [printable, Bool.and_eq_true, decide_eq_true_eq] at hcharacter
            omega
          rw [if_neg hallowed, map.add32_address, ih hinside, hcharacter, Bool.true_and,
            Bool.true_and, show offset + 1 + count = offset + (count + 1) by omega]
        · have hrefused : character.toNat < 32 ∨ 127 ≤ character.toNat := by
            simp only [printable, Bool.and_eq_true, decide_eq_true_eq] at hcharacter
            omega
          rw [if_pos hrefused, eq_false_of_ne_true hcharacter, Bool.false_and, Bool.false_and]
          simp only [Bool.false_eq_true, if_false]
          split <;> rfl

/-! ## The header of a record -/

/-- The fields of the record at an offset. -/
def headerAt (offset : Nat) : CentralHeader where
  localHdrOffset := map.word 4 (offset + cenoff)
  fileNameLen := map.word 2 (offset + cennam)
  extraLen := map.word 2 (offset + cenext)
  commentLen := map.word 2 (offset + cencom)
  fileName := map.address (offset + cenhdr)

/-- The end of the name of the record. -/
def nameEnd (offset : Nat) : Nat :=
  offset + cenhdr + (headerAt map offset).fileNameLen

def nameAt (offset : Nat) : Bytes :=
  (map.data.drop (offset + cenhdr)).take (headerAt map offset).fileNameLen

/-- The record has a signature and a name that the code allows. -/
def HeaderPasses (offset : Nat) : Prop :=
  map.word 4 offset = censig ∧ nameEnd map offset ≤ map.length ∧
    (headerAt map offset).fileNameLen < pathMax ∧ (nameAt map offset).all printable = true

/-- The record is behind the end, and what there is of its signature is no reason to
refuse it. -/
def HeaderStrays (offset : Nat) : Prop :=
  map.Slips (offset + cenhdr) ∧ (offset + 4 ≤ map.length → map.word 4 offset = censig)

/-- The name goes on behind the end, and what there is of it is no reason to refuse it. -/
def NameStrays (offset : Nat) : Prop :=
  offset + cenhdr ≤ map.length ∧ map.word 4 offset = censig ∧ map.Slips (nameEnd map offset) ∧
    (headerAt map offset).fileNameLen < pathMax ∧
    (map.data.drop (offset + cenhdr)).all printable = true

instance (offset : Nat) : Decidable (HeaderPasses map offset) :=
  inferInstanceAs (Decidable (_ ∧ _))

instance (offset : Nat) : Decidable (HeaderStrays map offset) :=
  inferInstanceAs (Decidable (_ ∧ _))

instance (offset : Nat) : Decidable (NameStrays map offset) :=
  inferInstanceAs (Decidable (_ ∧ _))

/-- The check of the name, when the header before it is inside the mapping. -/
theorem validFilename_nameEnd {offset : Nat} (hinside : offset + cenhdr ≤ map.length) :
    validFilename map (map.address (offset + cenhdr)) (headerAt map offset).fileNameLen =
      if pathMax ≤ (headerAt map offset).fileNameLen then .ok false
      else if nameEnd map offset ≤ map.length then .ok ((nameAt map offset).all printable)
      else if (map.data.drop (offset + cenhdr)).all printable then .error .outOfBounds
      else .ok false := by
  rw [validFilename, validFrom_address map hinside]
  rfl

/-- `readCentral` when the header is inside the mapping. -/
theorem readCentral_inside {offset : Nat} (hinside : offset + cenhdr ≤ map.length) :
    readCentral map (map.address offset) =
      if NameStrays map offset then .error .outOfBounds
      else if HeaderPasses map offset then .ok (headerAt map offset)
      else .error .bail := by
  have hheader := hinside
  rw [cenhdr] at hheader
  unfold readCentral get4LE get2LE
  simp only [map.add32_address]
  rw [require_pos (map.address_le_stop hinside), value_bind,
    map.getLE_inside (by omega : offset + 4 ≤ map.length), value_bind]
  by_cases hsig : map.word 4 offset = censig
  · rw [require_pos hsig, value_bind,
      map.getLE_inside (by rw [cenoff]; omega : offset + cenoff + 4 ≤ map.length), value_bind,
      map.getLE_inside (by rw [cennam]; omega : offset + cennam + 2 ≤ map.length), value_bind,
      map.getLE_inside (by rw [cenext]; omega : offset + cenext + 2 ≤ map.length), value_bind,
      map.getLE_inside (by rw [cencom]; omega : offset + cencom + 2 ≤ map.length), value_bind]
    change (require (map.address (nameEnd map offset) ≤ map.stop) >>= fun _ =>
      validFilename map (map.address (offset + cenhdr)) (headerAt map offset).fileNameLen >>=
        fun valid => require (valid = true) >>= fun _ => .ok (headerAt map offset)) = _
    rw [validFilename_nameEnd map hinside]
    by_cases hpass : map.address (nameEnd map offset) ≤ map.stop
    · rw [require_pos hpass, value_bind]
      by_cases hlong : pathMax ≤ (headerAt map offset).fileNameLen
      · rw [if_pos hlong, value_bind, require_neg (by decide), exit_bind,
          if_neg fun h => Nat.not_lt.mpr hlong h.2.2.2.1, if_neg fun h => Nat.not_lt.mpr hlong h.2.2.1]
      · rw [if_neg hlong]
        by_cases hfits : nameEnd map offset ≤ map.length
        · rw [if_pos hfits, value_bind, if_neg fun h => Nat.not_lt.mpr hfits h.2.2.1.2]
          by_cases hprintable : (nameAt map offset).all printable = true
          · rw [require_pos hprintable, value_bind,
              if_pos ⟨hsig, hfits, Nat.not_le.mp hlong, hprintable⟩]
          · rw [require_neg hprintable, exit_bind, if_neg fun h => hprintable h.2.2.2]
        · rw [if_neg hfits]
          by_cases hprintable : (map.data.drop (offset + cenhdr)).all printable = true
          · rw [if_pos hprintable, exit_bind, if_pos ⟨hinside, hsig, ⟨hpass, Nat.not_le.mp hfits⟩,
              Nat.not_le.mp hlong, hprintable⟩]
          · rw [if_neg hprintable, value_bind, require_neg (by decide), exit_bind,
              if_neg fun h => hprintable h.2.2.2.2, if_neg fun h => hfits h.2.1]
    · rw [require_neg hpass, exit_bind, if_neg fun h => hpass h.2.2.1.1,
        if_neg fun h => hpass (map.address_le_stop h.2.1)]
  · rw [require_neg hsig, exit_bind, if_neg fun h => hsig h.2.1, if_neg fun h => hsig h.1]

/-- What the first part of the loop does with the record at an offset. -/
theorem readCentral_address {offset : Nat} (hoffset : offset < 2 ^ 32) :
    readCentral map (map.address offset) =
      if HeaderStrays map offset ∨ NameStrays map offset then .error .outOfBounds
      else if HeaderPasses map offset then .ok (headerAt map offset)
      else .error .bail := by
  by_cases hinside : offset + cenhdr ≤ map.length
  · rw [readCentral_inside map hinside]
    refine if_congr ?_ rfl rfl
    exact (or_iff_right fun h => Nat.not_lt.mpr hinside h.1.2).symm
  · have hname : ¬NameStrays map offset := fun h => hinside h.1
    have hheader : ¬HeaderPasses map offset := by
      rintro ⟨-, hend, -⟩
      rw [nameEnd] at hend
      omega
    rw [if_neg hheader, if_congr (or_iff_left hname) rfl rfl]
    unfold readCentral get4LE get2LE
    simp only [map.add32_address]
    by_cases hpass : map.address (offset + cenhdr) ≤ map.stop
    · rw [require_pos hpass, value_bind]
      by_cases hfour : offset + 4 ≤ map.length
      · rw [map.getLE_inside hfour, value_bind]
        have hlength := map.length_lt
        rw [cenhdr] at hinside
        by_cases hsig : map.word 4 offset = censig
        · rw [require_pos hsig, value_bind,
            map.getLE_outside (by rw [cenoff]; omega) (by rw [cenoff]; omega), exit_bind,
            if_pos ⟨⟨hpass, Nat.not_le.mp hinside⟩, fun _ => hsig⟩]
        · rw [require_neg hsig, exit_bind, if_neg fun h => hsig (h.2 hfour)]
      · rw [map.getLE_outside hoffset hfour, exit_bind,
          if_pos ⟨⟨hpass, Nat.not_le.mp hinside⟩, fun h => absurd h hfour⟩]
    · rw [require_neg hpass, exit_bind, if_neg fun h => hpass h.1.1]

/-! ## The local header -/

/-- Where the data of an entry start, from the offset of its local header. -/
def dataOffset (offset : Nat) : Int :=
  wrap32 (offset + lochdr + map.word 2 (offset + locnam) + map.word 2 (offset + locext))

/-- The local header is inside the mapping, and so are the data of the entry as far as the
code can tell. -/
def LocalPasses (offset : Nat) (compLen : Int) : Prop :=
  offset + lochdr ≤ map.length ∧ map.word 4 offset = locsig ∧
    (-2 ^ 31 ≤ dataOffset map offset + compLen ∧ dataOffset map offset + compLen < 2 ^ 31) ∧
    (dataOffset map offset + compLen) % 2 ^ 32 ≤ map.length

/-- The local header is behind the end, and what there is of its signature is no reason to
refuse it. -/
def LocalStrays (offset : Nat) : Prop :=
  map.addr + offset < 2 ^ 32 ∧ map.Slips (offset + lochdr) ∧
    (offset + 4 ≤ map.length → map.word 4 offset = locsig)

instance (offset : Nat) (compLen : Int) : Decidable (LocalPasses map offset compLen) :=
  inferInstanceAs (Decidable (_ ∧ _))

instance (offset : Nat) : Decidable (LocalStrays map offset) :=
  inferInstanceAs (Decidable (_ ∧ _))

/-- `readLocal` when the local header is inside the mapping. -/
theorem readLocal_inside {header : CentralHeader} (compLen : Int)
    (hinside : header.localHdrOffset + lochdr ≤ map.length) :
    readLocal map header compLen =
      if LocalPasses map header.localHdrOffset compLen then
        .ok (dataOffset map header.localHdrOffset)
      else .error .bail := by
  have hheader := hinside
  rw [lochdr] at hheader
  have hlocal := map.address_of_le (by omega : header.localHdrOffset ≤ map.length)
  have hstop := map.stop_lt_word
  have hlt : map.addr + header.localHdrOffset < 2 ^ 32 := by
    rw [MemMapping.stop] at hstop
    omega
  unfold readLocal get4LE get2LE
  rw [require_pos hlt, value_bind, ← hlocal]
  simp only [map.add32_address]
  rw [require_pos (map.address_le_stop hinside), value_bind,
    map.getLE_inside (by omega : header.localHdrOffset + 4 ≤ map.length), value_bind]
  by_cases hsig : map.word 4 header.localHdrOffset = locsig
  · rw [require_pos hsig, value_bind,
      map.getLE_inside (by rw [locnam]; omega : header.localHdrOffset + locnam + 2 ≤ map.length),
      value_bind,
      map.getLE_inside (by rw [locext]; omega : header.localHdrOffset + locext + 2 ≤ map.length),
      value_bind]
    change (require (-2 ^ 31 ≤ dataOffset map header.localHdrOffset + compLen ∧
      dataOffset map header.localHdrOffset + compLen < 2 ^ 31) >>= fun _ =>
        require ((dataOffset map header.localHdrOffset + compLen) % 2 ^ 32 ≤ map.length) >>=
          fun _ => .ok (dataOffset map header.localHdrOffset)) = _
    by_cases hrange : -2 ^ 31 ≤ dataOffset map header.localHdrOffset + compLen ∧
        dataOffset map header.localHdrOffset + compLen < 2 ^ 31
    · rw [require_pos hrange, value_bind]
      by_cases hend : (dataOffset map header.localHdrOffset + compLen) % 2 ^ 32 ≤ map.length
      · rw [require_pos hend, value_bind, if_pos ⟨hinside, hsig, hrange, hend⟩]
      · rw [require_neg hend, exit_bind, if_neg fun h => hend h.2.2.2]
    · rw [require_neg hrange, exit_bind, if_neg fun h => hrange h.2.2.1]
  · rw [require_neg hsig, exit_bind, if_neg fun h => hsig h.2.1]

theorem readLocal_eq (header : CentralHeader) (compLen : Int) :
    readLocal map header compLen =
      if LocalStrays map header.localHdrOffset then .error .outOfBounds
      else if LocalPasses map header.localHdrOffset compLen then
        .ok (dataOffset map header.localHdrOffset)
      else .error .bail := by
  by_cases hinside : header.localHdrOffset + lochdr ≤ map.length
  · have hstays : ¬LocalStrays map header.localHdrOffset :=
      fun h => Nat.not_lt.mpr hinside h.2.1.2
    rw [readLocal_inside map compLen hinside, if_neg hstays]
  · rw [if_neg (fun h : LocalPasses map header.localHdrOffset compLen => hinside h.1)]
    by_cases hlt : map.addr + header.localHdrOffset < 2 ^ 32
    · have hlocal : map.addr + header.localHdrOffset = map.address header.localHdrOffset :=
        (Nat.mod_eq_of_lt hlt).symm
      have hlength := map.length_lt
      unfold readLocal get4LE get2LE
      rw [require_pos hlt, value_bind, hlocal]
      simp only [map.add32_address]
      by_cases hpass : map.address (header.localHdrOffset + lochdr) ≤ map.stop
      · have hslips : map.Slips (header.localHdrOffset + lochdr) := ⟨hpass, Nat.not_le.mp hinside⟩
        rw [lochdr] at hinside
        rw [require_pos hpass, value_bind]
        by_cases hfour : header.localHdrOffset + 4 ≤ map.length
        · rw [map.getLE_inside hfour, value_bind]
          by_cases hsig : map.word 4 header.localHdrOffset = locsig
          · rw [require_pos hsig, value_bind, if_pos ⟨hlt, hslips, fun _ => hsig⟩]
            have hext := @MemMapping.getLE_outside map (header.localHdrOffset + locext) 2
              (by rw [locext]; omega) (by rw [locext]; omega)
            by_cases hnam : header.localHdrOffset + locnam + 2 ≤ map.length
            · rw [map.getLE_inside hnam, value_bind, hext, exit_bind]
            · rw [map.getLE_outside (by rw [locnam]; omega) hnam, exit_bind]
          · rw [require_neg hsig, exit_bind, if_neg fun h => hsig (h.2.2 hfour)]
        · rw [map.getLE_outside (by omega) hfour, exit_bind,
            if_pos ⟨hlt, hslips, fun h => absurd h hfour⟩]
      · rw [require_neg hpass, exit_bind, if_neg fun h => hpass h.2.1.1]
    · unfold readLocal
      rw [require_neg hlt, exit_bind, if_neg fun h => hlt h.1]

/-! ## A whole record -/

/-- The compressed length of the record at an offset, as a `long`. -/
def compLenAt (offset : Nat) : Int :=
  wrap32 (map.word 4 (offset + censiz))

/-- The offset of the local header that the record refers to. -/
def localAt (offset : Nat) : Nat :=
  (headerAt map offset).localHdrOffset

/-- The entry that the code makes of a record. -/
def entryAt (offset : Nat) : ZipEntry where
  fileNameLen := (headerAt map offset).fileNameLen
  fileName := (headerAt map offset).fileName
  offset := dataOffset map (localAt map offset)
  compLen := compLenAt map offset
  uncompLen := wrap32 (map.word 4 (offset + cenlen))
  compression := map.word 2 (offset + cenhow)
  modTime := wrap32 (map.word 4 (offset + centim))
  crc32 := wrap32 (map.word 4 (offset + cencrc))
  versionMadeBy := map.word 2 (offset + cenvem)
  externalFileAttributes := wrap32 (map.word 4 (offset + cenatx))

/-- The record was made by a system that the code knows. -/
def VersionPasses (offset : Nat) : Prop :=
  map.word 2 (offset + cenvem) / 2 ^ 8 * 2 ^ 8 = 0 ∨
    map.word 2 (offset + cenvem) / 2 ^ 8 * 2 ^ 8 = cenvemUnix

instance (offset : Nat) : Decidable (VersionPasses map offset) :=
  inferInstanceAs (Decidable (_ ∨ _))

theorem readEntry_eq {offset : Nat} (hinside : offset + cenhdr ≤ map.length) :
    readEntry map (map.address offset) (headerAt map offset) =
      if VersionPasses map offset ∧ LocalStrays map (localAt map offset) then .error .outOfBounds
      else if VersionPasses map offset ∧
        LocalPasses map (localAt map offset) (compLenAt map offset) then .ok (entryAt map offset)
      else .error .bail := by
  rw [cenhdr] at hinside
  unfold readEntry get4LE get2LE
  simp only [map.add32_address]
  rw [map.getLE_inside (by rw [censiz]; omega : offset + censiz + 4 ≤ map.length), value_bind,
    map.getLE_inside (by rw [cenlen]; omega : offset + cenlen + 4 ≤ map.length), value_bind,
    map.getLE_inside (by rw [cenhow]; omega : offset + cenhow + 2 ≤ map.length), value_bind,
    map.getLE_inside (by rw [centim]; omega : offset + centim + 4 ≤ map.length), value_bind,
    map.getLE_inside (by rw [cencrc]; omega : offset + cencrc + 4 ≤ map.length), value_bind,
    map.getLE_inside (by rw [cenvem]; omega : offset + cenvem + 2 ≤ map.length), value_bind]
  by_cases hversion : VersionPasses map offset
  · have hcheck := hversion
    rw [VersionPasses] at hcheck
    rw [require_pos hcheck, value_bind,
      map.getLE_inside (by rw [cenatx]; omega : offset + cenatx + 4 ≤ map.length), value_bind]
    have hlocal := readLocal_eq map (headerAt map offset) (compLenAt map offset)
    rw [compLenAt, ← localAt, ← compLenAt] at hlocal
    by_cases hstrays : LocalStrays map (localAt map offset)
    · rw [if_pos hstrays] at hlocal
      rw [← compLenAt, hlocal, exit_bind, if_pos ⟨hversion, hstrays⟩]
    · rw [if_neg hstrays] at hlocal
      rw [if_neg fun h : _ ∧ _ => hstrays h.2]
      by_cases hpasses : LocalPasses map (localAt map offset) (compLenAt map offset)
      · rw [if_pos hpasses] at hlocal
        rw [← compLenAt, hlocal, value_bind, if_pos ⟨hversion, hpasses⟩]
        rfl
      · rw [if_neg hpasses] at hlocal
        rw [← compLenAt, hlocal, exit_bind, if_neg fun h => hpasses h.2]
  · have hcheck := hversion
    rw [VersionPasses] at hcheck
    rw [require_neg hcheck, exit_bind, if_neg fun h => hversion h.1, if_neg fun h => hversion h.1]

/-- The record passes all the checks of the code. -/
def Passes (offset : Nat) : Prop :=
  HeaderPasses map offset ∧ VersionPasses map offset ∧
    LocalPasses map (localAt map offset) (compLenAt map offset)

/-- The record, its name or its local header slips past the check of its end, and nothing
before makes the code refuse the record. -/
def Strays (offset : Nat) : Prop :=
  HeaderStrays map offset ∨ NameStrays map offset ∨
    (HeaderPasses map offset ∧ VersionPasses map offset ∧ LocalStrays map (localAt map offset))

instance (offset : Nat) : Decidable (Passes map offset) :=
  inferInstanceAs (Decidable (_ ∧ _))

instance (offset : Nat) : Decidable (Strays map offset) :=
  inferInstanceAs (Decidable (_ ∨ _))

theorem HeaderPasses.inside {offset : Nat} (hpasses : HeaderPasses map offset) :
    offset + cenhdr ≤ map.length :=
  (Nat.le_add_right _ _).trans hpasses.2.1

/-- A record that passes does not stray. -/
theorem Passes.not_strays {offset : Nat} (hpasses : Passes map offset) : ¬Strays map offset := by
  obtain ⟨hheader, -, hlocal⟩ := hpasses
  have hinside := hheader.inside
  rintro (hstrays | hstrays | ⟨-, -, hstrays⟩)
  · exact Nat.not_lt.mpr hinside hstrays.1.2
  · exact Nat.not_lt.mpr hheader.2.1 hstrays.2.2.1.2
  · exact Nat.not_lt.mpr hlocal.1 hstrays.2.1.2

end OpenRecovery.Minzip
