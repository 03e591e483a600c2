import OpenRecovery.ZipIndex
import Mathlib

/-!
# Which archives the parser handles safely

The parser compares addresses with the end of the mapping, and most of these sums are not
checked for overflow.  A record can slip past a check when its address wraps around, and
then the next read is outside the mapping.  The lengths and offsets of the entries are
kept with a sign, and their sum is checked only as a whole.
-/

namespace OpenRecovery.Minzip

open Words

variable {map : MemMapping}

/-- The data and the name of the entry are inside the mapping. -/
def ZipEntry.InBounds (map : MemMapping) (entry : ZipEntry) : Prop :=
  0 ≤ entry.offset ∧ 0 ≤ entry.compLen ∧ entry.offset + entry.compLen ≤ map.length ∧
    entry.NameInside map

/-- The parser does not read outside the mapping, and all its entries are in bounds. -/
def ParsesSafely (map : MemMapping) (alloc : Nat → Bool) : Prop :=
  parseZipArchive map alloc ≠ .error .outOfBounds ∧
    ∀ archive, parseZipArchive map alloc = .ok archive →
      ∀ entry ∈ archive.pEntries, entry.InBounds map

/-- Where the data of an entry start, before the sum is cut down to a `long`. -/
def dataStart (map : MemMapping) (offset : Nat) : Nat :=
  offset + lochdr + map.word 2 (offset + locnam) + map.word 2 (offset + locext)

/-- The fields of the record are no negative numbers when a `long` holds them. -/
def FitsLong (map : MemMapping) (record : Nat) : Prop :=
  map.word 4 (record + censiz) < 2 ^ 31 ∧ dataStart map (localAt map record) % 2 ^ 32 < 2 ^ 31

instance (record : Nat) : Decidable (FitsLong map record) :=
  inferInstanceAs (Decidable (_ ∧ _))

theorem compLenAt_nonneg_iff (record : Nat) :
    0 ≤ compLenAt map record ↔ map.word 4 (record + censiz) < 2 ^ 31 := by
  have hword : map.word 4 (record + censiz) < 2 ^ 32 := map.word_lt 4 _
  rw [compLenAt, wrap32_nonneg_iff]
  omega

theorem dataOffset_nonneg_iff (offset : Nat) :
    0 ≤ dataOffset map offset ↔ dataStart map offset % 2 ^ 32 < 2 ^ 31 := by
  rw [dataOffset, wrap32_nonneg_iff, dataStart]
  omega

/-- The entry of a record that passes the checks is in bounds just when its fields are no
negative numbers. -/
theorem Passes.inBounds_iff {record : Nat} (hpasses : Passes map record) :
    (entryAt map record).InBounds map ↔ FitsLong map record := by
  obtain ⟨hheader, -, -, -, ⟨-, hhigh⟩, hend⟩ := hpasses
  rw [FitsLong, ← compLenAt_nonneg_iff, ← dataOffset_nonneg_iff]
  constructor
  · rintro ⟨hoffset, hcompLen, -⟩
    exact ⟨hcompLen, hoffset⟩
  · rintro ⟨hcompLen, hoffset⟩
    refine ⟨hoffset, hcompLen, ?_, hheader.nameInside⟩
    change dataOffset map (localAt map record) + compLenAt map record ≤ map.length
    rwa [Int.emod_eq_of_lt (by omega) (by omega)] at hend

/-- The parser handles an archive safely exactly when it does not come to its records, or
has no memory for them, or none of them slips past a check because a sum wraps around and,
if they all pass the checks, none of them has a negative field. -/
theorem parsesSafely_iff (hlength : endhdr ≤ map.length) (alloc : Nat → Bool) :
    ParsesSafely map alloc ↔
      ∀ offset, Begins map offset → Allocates alloc (recordCount map offset) →
        StaysInside map (announcedOffsets map offset) ∧
          ((∀ record ∈ announcedOffsets map offset, Passes map record) →
            ∀ record ∈ announcedOffsets map offset, FitsLong map record) := by
  constructor
  · rintro ⟨hinside, hbounds⟩ offset hbegins halloc
    rw [parseZipArchive_begins hlength hbegins] at hinside hbounds
    obtain ⟨hleaves, -, haccepts⟩ := indexRecords_cases halloc
    refine ⟨?_, fun hpasses record hrecord => ?_⟩
    · by_contra hstrays
      exact hinside (hleaves hstrays)
    · obtain ⟨archive, hparse, hfaithful⟩ := haccepts hpasses
      have hentry : entryAt map record ∈ archive.pEntries :=
        hfaithful.perm.mem_iff.mpr (List.mem_map_of_mem hrecord)
      exact (hpasses record hrecord).inBounds_iff.mp (hbounds archive hparse _ hentry)
  · intro hcondition
    constructor
    · intro hleaves
      by_cases hbegins : ∃ offset, Begins map offset
      · obtain ⟨offset, hbegins⟩ := hbegins
        rw [parseZipArchive_begins hlength hbegins] at hleaves
        by_cases halloc : Allocates alloc (recordCount map offset)
        · obtain ⟨-, hrefuses, haccepts⟩ := @indexRecords_cases map _ _ halloc
          by_cases hpasses : ∀ record ∈ announcedOffsets map offset, Passes map record
          · obtain ⟨archive, hparse, -⟩ := haccepts hpasses
            cases hleaves.symm.trans hparse
          · have hrefused := hrefuses (hcondition offset hbegins halloc).1 hpasses
            cases hleaves.symm.trans hrefused
        · cases hleaves.symm.trans (indexRecords_denied halloc _)
      · cases hleaves.symm.trans (parseZipArchive_bails hlength (not_exists.mp hbegins) alloc)
    · intro archive hparse entry hentry
      obtain ⟨offset, hbegins, halloc, hpasses, hfaithful⟩ := parseZipArchive_accepts hparse
      obtain ⟨record, hrecord, rfl⟩ := List.mem_map.mp (hfaithful.perm.mem_iff.mp hentry)
      have hfits := (hcondition offset hbegins halloc).2 hpasses record hrecord
      exact (hpasses record hrecord).inBounds_iff.mpr hfits

theorem sampleAddress_page : 4096 ≤ 0x40000000 := by decide

/-- An archive with one empty file, whose record has some offset of the local header and
some compressed length. -/
def oneFile (localHdrOffset compLen : Bytes) (hlocal : localHdrOffset.length = 4)
    (hcomp : compLen.length = 4) : MemMapping where
  addr := 0x40000000
  data := emptyLocal [97] ++ ([0x50, 0x4b, 1, 2] ++ List.replicate 16 0 ++ compLen ++
    [0, 0, 0, 0, 1, 0] ++ List.replicate 12 0 ++ localHdrOffset ++ [97]) ++
    [0x50, 0x4b, 5, 6, 0, 0, 0, 0, 1, 0, 1, 0, 47, 0, 0, 0, 31, 0, 0, 0, 0, 0]
  page_le := sampleAddress_page
  stop_lt := by
    simp [emptyLocal, hlocal, hcomp]

theorem parsesSafely_oneFile :
    ParsesSafely (oneFile [0, 0, 0, 0] [0, 0, 0, 0] rfl rfl) fun _ => true := by
  refine (parsesSafely_iff (by decide) _).mpr ?_
  rintro offset ⟨-, hend, -⟩ -
  have hlast : endOffset (oneFile [0, 0, 0, 0] [0, 0, 0, 0] rfl rfl)
      ((oneFile [0, 0, 0, 0] [0, 0, 0, 0] rfl rfl).length - endhdr) = some 78 := by
    decide
  obtain rfl := Option.some.inj (hlast.symm.trans hend)
  with_unfolding_all decide

/-- A local header 16 bytes before the end of the address space: its end is a small address,
and its signature is read outside the mapping.  And a length of `0xfffffff6` is taken for
-10. -/
theorem parser_trusts_sums :
    ¬ParsesSafely (oneFile [0xf0, 0xff, 0xff, 0xbf] [0, 0, 0, 0] rfl rfl) (fun _ => true) ∧
      ¬ParsesSafely (oneFile [0, 0, 0, 0] [0xf6, 0xff, 0xff, 0xff] rfl rfl) fun _ => true := by
  constructor
  · rintro ⟨hinside, -⟩
    have hexit : ((parseZipArchive (oneFile [0xf0, 0xff, 0xff, 0xbf] [0, 0, 0, 0] rfl rfl)
        fun _ => true).map fun _ => ()) = .error .outOfBounds := by
      decide
    cases hparse : parseZipArchive (oneFile [0xf0, 0xff, 0xff, 0xbf] [0, 0, 0, 0] rfl rfl)
        (fun _ => true) with
    | error exit =>
        rw [hparse] at hexit hinside
        cases hexit
        exact hinside rfl
    | ok archive =>
        rw [hparse] at hexit
        cases hexit
  · rintro ⟨-, hbounds⟩
    have hlengths : ((parseZipArchive (oneFile [0, 0, 0, 0] [0xf6, 0xff, 0xff, 0xff] rfl rfl)
        fun _ => true).toOption.map fun archive => archive.pEntries.map ZipEntry.compLen) =
          some [-10] := by
      with_unfolding_all decide
    cases hparse : parseZipArchive (oneFile [0, 0, 0, 0] [0xf6, 0xff, 0xff, 0xff] rfl rfl)
        (fun _ => true) with
    | error exit =>
        rw [hparse] at hlengths
        cases hlengths
    | ok archive =>
        rw [hparse] at hlengths
        have hnegative : (-10 : Int) ∈ archive.pEntries.map ZipEntry.compLen := by
          have hlist : archive.pEntries.map ZipEntry.compLen = [-10] := Option.some.inj hlengths
          rw [hlist]
          exact List.mem_singleton_self _
        obtain ⟨entry, hentry, hcompLen⟩ := List.mem_map.mp hnegative
        have hnonneg := (hbounds archive hparse entry hentry).2.1
        rw [hcompLen] at hnonneg
        exact absurd hnonneg (by decide)

end OpenRecovery.Minzip
