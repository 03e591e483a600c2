import OpenRecovery.ZipRecords
import Mathlib

/-!
# The index of an archive is faithful

Every record is inserted where a binary search has found its place, so the entries stay
sorted by their names.  At last the place of every entry is put into the hash table, and
an entry is found again by its name.
-/

namespace OpenRecovery.Minzip

open Words

/-! ## The order of names -/

/-- The comparison of the binary search is the lexicographic order of the names. -/
theorem strncmp_then_compare (left right : Bytes) :
    (strncmp (left.take (min left.length right.length))
      (right.take (min left.length right.length))).then (compare left.length right.length) =
        compare left right := by
  induction left generalizing right with
  | nil =>
      cases right with
      | nil => rfl
      | cons byte right => simp [strncmp, List.compare_nil_cons, Nat.compare_eq_lt]
  | cons byte left ih =>
      cases right with
      | nil => simp [strncmp, List.compare_cons_nil, Nat.compare_eq_gt]
      | cons other right =>
          have hmin : min (byte :: left).length (other :: right).length =
              min left.length right.length + 1 := by
            rw [List.length_cons, List.length_cons, Nat.succ_min_succ]
          have hlengths : compare (byte :: left).length (other :: right).length =
              compare left.length right.length := by
            simp [Nat.compare_eq_ite_lt]
          rw [hmin, List.take_succ_cons, List.take_succ_cons, strncmp, Ordering.then_assoc, hlengths,
            ih, List.compare_cons_cons]

variable (map : MemMapping)

/-- The name is inside the mapping. -/
def ZipEntry.NameInside (entry : ZipEntry) : Prop :=
  map.addr ≤ entry.fileName ∧ entry.fileName + entry.fileNameLen ≤ map.stop

/-- The entries are sorted by their names. -/
def Sorted (entries : List ZipEntry) : Prop :=
  entries.Pairwise fun left right => (compare (left.name map) (right.name map)).isLE = true

theorem bytesAt_length {ptr len : Nat} (hinside : map.addr ≤ ptr ∧ ptr + len ≤ map.stop) :
    (map.bytesAt ptr len).length = len := by
  rw [MemMapping.stop, MemMapping.length] at hinside
  rw [MemMapping.bytesAt, List.length_take, List.length_drop]
  omega

theorem bytesAt_take {ptr len count : Nat} (hcount : count ≤ len) :
    map.bytesAt ptr count = (map.bytesAt ptr len).take count := by
  rw [MemMapping.bytesAt, MemMapping.bytesAt, List.take_take, Nat.min_eq_left hcount]

variable {map}

/-- Two names inside the mapping are compared without leaving it. -/
theorem compareNames_eq {entry record : ZipEntry} (hentry : entry.NameInside map)
    (hrecord : record.NameInside map) :
    compareNames map entry record.fileName record.fileNameLen =
      .ok (compare (entry.name map) (record.name map)) := by
  have hleft : (entry.name map).length = entry.fileNameLen := bytesAt_length map hentry
  have hright : (record.name map).length = record.fileNameLen := bytesAt_length map hrecord
  have hread : ∀ {other : ZipEntry} {count : Nat}, other.NameInside map →
      count ≤ other.fileNameLen →
      map.read other.fileName count = .ok ((other.name map).take count) := by
    intro other count hother hcount
    rw [MemMapping.read, if_pos ⟨hother.1, by have := hother.2; omega⟩, bytesAt_take map hcount]
    rfl
  rw [← strncmp_then_compare, hleft, hright, compareNames, hread hentry (Nat.min_le_left ..),
    value_bind, hread hrecord (Nat.min_le_right ..), value_bind]
  rfl

/-! ## The binary search -/

section Search

variable {entries : List ZipEntry} {record : ZipEntry}

/-- The entries before a place are not greater than the record. -/
def LowUpTo (map : MemMapping) (entries : List ZipEntry) (record : ZipEntry) (place : Nat) : Prop :=
  ∀ i entry, entries[i]? = some entry → i < place →
    (compare (entry.name map) (record.name map)).isLE = true

/-- The entries from a place on are not less than the record. -/
def HighFrom (map : MemMapping) (entries : List ZipEntry) (record : ZipEntry) (place : Nat) : Prop :=
  ∀ i entry, entries[i]? = some entry → place ≤ i →
    (compare (record.name map) (entry.name map)).isLE = true

theorem Sorted.le (hsorted : Sorted map entries) {i j : Nat} {first second : ZipEntry}
    (hfirst : entries[i]? = some first) (hsecond : entries[j]? = some second) (hij : i ≤ j) :
    (compare (first.name map) (second.name map)).isLE = true := by
  rcases Nat.eq_or_lt_of_le hij with rfl | hlt
  · obtain rfl := Option.some.inj (hfirst.symm.trans hsecond)
    exact Std.ReflCmp.isLE_rfl
  · obtain ⟨hi, rfl⟩ := List.getElem?_eq_some_iff.mp hfirst
    obtain ⟨hj, rfl⟩ := List.getElem?_eq_some_iff.mp hsecond
    exact List.pairwise_iff_getElem.mp hsorted i j hi hj hlt

theorem Sorted.lowUpTo (hsorted : Sorted map entries) {mid : Nat} {entry : ZipEntry}
    (hentry : entries[mid]? = some entry)
    (hle : (compare (entry.name map) (record.name map)).isLE = true) :
    LowUpTo map entries record (mid + 1) :=
  fun _ _ hother hi =>
    Std.TransCmp.isLE_trans (hsorted.le hother hentry (Nat.le_of_lt_succ hi)) hle

theorem Sorted.highFrom (hsorted : Sorted map entries) {mid place : Nat} {entry : ZipEntry}
    (hentry : entries[mid]? = some entry) (hplace : mid ≤ place)
    (hle : (compare (record.name map) (entry.name map)).isLE = true) :
    HighFrom map entries record place :=
  fun _ _ hother hi =>
    Std.TransCmp.isLE_trans hle (hsorted.le hentry hother (hplace.trans hi))

/-- The search finds a place where the record can be inserted. -/
theorem searchTarget_spec (hinside : ∀ entry ∈ entries, entry.NameInside map)
    (hrecord : record.NameInside map) (hsorted : Sorted map entries) {fuel low stop : Nat}
    (hlow : low ≤ stop) (hstop : stop ≤ entries.length) (hfuel : stop - low < fuel)
    (hbefore : LowUpTo map entries record low) (hafter : HighFrom map entries record stop) :
    ∃ target, searchTarget map entries record.fileName record.fileNameLen fuel low stop =
        .ok target ∧
      target ≤ entries.length ∧ LowUpTo map entries record target ∧
      HighFrom map entries record target := by
  induction fuel generalizing low stop with
  | zero => exact absurd hfuel (Nat.not_lt_zero _)
  | succ fuel ih =>
      rw [searchTarget]
      by_cases hactive : low < stop
      · obtain ⟨mid, hmid⟩ : ∃ mid, mid = low + (stop - 1 - low) / 2 := ⟨_, rfl⟩
        have hmidStop : mid < stop := by omega
        have hmidLow : low ≤ mid := by omega
        have hlt : mid < entries.length := by omega
        have hentry : entries[mid]? = some entries[mid] := List.getElem?_eq_getElem hlt
        have hcompare := compareNames_eq (hinside _ (List.getElem_mem hlt)) hrecord
        simp only [← hmid]
        rw [if_pos hactive, hentry]
        dsimp only
        rw [hcompare, value_bind]
        cases horder : compare (entries[mid].name map) (record.name map) with
        | lt =>
            refine ih (by omega) hstop (by omega) ?_ hafter
            exact hsorted.lowUpTo hentry (by rw [horder]; rfl)
        | gt =>
            refine ih hmidLow (by omega) (by omega) hbefore ?_
            refine hsorted.highFrom hentry le_rfl ?_
            rw [Std.OrientedCmp.lt_of_gt horder]
            rfl
        | eq =>
            refine ⟨mid + 1, rfl, hlt, hsorted.lowUpTo hentry (by rw [horder]; rfl), ?_⟩
            refine hsorted.highFrom hentry (Nat.le_succ mid) ?_
            rw [Std.OrientedCmp.eq_symm horder]
            rfl
      · rw [if_neg hactive]
        obtain rfl : low = stop := by omega
        exact ⟨low, rfl, hstop, hbefore, hafter⟩

theorem insertIdx_eq_append (entries : List ZipEntry) {target : Nat}
    (htarget : target ≤ entries.length) (record : ZipEntry) :
    entries.insertIdx target record = entries.take target ++ record :: entries.drop target := by
  induction entries generalizing target with
  | nil =>
      obtain rfl : target = 0 := Nat.le_zero.mp htarget
      rfl
  | cons entry entries ih =>
      cases target with
      | zero => rfl
      | succ target =>
          rw [List.insertIdx_succ_cons, ih (Nat.le_of_succ_le_succ htarget), List.take_succ_cons,
            List.drop_succ_cons, List.cons_append]

/-- The insertion keeps the entries sorted. -/
theorem Sorted.insertIdx (hsorted : Sorted map entries) {target : Nat}
    (htarget : target ≤ entries.length) (hbefore : LowUpTo map entries record target)
    (hafter : HighFrom map entries record target) :
    Sorted map (entries.insertIdx target record) := by
  have hlow : ∀ entry ∈ entries.take target,
      (compare (entry.name map) (record.name map)).isLE = true := by
    intro entry hmem
    obtain ⟨i, hi, hentry⟩ := List.mem_take_iff_getElem.mp hmem
    exact hbefore i entry (hentry ▸ List.getElem?_eq_getElem _) (lt_of_lt_of_le hi (min_le_left _ _))
  have hhigh : ∀ entry ∈ entries.drop target,
      (compare (record.name map) (entry.name map)).isLE = true := by
    intro entry hmem
    obtain ⟨i, hi, hentry⟩ := List.mem_drop_iff_getElem.mp hmem
    exact hafter (target + i) entry (hentry ▸ List.getElem?_eq_getElem _) (Nat.le_add_right _ _)
  have hparts := hsorted
  rw [← List.take_append_drop target entries, Sorted, List.pairwise_append] at hparts
  rw [insertIdx_eq_append entries htarget, Sorted, List.pairwise_append, List.pairwise_cons]
  refine ⟨hparts.1, ⟨hhigh, hparts.2.1⟩, ?_⟩
  intro left hleft right hright
  rcases List.mem_cons.mp hright with rfl | hright
  · exact hlow left hleft
  · exact hparts.2.2 left hleft right hright

end Search

/-! ## The loop over the records -/

/-- The offset of the record after the one at an offset. -/
def nextOffset (map : MemMapping) (offset : Nat) : Nat :=
  (offset + (cenhdr + (headerAt map offset).fileNameLen + (headerAt map offset).extraLen +
    (headerAt map offset).commentLen)) % 2 ^ 32

/-- The offsets of the records of the central directory. -/
def recordOffsets (map : MemMapping) : (count offset : Nat) → List Nat
  | 0, _ => []
  | count + 1, offset => offset :: recordOffsets map count (nextOffset map offset)

/-- No record to which the loop comes slips past a check because a sum wraps around. -/
def StaysInside (map : MemMapping) : List Nat → Prop
  | [] => True
  | offset :: offsets => ¬Strays map offset ∧ (Passes map offset → StaysInside map offsets)

instance StaysInside.decidable : (offsets : List Nat) → Decidable (StaysInside map offsets)
  | [] => isTrue trivial
  | offset :: offsets =>
      have := StaysInside.decidable offsets
      inferInstanceAs
        (Decidable (¬Strays map offset ∧ (Passes map offset → StaysInside map offsets)))

theorem HeaderPasses.nameInside {offset : Nat} (hpasses : HeaderPasses map offset) :
    (entryAt map offset).NameInside map := by
  have hend := hpasses.2.1
  have haddress := map.address_of_le hpasses.inside
  rw [nameEnd] at hend
  change map.addr ≤ map.address (offset + cenhdr) ∧
    map.address (offset + cenhdr) + (headerAt map offset).fileNameLen ≤ map.stop
  rw [haddress, MemMapping.stop]
  omega

section Loop

variable {entries : List ZipEntry} {offset : Nat}

theorem HeaderPasses.not_headerStrays (hpasses : HeaderPasses map offset) :
    ¬(HeaderStrays map offset ∨ NameStrays map offset) := by
  rintro (hstrays | hstrays)
  · exact Nat.not_lt.mpr hpasses.inside hstrays.1.2
  · exact Nat.not_lt.mpr hpasses.2.1 hstrays.2.2.1.2

/-- The loop at a record whose header passes. -/
theorem readEntries_header (count : Nat) {target : Nat} (hpasses : HeaderPasses map offset)
    (hoffset : offset < 2 ^ 32) (htarget : target ≤ entries.length)
    (hsearch : searchTarget map entries (headerAt map offset).fileName
      (headerAt map offset).fileNameLen (entries.length + 1) 0 entries.length = .ok target) :
    readEntries map (count + 1) entries (map.address offset) =
      if Strays map offset then .error .outOfBounds
      else if Passes map offset then
        readEntries map count (entries.insertIdx target (entryAt map offset))
          (map.address (nextOffset map offset))
      else .error .bail := by
  have hearly := hpasses.not_headerStrays
  have hstrays : Strays map offset ↔
      VersionPasses map offset ∧ LocalStrays map (localAt map offset) := by
    refine ⟨?_, fun h => .inr (.inr ⟨hpasses, h⟩)⟩
    rintro (h | h | h)
    · exact absurd (.inl h) hearly
    · exact absurd (.inr h) hearly
    · exact h.2
  have hwhole : Passes map offset ↔ VersionPasses map offset ∧
      LocalPasses map (localAt map offset) (compLenAt map offset) :=
    and_iff_right hpasses
  rw [readEntries, readCentral_address map hoffset, if_neg hearly, if_pos hpasses, value_bind,
    hsearch, value_bind, if_neg (Nat.not_lt.mpr htarget), readEntry_eq map hpasses.inside,
    ← if_congr hstrays rfl rfl, ← if_congr hwhole rfl rfl]
  by_cases hs : Strays map offset
  · rw [if_pos hs, if_pos hs, exit_bind]
  · rw [if_neg hs, if_neg hs]
    by_cases hp : Passes map offset
    · rw [if_pos hp, if_pos hp, value_bind, map.add32_address, ← map.address_mod]
      rfl
    · rw [if_neg hp, if_neg hp, exit_bind]

/-- What the loop does with a record: it leaves the mapping, gives up, or inserts the
entry and goes on. -/
theorem readEntries_step (hoffset : offset < 2 ^ 32) (count : Nat)
    (hinside : ∀ entry ∈ entries, entry.NameInside map) (hsorted : Sorted map entries) :
    ∃ target ≤ entries.length, (HeaderPasses map offset →
        LowUpTo map entries (entryAt map offset) target ∧
          HighFrom map entries (entryAt map offset) target) ∧
      readEntries map (count + 1) entries (map.address offset) =
        if Strays map offset then .error .outOfBounds
        else if Passes map offset then
          readEntries map count (entries.insertIdx target (entryAt map offset))
            (map.address (nextOffset map offset))
        else .error .bail := by
  by_cases hpasses : HeaderPasses map offset
  · obtain ⟨target, hsearch, htarget, hlow, hhigh⟩ :=
      searchTarget_spec hinside hpasses.nameInside hsorted (Nat.zero_le _) le_rfl
        (show entries.length - 0 < entries.length + 1 by omega) (fun _ _ _ h => nomatch h)
        (fun i _ hentry hle => absurd (List.getElem?_eq_some_iff.mp hentry).1 (Nat.not_lt.mpr hle))
    exact ⟨target, htarget, fun _ => ⟨hlow, hhigh⟩,
      readEntries_header count hpasses hoffset htarget hsearch⟩
  · refine ⟨0, Nat.zero_le _, fun h => absurd h hpasses, ?_⟩
    have hstrays : Strays map offset ↔ HeaderStrays map offset ∨ NameStrays map offset := by
      rw [Strays, ← or_assoc]
      exact or_iff_left fun h => hpasses h.1
    rw [readEntries, readCentral_address map hoffset, if_neg hpasses, if_congr hstrays rfl rfl,
      if_neg fun h : Passes map offset => hpasses h.1]
    split <;> rfl

/-- The offset after a record is a word. -/
theorem nextOffset_lt (map : MemMapping) (offset : Nat) : nextOffset map offset < 2 ^ 32 :=
  Nat.mod_lt _ (by decide)

/-- The whole loop: it leaves the mapping, gives up, or has inserted all the records. -/
theorem readEntries_cases (hoffset : offset < 2 ^ 32) (count : Nat)
    (hinside : ∀ entry ∈ entries, entry.NameInside map) (hsorted : Sorted map entries) :
    (¬StaysInside map (recordOffsets map count offset) →
        readEntries map count entries (map.address offset) = .error .outOfBounds) ∧
      (StaysInside map (recordOffsets map count offset) →
        ¬(∀ record ∈ recordOffsets map count offset, Passes map record) →
          readEntries map count entries (map.address offset) = .error .bail) ∧
      ((∀ record ∈ recordOffsets map count offset, Passes map record) →
        ∃ result, readEntries map count entries (map.address offset) = .ok result ∧
          result.Perm ((recordOffsets map count offset).map (entryAt map) ++ entries) ∧
          Sorted map result) := by
  induction count generalizing entries offset with
  | zero =>
      refine ⟨fun h => absurd trivial h, fun _ h => ?_, fun _ => ⟨entries, rfl, .refl _, hsorted⟩⟩
      exact absurd (List.forall_mem_nil _) h
  | succ count ih =>
      obtain ⟨target, htarget, hplace, hstep⟩ := readEntries_step hoffset count hinside hsorted
      rw [hstep]
      simp only [recordOffsets, StaysInside, List.forall_mem_cons, List.map_cons]
      by_cases hstrays : Strays map offset
      · rw [if_pos hstrays]
        refine ⟨fun _ => rfl, fun h => absurd hstrays h.1, fun h => ?_⟩
        exact absurd hstrays h.1.not_strays
      · rw [if_neg hstrays]
        by_cases hpasses : Passes map offset
        · rw [if_pos hpasses]
          have hinside' : ∀ entry ∈ entries.insertIdx target (entryAt map offset),
              entry.NameInside map := by
            intro entry hentry
            rcases (List.mem_insertIdx htarget).mp hentry with rfl | hentry
            · exact hpasses.1.nameInside
            · exact hinside entry hentry
          obtain ⟨hlow, hhigh⟩ := hplace hpasses.1
          obtain ⟨hleaves, hrefuses, haccepts⟩ :=
            ih (nextOffset_lt map offset) hinside' (hsorted.insertIdx htarget hlow hhigh)
          refine ⟨fun h => hleaves fun hstays => h ⟨hstrays, fun _ => hstays⟩,
            fun h hnot => hrefuses (h.2 hpasses) fun hall => hnot ⟨hpasses, hall⟩, fun hall => ?_⟩
          obtain ⟨result, hresult, hperm, hsorted'⟩ := haccepts hall.2
          refine ⟨result, hresult, hperm.trans ?_, hsorted'⟩
          refine ((List.perm_insertIdx _ entries htarget).append_left _).trans ?_
          exact List.perm_middle
        · rw [if_neg hpasses]
          exact ⟨fun h => absurd ⟨hstrays, fun h => absurd h hpasses⟩ h, fun _ _ => rfl,
            fun h => absurd h.1 hpasses⟩

end Loop

/-! ## The table of names -/

section Table

variable {entries : List ZipEntry} {table : HashTable Nat}

/-- The hash of the entry at a place. -/
def placeHash (map : MemMapping) (entries : List ZipEntry) (place : Nat) : Nat :=
  (entries[place]?).elim 0 fun entry => computeHash (entry.name map)

theorem ZipEntry.NameInside.length {entry : ZipEntry} (hentry : entry.NameInside map) :
    (entry.name map).length = entry.fileNameLen :=
  bytesAt_length map hentry

theorem ZipEntry.NameInside.read {entry : ZipEntry} (hentry : entry.NameInside map) :
    map.read entry.fileName entry.fileNameLen = .ok (entry.name map) :=
  if_pos hentry

/-- The comparison of two entries compares their names. -/
theorem hashcmpZipEntry_iff {left right : ZipEntry} (hleft : left.NameInside map)
    (hright : right.NameInside map) :
    hashcmpZipEntry map left right = true ↔ left.name map = right.name map := by
  rw [hashcmpZipEntry, Bool.and_eq_true, decide_eq_true_eq, decide_eq_true_eq]
  refine ⟨fun h => h.2, fun h => ⟨?_, h⟩⟩
  rw [← hleft.length, ← hright.length, h]

theorem hashcmpZipName_iff {entry : ZipEntry} (hentry : entry.NameInside map) (name : Bytes) :
    hashcmpZipName map entry name = true ↔ entry.name map = name := by
  rw [hashcmpZipName, Bool.and_eq_true, decide_eq_true_eq, decide_eq_true_eq]
  refine ⟨fun h => h.2, fun h => ⟨?_, h⟩⟩
  rw [← hentry.length, h]

/-- The table is sound, holds only places of entries, and is not too full for `left` more. -/
structure Indexes (map : MemMapping) (entries : List ZipEntry) (left : Nat)
    (table : HashTable Nat) : Prop where
  sound : table.Sound (placeHash map entries)
  places : ∀ place, table.Holds place → place < entries.length
  dead : table.numDeadEntries = 0
  load : (table.numEntries + left) * loadDenom ≤ table.tableSize * loadNumer

/-- The table holds an entry with the name. -/
def Finds (map : MemMapping) (entries : List ZipEntry) (table : HashTable Nat) (name : Bytes) :
    Prop :=
  ∃ place entry, table.Holds place ∧ entries[place]? = some entry ∧ entry.name map = name

/-- After an entry has been added, its name can be found. -/
theorem Indexes.add {left : Nat} (hindexes : Indexes map entries (left + 1) table)
    (hinside : ∀ entry ∈ entries, entry.NameInside map) (alloc : Nat → Bool) {place : Nat}
    {entry : ZipEntry} (hentry : entries[place]? = some entry) :
    ∃ after, addEntryToHashTable map alloc entries table place = .ok after ∧
      Indexes map entries left after ∧ Finds map entries after (entry.name map) ∧
      ∀ name, Finds map entries table name → Finds map entries after name := by
  have hmem := List.mem_of_getElem? hentry
  have hname := hinside entry hmem
  have hhash : placeHash map entries place = computeHash (entry.name map) := by
    rw [placeHash, hentry]
    rfl
  have hmatch : ∀ {other : Nat}, ((entries[other]?).any fun found =>
      hashcmpZipEntry map found entry) = true →
        ∃ found, entries[other]? = some found ∧ found.name map = entry.name map := by
    intro other hany
    obtain ⟨found, hfound, hsame⟩ := (Option.any_eq_true ..).mp hany
    have hother := hinside found (List.mem_of_getElem? hfound)
    exact ⟨found, hfound, (hashcmpZipEntry_iff hother hname).mp hsame⟩
  have hload := hindexes.load
  simp only [loadDenom, loadNumer] at hload
  obtain ⟨result, after, hlookup, hsound, hsize, hcount, hdead, hnew, hold, hfound⟩ :=
    @HashTable.Sound.add _ _ table
      (fun other => (entries[other]?).any fun found => hashcmpZipEntry map found entry)
      hindexes.sound alloc place
      (by
        intro other _ hany
        obtain ⟨found, hfound, hsame⟩ := hmatch hany
        rw [hhash, placeHash, hfound, ← hsame]
        rfl)
      (by
        simp only [loadDenom, loadNumer, hindexes.dead]
        omega)
  refine ⟨after, ?_, ⟨hsound, ?_, ?_, ?_⟩, ?_, ?_⟩
  · rw [addEntryToHashTable, hentry]
    dsimp only
    rw [hname.read, value_bind, ← hhash, hlookup]
    rfl
  · intro other hother
    rcases hnew other hother with hother | rfl
    · exact hindexes.places other hother
    · exact (List.getElem?_eq_some_iff.mp hentry).1
  · rw [hdead, hindexes.dead]
  · rw [hsize]
    simp only [loadDenom, loadNumer]
    omega
  · rcases hfound with hplace | ⟨other, hholds, hany⟩
    · exact ⟨place, entry, hplace, hentry, rfl⟩
    · obtain ⟨found, hother, hsame⟩ := hmatch hany
      exact ⟨other, found, hholds, hother, hsame⟩
  · rintro name ⟨other, found, hholds, hother, hsame⟩
    exact ⟨other, found, hold other hholds, hother, hsame⟩

/-- After all the entries have been added, all their names can be found. -/
theorem Indexes.addEntries {places : List Nat} (alloc : Nat → Bool)
    (hindexes : Indexes map entries places.length table)
    (hinside : ∀ entry ∈ entries, entry.NameInside map)
    (hplaces : ∀ place ∈ places, place < entries.length) :
    ∃ after, Minzip.addEntries map alloc entries places table = .ok after ∧
      Indexes map entries 0 after ∧
      (∀ place ∈ places, ∀ entry, entries[place]? = some entry →
        Finds map entries after (entry.name map)) ∧
      ∀ name, Finds map entries table name → Finds map entries after name := by
  induction places generalizing table with
  | nil => exact ⟨table, rfl, hindexes, nofun, fun _ h => h⟩
  | cons place places ih =>
      obtain ⟨hplace, hplaces⟩ := List.forall_mem_cons.mp hplaces
      obtain ⟨middle, hadd, hmiddle, hfinds, hkeeps⟩ :=
        hindexes.add hinside alloc (List.getElem?_eq_getElem hplace)
      obtain ⟨after, hrest, hafter, hfinds', hkeeps'⟩ := ih hmiddle hplaces
      refine ⟨after, ?_, hafter, List.forall_mem_cons.mpr ⟨?_, hfinds'⟩,
        fun name h => hkeeps' name (hkeeps name h)⟩
      · rw [Minzip.addEntries, hadd, value_bind, hrest]
      · intro entry hentry
        obtain rfl := Option.some.inj ((List.getElem?_eq_getElem hplace).symm.trans hentry)
        exact hkeeps' _ hfinds

/-- A search by name gives an entry with that name if there is one. -/
theorem Indexes.find {left : Nat} (hindexes : Indexes map entries left table)
    (hinside : ∀ entry ∈ entries, entry.NameInside map)
    (hfinds : ∀ entry ∈ entries, Finds map entries table (entry.name map))
    (numEntries : Nat) (alloc : Nat → Bool) (name : Bytes) :
    ∃ result, mzFindZipEntry map alloc ⟨numEntries, entries, table⟩ name = .ok result ∧
      (result ≠ none ↔ ∃ entry ∈ entries, entry.name map = name) ∧
      ∀ entry, result = some entry → entry ∈ entries ∧ entry.name map = name := by
  have hmatch : ∀ {place : Nat}, ((entries[place]?).any fun entry =>
      hashcmpZipName map entry name) = true ↔
        ∃ entry, entries[place]? = some entry ∧ entry.name map = name := by
    intro place
    rw [Option.any_eq_true]
    refine exists_congr fun entry => and_congr_right fun hentry => ?_
    exact hashcmpZipName_iff (hinside entry (List.mem_of_getElem? hentry)) name
  obtain ⟨found, hlookup, hsome, hnone⟩ := @HashTable.Sound.lookup _ _ table (computeHash name)
    (fun place => (entries[place]?).any fun entry => hashcmpZipName map entry name)
    hindexes.sound alloc (by
      intro place _ hany
      obtain ⟨entry, hentry, hname⟩ := hmatch.mp hany
      rw [placeHash, hentry, ← hname]
      rfl)
  have hfind : mzFindZipEntry map alloc ⟨numEntries, entries, table⟩ name =
      .ok (found.bind fun place => entries[place]?) := by
    rw [mzFindZipEntry]
    dsimp only
    rw [hlookup]
    rfl
  cases found with
  | none =>
      refine ⟨none, hfind, iff_of_false (fun h => h rfl) ?_, nofun⟩
      rintro ⟨entry, hentry, rfl⟩
      obtain ⟨place, other, hholds, hother, hsame⟩ := hfinds entry hentry
      have hfalse := hnone rfl place hholds
      rw [hmatch.mpr ⟨other, hother, hsame⟩] at hfalse
      cases hfalse
  | some place =>
      obtain ⟨entry, hentry, hname⟩ := hmatch.mp (hsome place rfl).2
      have hmem := List.mem_of_getElem? hentry
      rw [Option.bind_some, hentry] at hfind
      refine ⟨some entry, hfind, iff_of_true nofun ⟨entry, hmem, hname⟩, ?_⟩
      intro other hother
      obtain rfl := Option.some.inj hother
      exact ⟨hmem, hname⟩

end Table

/-! ## The end record -/

/-- The offset of the last end record that is not after a given offset. -/
def endOffset (map : MemMapping) : Nat → Option Nat
  | 0 => if map.word 4 0 = endsig then some 0 else none
  | offset + 1 =>
      if map.word 4 (offset + 1) = endsig then some (offset + 1) else endOffset map offset

theorem endOffset_le {distance offset : Nat} (hend : endOffset map distance = some offset) :
    offset ≤ distance := by
  induction distance with
  | zero =>
      rw [endOffset] at hend
      split at hend
      · exact (Option.some.inj hend).ge
      · cases hend
  | succ distance ih =>
      rw [endOffset] at hend
      split at hend
      · exact (Option.some.inj hend).ge
      · exact (ih hend).trans (Nat.le_succ _)

theorem isEnd_eq {offset : Nat} (hinside : offset + 4 ≤ map.length) :
    isEnd map (map.address offset) = .ok (decide (map.word 4 offset = endsig)) := by
  have hfirst : map.word 1 offset = map.word 4 offset % 2 ^ 8 := by
    obtain ⟨byte, rest, hdrop⟩ : ∃ byte rest, map.data.drop offset = byte :: rest :=
      List.exists_cons_of_ne_nil fun hnil => by
        have hle := List.drop_eq_nil_iff.mp hnil
        rw [MemMapping.length] at hinside
        omega
    have hbyte := byte.toNat_lt
    rw [MemMapping.word, MemMapping.word, hdrop, List.take_succ_cons, List.take_succ_cons, leNat,
      leNat, List.take_zero, leNat]
    omega
  rw [isEnd, get1, map.getLE_inside (by omega), value_bind, hfirst]
  by_cases hsig : map.word 4 offset = endsig
  · rw [hsig, if_pos rfl, get4LE, map.getLE_inside hinside, value_bind, hsig]
    rfl
  · split
    · rw [get4LE, map.getLE_inside hinside, value_bind]
      rfl
    · rw [decide_eq_false hsig]
      rfl

/-- The backward scan finds the last end record. -/
theorem findEnd_eq {distance : Nat} (hinside : distance + endhdr ≤ map.length) :
    findEnd map distance =
      (endOffset map distance).elim (.error .bail) fun offset => .ok (map.address offset) := by
  rw [endhdr] at hinside
  induction distance with
  | zero =>
      have haddr : map.addr = map.address 0 := (map.address_of_le (Nat.zero_le _)).symm
      rw [findEnd, endOffset, haddr, isEnd_eq (by omega), value_bind]
      by_cases hsig : map.word 4 0 = endsig
      · rw [if_pos hsig, decide_eq_true hsig]
        rfl
      · rw [if_neg hsig, decide_eq_false hsig]
        rfl
  | succ distance ih =>
      have haddr : map.addr + (distance + 1) = map.address (distance + 1) :=
        (map.address_of_le (by omega)).symm
      rw [findEnd, endOffset, haddr, isEnd_eq (by omega), value_bind]
      by_cases hsig : map.word 4 (distance + 1) = endsig
      · rw [if_pos hsig, decide_eq_true hsig]
        rfl
      · rw [if_neg hsig, decide_eq_false hsig]
        exact ih (by omega)

/-- The number of records that the end record at an offset announces. -/
def recordCount (map : MemMapping) (offset : Nat) : Nat :=
  map.word 2 (offset + endsub)

/-- The offset of the first record, from the end record at an offset. -/
def firstRecord (map : MemMapping) (offset : Nat) : Nat :=
  map.word 4 (offset + endoff)

/-- The parser comes to the records: there is an end record and it announces records. -/
def Begins (map : MemMapping) (offset : Nat) : Prop :=
  map.word 4 0 = locsig ∧ endOffset map (map.length - endhdr) = some offset ∧
    recordCount map offset ≠ 0 ∧ firstRecord map offset < map.length

theorem parseZipArchive_begins (hlength : endhdr ≤ map.length) {offset : Nat}
    (hbegins : Begins map offset) (alloc : Nat → Bool) :
    parseZipArchive map alloc =
      indexRecords map alloc (recordCount map offset) (firstRecord map offset) := by
  obtain ⟨hsig, hend, hcount, hfirst⟩ := hbegins
  have hle := endOffset_le hend
  have haddr : map.addr = map.address 0 := (map.address_of_le (Nat.zero_le _)).symm
  have hscan := findEnd_eq (Nat.sub_add_cancel hlength).le
  rw [hend] at hscan
  rw [endhdr] at hlength hle
  rw [parseZipArchive, get4LE]
  nth_rewrite 1 [haddr]
  rw [map.getLE_inside (by omega), value_bind, require_pos (by rw [hsig]; decide), value_bind,
    require_pos hsig, value_bind, hscan]
  change (get2LE map (add32 (map.address offset) endsub) >>= fun numEntries => _) = _
  rw [map.add32_address, get2LE, map.getLE_inside (by rw [endsub]; omega), value_bind,
    map.add32_address, get4LE, map.getLE_inside (by rw [endoff]; omega), value_bind,
    require_pos ⟨hcount, hfirst⟩]
  rfl

/-- Otherwise it gives up. -/
theorem parseZipArchive_bails (hlength : endhdr ≤ map.length)
    (hbegins : ∀ offset, ¬Begins map offset) (alloc : Nat → Bool) :
    parseZipArchive map alloc = .error .bail := by
  have haddr : map.addr = map.address 0 := (map.address_of_le (Nat.zero_le _)).symm
  have hscan := findEnd_eq (Nat.sub_add_cancel hlength).le
  have hfour : 0 + 4 ≤ map.length := by
    rw [endhdr] at hlength
    omega
  rw [parseZipArchive, get4LE]
  nth_rewrite 1 [haddr]
  rw [map.getLE_inside hfour, value_bind]
  by_cases hempty : map.word 4 0 ≠ endsig
  · rw [require_pos hempty, value_bind]
    by_cases hsig : map.word 4 0 = locsig
    · rw [require_pos hsig, value_bind, hscan]
      cases hend : endOffset map (map.length - endhdr) with
      | none => rfl
      | some offset =>
          have hle := endOffset_le hend
          have hrefuse : ¬(recordCount map offset ≠ 0 ∧ firstRecord map offset < map.length) :=
            fun h => hbegins offset ⟨hsig, hend, h⟩
          change (get2LE map (add32 (map.address offset) endsub) >>= fun numEntries => _) = _
          rw [endhdr] at hlength hle
          rw [map.add32_address, get2LE, map.getLE_inside (by rw [endsub]; omega), value_bind,
            map.add32_address, get4LE, map.getLE_inside (by rw [endoff]; omega), value_bind]
          rw [recordCount, firstRecord] at hrefuse
          rw [require_neg hrefuse, exit_bind]
    · rw [require_neg hsig, exit_bind]
  · rw [require_neg hempty, exit_bind]

/-- An archive that the parser accepts is not shorter than an end record. -/
theorem parseZipArchive_length {alloc : Nat → Bool} {archive : ZipArchive}
    (hparse : parseZipArchive map alloc = .ok archive) : endhdr ≤ map.length := by
  by_contra hshort
  have haddr : map.addr = map.address 0 := (map.address_of_le (Nat.zero_le _)).symm
  have hdistance : map.length - endhdr = 0 := by omega
  rw [parseZipArchive, get4LE, hdistance] at hparse
  nth_rewrite 1 [haddr] at hparse
  by_cases hfour : 0 + 4 ≤ map.length
  · rw [map.getLE_inside hfour, value_bind] at hparse
    by_cases hempty : map.word 4 0 ≠ endsig
    · rw [require_pos hempty, value_bind] at hparse
      by_cases hsig : map.word 4 0 = locsig
      · rw [require_pos hsig, value_bind, findEnd, haddr, isEnd_eq hfour, decide_eq_false hempty]
          at hparse
        cases hparse
      · rw [require_neg hsig, exit_bind] at hparse
        cases hparse
    · rw [require_neg hempty, exit_bind] at hparse
      cases hparse
  · rw [map.getLE_outside (by decide) hfour, exit_bind] at hparse
    cases hparse

/-! ## The whole parser -/

/-- The offsets of the records that the end record announces. -/
def announcedOffsets (map : MemMapping) (offset : Nat) : List Nat :=
  recordOffsets map (recordCount map offset) (firstRecord map offset)

/-- An archive whose index holds the records at some offsets. -/
structure Faithful (map : MemMapping) (offsets : List Nat) (archive : ZipArchive) : Prop where
  perm : archive.pEntries.Perm (offsets.map (entryAt map))
  sorted : Sorted map archive.pEntries
  indexes : Indexes map archive.pEntries 0 archive.pHash
  finds : ∀ entry ∈ archive.pEntries, Finds map archive.pEntries archive.pHash (entry.name map)

theorem recordOffsets_length (map : MemMapping) (count offset : Nat) :
    (recordOffsets map count offset).length = count := by
  induction count generalizing offset with
  | zero => rfl
  | succ count ih => rw [recordOffsets, List.length_cons, ih]

theorem Faithful.inside {offsets : List Nat} {archive : ZipArchive}
    (hpasses : ∀ record ∈ offsets, Passes map record)
    (hperm : archive.pEntries.Perm (offsets.map (entryAt map))) :
    ∀ entry ∈ archive.pEntries, entry.NameInside map := by
  intro entry hentry
  obtain ⟨record, hrecord, rfl⟩ := List.mem_map.mp (hperm.mem_iff.mp hentry)
  exact (hpasses record hrecord).1.nameInside

/-- The table of an archive finds all the entries that the loop over the records has made. -/
theorem addEntries_faithful (alloc : Nat → Bool) {offsets : List Nat} {entries : List ZipEntry}
    {table : HashTable Nat} (hpasses : ∀ record ∈ offsets, Passes map record)
    (hperm : entries.Perm (offsets.map (entryAt map))) (hsorted : Sorted map entries)
    (hindexes : Indexes map entries offsets.length table) :
    ∃ after, addEntries map alloc entries (List.range offsets.length) table = .ok after ∧
      Faithful map offsets ⟨offsets.length, entries, after⟩ := by
  have hlength : entries.length = offsets.length := by rw [hperm.length_eq, List.length_map]
  have hinside : ∀ entry ∈ entries, entry.NameInside map :=
    @Faithful.inside map offsets ⟨0, entries, table⟩ hpasses hperm
  rw [← List.length_range (n := offsets.length)] at hindexes
  obtain ⟨after, hadd, hafter, hfinds, -⟩ := hindexes.addEntries alloc hinside fun place hplace => by
    rw [hlength]
    exact List.mem_range.mp hplace
  refine ⟨after, hadd, hperm, hsorted, hafter, fun entry hentry => ?_⟩
  obtain ⟨place, hplace, hentry⟩ := List.getElem_of_mem hentry
  rw [hlength] at hplace
  exact hfinds place (List.mem_range.mpr hplace) entry (List.getElem?_eq_some_iff.mpr ⟨_, hentry⟩)

/-- There is memory for the entries and for the table. -/
def Allocates (alloc : Nat → Bool) (count : Nat) : Prop :=
  alloc (count * sizeofZipEntry) = true ∧ (alloc sizeofHashTable &&
    alloc (roundUpPower2 (mzHashSize count) * sizeofHashTable)) = true

theorem mzHashTableCreate_eq (alloc : Nat → Bool) (count : Nat) :
    @mzHashTableCreate Nat alloc (mzHashSize count) =
      if alloc sizeofHashTable && alloc (roundUpPower2 (mzHashSize count) * sizeofHashTable) then
        .ok (some ⟨0, 0, List.replicate (roundUpPower2 (mzHashSize count)) .empty⟩)
      else .ok none :=
  if_neg (Nat.succ_ne_zero _)

theorem indexRecords_denied {alloc : Nat → Bool} {count : Nat} (hdenied : ¬Allocates alloc count)
    (offset : Nat) : indexRecords map alloc count offset = .error .bail := by
  rw [indexRecords, mzHashTableCreate_eq]
  by_cases hentries : alloc (count * sizeofZipEntry) = true
  · rw [require_pos hentries, value_bind, if_neg fun htable => hdenied ⟨hentries, htable⟩]
    rfl
  · rw [require_neg hentries, exit_bind]

/-- When there is memory, the loops run on a table that can take all the entries. -/
theorem indexRecords_allocated {alloc : Nat → Bool} {count : Nat} (hcount : count < 2 ^ 16)
    (halloc : Allocates alloc count) (offset : Nat) :
    ∃ table, (∀ entries, Indexes map entries count table) ∧
      indexRecords map alloc count offset =
        readEntries map count [] (map.address offset) >>= fun entries =>
          addEntries map alloc entries (List.range count) table >>= fun table =>
            .ok ⟨count, entries, table⟩ := by
  obtain ⟨table, hcreate⟩ :
      ∃ table, @mzHashTableCreate Nat alloc (mzHashSize count) = .ok (some table) :=
    ⟨_, (mzHashTableCreate_eq alloc count).trans (if_pos halloc.2)⟩
  have hsize : mzHashSize count ≤ 2 ^ 31 := by
    rw [mzHashSize, loadDenom, loadNumer]
    omega
  refine ⟨table, fun entries => ?_, ?_⟩
  · obtain ⟨hsound, hnone, hentries, hdead, hload⟩ :=
      mzHashTableCreate_sound (placeHash map entries) hsize hcreate
    refine ⟨hsound, fun place hholds => absurd hholds (hnone place), hdead, ?_⟩
    rw [hentries, Nat.zero_add]
    exact hload
  · rw [indexRecords, require_pos halloc.1, value_bind, hcreate]
    rfl

/-- What the parser does with the records when there is memory: it leaves the mapping, it
gives up because of a record, or it makes a faithful index of all of them. -/
theorem indexRecords_cases {alloc : Nat → Bool} {offset : Nat}
    (halloc : Allocates alloc (recordCount map offset)) :
    (¬StaysInside map (announcedOffsets map offset) →
        indexRecords map alloc (recordCount map offset) (firstRecord map offset) =
          .error .outOfBounds) ∧
      (StaysInside map (announcedOffsets map offset) →
        ¬(∀ record ∈ announcedOffsets map offset, Passes map record) →
          indexRecords map alloc (recordCount map offset) (firstRecord map offset) =
            .error .bail) ∧
      ((∀ record ∈ announcedOffsets map offset, Passes map record) →
        ∃ archive, indexRecords map alloc (recordCount map offset) (firstRecord map offset) =
            .ok archive ∧
          Faithful map (announcedOffsets map offset) archive) := by
  have hlength : (announcedOffsets map offset).length = recordCount map offset :=
    recordOffsets_length ..
  have hcount : recordCount map offset < 2 ^ 16 := map.word_lt 2 _
  have hfirst : firstRecord map offset < 2 ^ 32 := map.word_lt 4 _
  obtain ⟨table, hindexes, hloops⟩ := @indexRecords_allocated map _ _ hcount halloc
    (firstRecord map offset)
  obtain ⟨hleaves, hrefuses, haccepts⟩ := @readEntries_cases map _ _ hfirst
    (recordCount map offset) (List.forall_mem_nil _) List.Pairwise.nil
  rw [hloops]
  refine ⟨fun h => ?_, fun h hnot => ?_, fun hall => ?_⟩
  · rw [hleaves h, exit_bind]
  · rw [hrefuses h hnot, exit_bind]
  · obtain ⟨entries, hread, hperm, hsorted⟩ := haccepts hall
    rw [List.append_nil] at hperm
    have htable := hindexes entries
    rw [← hlength] at htable
    obtain ⟨after, hadd, hfaithful⟩ := addEntries_faithful alloc hall hperm hsorted htable
    refine ⟨_, ?_, hfaithful⟩
    rw [hread, value_bind, ← hlength, hadd, value_bind]

/-- The parser accepts an archive only with a faithful index of all its records. -/
theorem parseZipArchive_accepts {alloc : Nat → Bool} {archive : ZipArchive}
    (hparse : parseZipArchive map alloc = .ok archive) :
    ∃ offset, Begins map offset ∧ Allocates alloc (recordCount map offset) ∧
      (∀ record ∈ announcedOffsets map offset, Passes map record) ∧
      Faithful map (announcedOffsets map offset) archive := by
  have hlength := parseZipArchive_length hparse
  by_cases hbegins : ∃ offset, Begins map offset
  · obtain ⟨offset, hbegins⟩ := hbegins
    rw [parseZipArchive_begins hlength hbegins] at hparse
    by_cases halloc : Allocates alloc (recordCount map offset)
    · obtain ⟨hleaves, hrefuses, haccepts⟩ := indexRecords_cases halloc
      by_cases hall : ∀ record ∈ announcedOffsets map offset, Passes map record
      · obtain ⟨found, hfound, hfaithful⟩ := haccepts hall
        obtain rfl := Except.ok.inj (hparse.symm.trans hfound)
        exact ⟨offset, hbegins, halloc, hall, hfaithful⟩
      · by_cases hstays : StaysInside map (announcedOffsets map offset)
        · cases hparse.symm.trans (hrefuses hstays hall)
        · cases hparse.symm.trans (hleaves hstays)
    · cases hparse.symm.trans (indexRecords_denied halloc _)
  · cases hparse.symm.trans (parseZipArchive_bails hlength (not_exists.mp hbegins) alloc)

/-- The entries that the central directory describes, in its order. -/
def centralDirectory (map : MemMapping) : List ZipEntry :=
  (endOffset map (map.length - endhdr)).elim [] fun offset =>
    (announcedOffsets map offset).map (entryAt map)

/-- The index of an archive that the parser accepts: the entries are the records of the
central directory, sorted by name, and a name is found exactly when a record has it. -/
theorem index_faithful {alloc : Nat → Bool} {archive : ZipArchive}
    (hparse : parseZipArchive map alloc = .ok archive) :
    archive.pEntries.Perm (centralDirectory map) ∧
      Sorted map archive.pEntries ∧
      ∀ (memory : Nat → Bool) (entryName : Bytes),
        ∃ result, mzFindZipEntry map memory archive entryName = .ok result ∧
          (result ≠ none ↔ ∃ record ∈ centralDirectory map, record.name map = entryName) ∧
          ∀ entry, result = some entry →
            entry ∈ archive.pEntries ∧ entry.name map = entryName := by
  obtain ⟨offset, hbegins, -, hpasses, hfaithful⟩ := parseZipArchive_accepts hparse
  have hdirectory : centralDirectory map = (announcedOffsets map offset).map (entryAt map) := by
    rw [centralDirectory, hbegins.2.1]
    rfl
  rw [hdirectory]
  refine ⟨hfaithful.perm, hfaithful.sorted, fun memory entryName => ?_⟩
  obtain ⟨result, hfind, hiff, hname⟩ := hfaithful.indexes.find
    (Faithful.inside hpasses hfaithful.perm) hfaithful.finds archive.numEntries memory entryName
  refine ⟨result, hfind, hiff.trans ?_, hname⟩
  refine exists_congr fun record => and_congr_left fun _ => ?_
  exact hfaithful.perm.mem_iff

/-- The local header of an empty file. -/
def emptyLocal (fileName : Bytes) : Bytes :=
  [0x50, 0x4b, 3, 4] ++ List.replicate 22 0 ++ [fileName.length.toUInt8, 0, 0, 0] ++ fileName

/-- The central record of an empty file. -/
def emptyRecord (fileName : Bytes) (localHdrOffset : UInt8) : Bytes :=
  [0x50, 0x4b, 1, 2] ++ List.replicate 24 0 ++ [fileName.length.toUInt8, 0] ++
    List.replicate 12 0 ++ [localHdrOffset, 0, 0, 0] ++ fileName

/-- An archive with two empty files, which are not in the order of their names. -/
def twoFiles : MemMapping where
  addr := 0x40000000
  data := emptyLocal [98] ++ emptyLocal [97] ++ emptyRecord [98] 0 ++ emptyRecord [97] 31 ++
    [0x50, 0x4b, 5, 6, 0, 0, 0, 0, 2, 0, 2, 0, 94, 0, 0, 0, 62, 0, 0, 0, 0, 0]
  page_le := by decide
  stop_lt := by decide +kernel

theorem index_faithful_twoFiles :
    ∃ archive, parseZipArchive twoFiles (fun _ => true) = .ok archive ∧
      archive.pEntries.Perm (centralDirectory twoFiles) ∧
      (centralDirectory twoFiles).map (ZipEntry.name twoFiles) = [[98], [97]] ∧
      archive.pEntries.map (ZipEntry.name twoFiles) = [[97], [98]] := by
  have hnames : ((parseZipArchive twoFiles fun _ => true).toOption.map fun archive =>
      archive.pEntries.map (ZipEntry.name twoFiles)) = some [[97], [98]] := by
    decide +kernel
  cases hparse : parseZipArchive twoFiles (fun _ => true) with
  | error exit =>
      rw [hparse] at hnames
      cases hnames
  | ok archive =>
      rw [hparse] at hnames
      exact ⟨archive, rfl, (index_faithful hparse).1, by decide +kernel, Option.some.inj hnames⟩

end OpenRecovery.Minzip
