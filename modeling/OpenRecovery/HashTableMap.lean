import OpenRecovery.HashTable
import Mathlib

/-!
# The hash table as a finite map

Items have a key, and items with equal keys have the same hash.  A table that was
made by any sequence of additions and removals holds at most one item for each key.
Its slots that are in use are the items and the tombstones, which are counted, and
at most five eighths of all slots are in use.
-/

namespace OpenRecovery.Minzip

variable {α : Type}

/-! ## The items of a table -/

/-- The items of an array, in the order of their slots. -/
def itemsOf (entries : List (HashEntry α)) : List α :=
  entries.filterMap HashEntry.data?

def HashTable.items (table : HashTable α) : List α :=
  itemsOf table.pEntries

theorem HashTable.mem_items {table : HashTable α} {data : α} :
    data ∈ table.items ↔ table.Holds data := by
  rw [items, itemsOf, List.mem_filterMap]
  constructor
  · rintro ⟨entry, hmem, hdata⟩
    obtain ⟨idx, hentry⟩ := List.getElem?_of_mem hmem
    cases entry with
    | empty => cases hdata
    | tombstone => cases hdata
    | live hashValue other =>
        obtain rfl := Option.some.inj hdata
        exact ⟨idx, hashValue, hentry⟩
  · rintro ⟨idx, hashValue, hentry⟩
    exact ⟨_, List.mem_of_getElem? hentry, rfl⟩

/-- What a slot held goes, and what it is set to comes. -/
theorem itemsOf_set
    {entries : List (HashEntry α)} {idx : Nat} {old : HashEntry α}
    (hold : entries[idx]? = some old) (new : HashEntry α) :
    ∃ rest, (itemsOf entries).Perm (old.data?.toList ++ rest) ∧
      (itemsOf (entries.set idx new)).Perm (new.data?.toList ++ rest) := by
  have hmiddle : ∀ (before after : List (HashEntry α)) (entry : HashEntry α),
      (itemsOf (before ++ entry :: after)).Perm
        (entry.data?.toList ++ (itemsOf before ++ itemsOf after)) := by
    intro before after entry
    have hentry : itemsOf (entry :: after) = entry.data?.toList ++ itemsOf after := by
      rw [itemsOf, List.filterMap_cons]
      cases entry.data? with
      | none => rfl
      | some data => rfl
    rw [itemsOf, List.filterMap_append, ← itemsOf, ← itemsOf, hentry, ← List.append_assoc,
      ← List.append_assoc]
    exact List.perm_append_comm.append_right _
  obtain ⟨hlt, hentry⟩ := List.getElem?_eq_some_iff.mp hold
  refine ⟨itemsOf (entries.take idx) ++ itemsOf (entries.drop (idx + 1)), ?_, ?_⟩
  · have hsplit := hmiddle (entries.take idx) (entries.drop (idx + 1)) old
    rw [← hentry, ← List.drop_eq_getElem_cons hlt, List.take_append_drop, hentry] at hsplit
    exact hsplit
  · rw [List.set_eq_take_append_cons_drop, if_pos hlt]
    exact hmiddle _ _ new

/-- The slots in use hold the items and the tombstones. -/
theorem countP_isUsed (entries : List (HashEntry α)) :
    entries.countP HashEntry.isUsed =
      (itemsOf entries).length + entries.countP HashEntry.isTombstone := by
  induction entries with
  | nil => rfl
  | cons entry entries ih =>
      rw [List.countP_cons, List.countP_cons, ih, itemsOf, itemsOf, List.filterMap_cons]
      cases entry with
      | empty => simp [HashEntry.isUsed, HashEntry.isTombstone, HashEntry.data?]
      | tombstone =>
          simp [HashEntry.isUsed, HashEntry.isTombstone, HashEntry.data?]
          omega
      | live hashValue data =>
          simp [HashEntry.isUsed, HashEntry.isTombstone, HashEntry.data?]
          omega

/-! ## Moving the items to a larger array -/

/-- The probe of `resizeHash` is that of a search without a match. -/
theorem probeEmpty_eq
    {table : HashTable α} {exponent : Nat} (itemHash : Nat)
    (hsize : table.tableSize = 2 ^ (exponent + 1)) {fuel idx : Nat}
    (hidx : idx < table.tableSize) :
    probeEmpty table.pEntries fuel idx = probe table itemHash (fun _ => false) fuel idx := by
  have hlarge : 1 < table.tableSize := by
    rw [hsize]
    exact Nat.one_lt_two_pow (Nat.succ_ne_zero exponent)
  induction fuel generalizing idx with
  | zero => rfl
  | succ fuel ih =>
      have hmask : (idx + 1) &&& (table.pEntries.length - 1) = (idx + 1) % table.tableSize := by
        rw [← HashTable.tableSize, hsize, Nat.and_two_pow_sub_one_eq_mod]
      have hnext : table.nextSlot idx = .ok ((idx + 1) % table.tableSize) := by
        rw [HashTable.nextSlot]
        split
        next hend => rw [if_neg (by omega), hend, Nat.mod_self]
        next => rw [Nat.mod_eq_of_lt (by omega)]
      rw [probeEmpty, probe]
      cases hentry : table.pEntries[idx]? with
      | none => rfl
      | some entry =>
          have hrest := ih (Nat.mod_lt (idx + 1) (Nat.zero_lt_of_lt hlarge))
          cases entry with
          | empty => rfl
          | tombstone =>
              simp only [HashEntry.ends, Bool.false_eq_true, if_false, hnext, hmask, hrest]
              rfl
          | live hashValue data =>
              simp only [HashEntry.ends, Bool.and_false, Bool.false_eq_true, if_false, hnext,
                hmask, hrest]
              rfl

theorem store_items
    {table : HashTable α} {item : α} {itemHash idx : Nat}
    (hentry : table.pEntries[idx]? = some .empty) :
    (table.store itemHash item idx).items.Perm (item :: table.items) := by
  obtain ⟨rest, hbefore, hafter⟩ := itemsOf_set hentry (.live itemHash item)
  exact hafter.trans (hbefore.symm.cons item)

theorem store_tombstones
    {table : HashTable α} {item : α} {itemHash idx : Nat}
    (hentry : table.pEntries[idx]? = some .empty) :
    countTombStones (table.store itemHash item idx) = countTombStones table := by
  obtain ⟨hidx, hempty⟩ := List.getElem?_eq_some_iff.mp hentry
  rw [countTombStones, HashTable.store, List.countP_set hidx, hempty, countTombStones]
  rfl

/-- A sound table whose counter of tombstones is right, and with it that of items. -/
structure HashTable.Counted (hashOf : α → Nat) (table : HashTable α) : Prop where
  sound : table.Sound hashOf
  tombstones : countTombStones table = table.numDeadEntries

namespace HashTable.Counted

variable {hashOf : α → Nat} {table : HashTable α}

theorem items_length (hcounted : table.Counted hashOf) :
    table.items.length = table.numEntries := by
  have hused := hcounted.sound.used
  have htombstones := hcounted.tombstones
  rw [countP_isUsed, ← HashTable.items] at hused
  rw [countTombStones] at htombstones
  omega

theorem store
    (hcounted : table.Counted hashOf) {item : α} {idx : Nat}
    (hentry : table.pEntries[idx]? = some .empty) (hreach : table.Reachable idx (hashOf item))
    (hroom : table.numEntries + table.numDeadEntries + 1 < table.tableSize) :
    (table.store (hashOf item) item idx).Counted hashOf where
  sound := hcounted.sound.store hentry hreach hroom
  tombstones := (store_tombstones hentry).trans hcounted.tombstones

/-- In an array with enough room every item that is moved finds a slot. -/
theorem moveEntries
    {exponent : Nat} {old : List (HashEntry α)} (hcounted : table.Counted hashOf)
    (hsize : table.tableSize = 2 ^ (exponent + 1)) (hdead : table.numDeadEntries = 0)
    (hold : ∀ hashValue data, .live hashValue data ∈ old → hashValue = hashOf data)
    (hroom : table.numEntries + (itemsOf old).length < table.tableSize) :
    ∃ entries, Minzip.moveEntries old table.pEntries = .ok entries ∧
      (HashTable.mk (table.numEntries + (itemsOf old).length) 0 entries).Counted hashOf ∧
      entries.length = table.tableSize ∧
      (itemsOf entries).Perm (table.items ++ itemsOf old) := by
  induction old generalizing table with
  | nil =>
      obtain ⟨numEntries, numDeadEntries, entries⟩ := table
      obtain rfl : numDeadEntries = 0 := hdead
      have hitems : itemsOf entries ++ itemsOf [] = itemsOf entries := List.append_nil _
      exact ⟨entries, rfl, hcounted, rfl, .of_eq hitems.symm⟩
  | cons entry old ih =>
      have hrest : ∀ hashValue data, .live hashValue data ∈ old → hashValue = hashOf data :=
        fun hashValue data hmem => hold hashValue data (List.mem_cons_of_mem _ hmem)
      cases entry with
      | empty => exact ih hcounted hsize hdead hrest hroom
      | tombstone => exact ih hcounted hsize hdead hrest hroom
      | live hashValue data =>
          obtain rfl := hold hashValue data List.mem_cons_self
          have hitems : itemsOf (.live (hashOf data) data :: old) = data :: itemsOf old := rfl
          rw [hitems, List.length_cons] at hroom
          obtain ⟨idx, hprobe, hcases⟩ := @Sound.probe_cases _ hashOf table (hashOf data)
            (fun _ => false) hcounted.sound (by simp)
          obtain ⟨hentry, hreach, -⟩ := hcases.resolve_left (by simp)
          have hstart : hashOf data &&& (table.tableSize - 1) < table.tableSize := by
            have hpos := hcounted.sound.size_pos
            have hle := @Nat.and_le_right (hashOf data) (table.tableSize - 1)
            omega
          have hempty : probeEmpty table.pEntries table.pEntries.length
              (hashOf data &&& (table.pEntries.length - 1)) = .ok idx := by
            rw [← hprobe]
            exact probeEmpty_eq _ hsize hstart
          have hstored := hcounted.store hentry hreach (by omega)
          have hone : (table.store (hashOf data) data idx).numEntries =
              table.numEntries + 1 := rfl
          have hnumber : (table.store (hashOf data) data idx).numEntries +
              (itemsOf old).length =
                table.numEntries + (itemsOf (.live (hashOf data) data :: old)).length := by
            rw [hone, hitems, List.length_cons]
            omega
          obtain ⟨entries, hmove, hcounted', hlength, hperm⟩ := ih hstored
            ((Sound.store_tableSize ..).trans hsize) hdead hrest (by
              rw [Sound.store_tableSize, hone]
              omega)
          refine ⟨entries, ?_, hnumber ▸ hcounted', hlength.trans (Sound.store_tableSize ..), ?_⟩
          · rw [Minzip.moveEntries, hempty]
            exact hmove
          · exact hperm.trans (((store_items hentry).append_right _).trans List.perm_middle.symm)

end HashTable.Counted

/-! ## Adding an item -/

/-- A table that is not too full. -/
structure HashTable.Maintained (hashOf : α → Nat) (table : HashTable α) : Prop where
  counted : table.Counted hashOf
  load : (table.numEntries + table.numDeadEntries) * loadDenom ≤ table.tableSize * loadNumer

/-- An array without items is maintained. -/
theorem maintained_empty (hashOf : α → Nat) (exponent : Nat) :
    (HashTable.mk 0 0 (List.replicate (2 ^ exponent) (.empty : HashEntry α))).Maintained
      hashOf := by
  have hsize : (HashTable.mk 0 0 (List.replicate (2 ^ exponent)
      (.empty : HashEntry α))).tableSize = 2 ^ exponent := List.length_replicate ..
  refine ⟨⟨⟨⟨exponent, hsize⟩, ?_, ?_, ?_⟩, ?_⟩, ?_⟩
  · intro idx hashValue data hlive
    cases List.eq_of_mem_replicate (List.mem_of_getElem? hlive)
  · rw [List.countP_replicate]
    rfl
  · rw [hsize]
    exact Nat.pow_pos (by decide)
  · rw [countTombStones, List.countP_replicate]
    rfl
  · exact Nat.zero_le _

theorem itemsOf_replicate (size : Nat) :
    itemsOf (List.replicate size (.empty : HashEntry α)) = [] := by
  rw [itemsOf, List.filterMap_eq_nil_iff]
  intro entry hmem
  rw [List.eq_of_mem_replicate hmem]
  rfl

namespace HashTable.Maintained

variable {hashOf : α → Nat} {table : HashTable α}

/-- A table is enlarged to twice its size, if there is storage. -/
theorem resizeHash_store
    (hmaintained : table.Maintained hashOf) (alloc : Nat → Bool) {item : α} {idx : Nat}
    (hentry : table.pEntries[idx]? = some .empty) :
    (∃ after, resizeHash alloc (table.store (hashOf item) item idx) (table.tableSize * 2) =
        .ok (some after) ∧ after.Maintained hashOf ∧ after.items.Perm (item :: table.items) ∧
        after.numEntries < after.tableSize) ∨
      resizeHash alloc (table.store (hashOf item) item idx) (table.tableSize * 2) = .ok none ∧
        alloc (table.tableSize * 2 * sizeofHashTable) = false := by
  have hcounted := hmaintained.counted
  have hidx : idx < table.tableSize := (List.getElem?_eq_some_iff.mp hentry).1
  have htombstones : countTombStones (table.store (hashOf item) item idx) =
      (table.store (hashOf item) item idx).numDeadEntries :=
    (store_tombstones hentry).trans hcounted.tombstones
  have hone : (table.store (hashOf item) item idx).numEntries = table.numEntries + 1 := rfl
  rw [resizeHash, if_neg (not_not.mpr htombstones)]
  cases halloc : alloc (table.tableSize * 2 * sizeofHashTable) with
  | false => exact .inr ⟨rfl, rfl⟩
  | true =>
      refine .inl ?_
      obtain ⟨exponent, hsize⟩ := hcounted.sound.size
      have hdouble : table.tableSize * 2 = 2 ^ (exponent + 1) := by rw [hsize, pow_succ]
      have hlive : ∀ hashValue data,
          .live hashValue data ∈ (table.store (hashOf item) item idx).pEntries →
            hashValue = hashOf data := by
        intro hashValue data hmem
        obtain ⟨other, hother⟩ := List.getElem?_of_mem hmem
        rw [Sound.store_entry hidx] at hother
        split at hother
        · cases hother
          rfl
        · exact (hcounted.sound.reachable other hashValue data hother).1
      have hlength : (itemsOf (table.store (hashOf item) item idx).pEntries).length =
          table.numEntries + 1 := by
        rw [← HashTable.items, (store_items hentry).length_eq, List.length_cons,
          hcounted.items_length]
      have hroom := hcounted.sound.room
      have hload := hmaintained.load
      have hfresh := maintained_empty hashOf (exponent + 1)
      have hfreshSize : (HashTable.mk 0 0 (List.replicate (2 ^ (exponent + 1))
          (.empty : HashEntry α))).tableSize = 2 ^ (exponent + 1) := List.length_replicate ..
      obtain ⟨entries, hmove, hmoved, hentries, hperm⟩ := hfresh.counted.moveEntries hfreshSize
        rfl hlive (by
          rw [hfreshSize, ← hdouble, hlength]
          simp only
          omega)
      rw [hlength, Nat.zero_add] at hmoved
      rw [hfreshSize, ← hdouble] at hentries
      rw [HashTable.items, itemsOf_replicate, List.nil_append] at hperm
      rw [← hdouble] at hmove
      refine ⟨⟨table.numEntries + 1, 0, entries⟩, ?_, ⟨hmoved, ?_⟩,
        hperm.trans (store_items hentry), ?_⟩
      · rw [if_pos rfl, hmove]
        rfl
      · rw [HashTable.tableSize, hentries]
        simp only [loadDenom, loadNumer] at hload ⊢
        omega
      · rw [HashTable.tableSize, hentries]
        simp only
        omega

/-- An item that is not there yet is added, or the storage for it is missing. -/
theorem addEntry_cases
    (hmaintained : table.Maintained hashOf) (alloc : Nat → Bool) {item : α} {idx : Nat}
    (hentry : table.pEntries[idx]? = some .empty) (hreach : table.Reachable idx (hashOf item)) :
    (∃ after, addEntry alloc table (hashOf item) item idx = .ok after ∧
        after.Maintained hashOf ∧ after.items.Perm (item :: table.items)) ∨
      addEntry alloc table (hashOf item) item idx = .error .abort ∧
        alloc (table.tableSize * 2 * sizeofHashTable) = false := by
  have hsize := hmaintained.counted.sound.size_pos
  by_cases hload : (table.numEntries + table.numDeadEntries + 1) * loadDenom ≤
      table.tableSize * loadNumer
  · refine .inl ⟨_, Sound.addEntry_eq alloc hload, ⟨hmaintained.counted.store hentry hreach ?_, ?_⟩,
      store_items hentry⟩
    · simp only [loadDenom, loadNumer] at hload
      omega
    · rw [Sound.store_tableSize, HashTable.store]
      simp only [loadDenom, loadNumer] at hload ⊢
      omega
  · have hfull : table.tableSize * loadNumer <
        ((table.store (hashOf item) item idx).numEntries +
          (table.store (hashOf item) item idx).numDeadEntries) * loadDenom := by
      rw [HashTable.store]
      simp only [loadDenom, loadNumer] at hload ⊢
      omega
    rw [addEntry]
    simp only [Sound.store_tableSize, if_pos hfull]
    rcases hmaintained.resizeHash_store alloc hentry with
      ⟨after, hresize, hafter, hperm, hroom⟩ | ⟨hresize, halloc⟩
    · refine .inl ⟨after, ?_, hafter, hperm⟩
      rw [hresize]
      exact if_pos hroom
    · refine .inr ⟨?_, halloc⟩
      rw [hresize]
      rfl

end HashTable.Maintained

/-! ## Removing an item -/

namespace HashTable

variable {hashOf : α → Nat} {table : HashTable α}

/-- The probe by address finds what a search for this one item finds. -/
theorem Sound.probeItem_eq
    [DecidableEq α] (hsound : table.Sound hashOf) {item : α} {fuel idx found : Nat}
    {entry : HashEntry α}
    (hprobe : probe table (hashOf item) (fun data => data = item) fuel idx = .ok found)
    (hentry : table.pEntries[found]? = some entry) :
    probeItem table item fuel idx = .ok (entry.data?.map fun _ => found) := by
  induction fuel generalizing idx with
  | zero => cases hprobe
  | succ fuel ih =>
      rw [probe] at hprobe
      rw [probeItem]
      cases hhere : table.pEntries[idx]? with
      | none =>
          rw [hhere] at hprobe
          cases hprobe
      | some here =>
          rw [hhere] at hprobe
          simp only at hprobe
          by_cases hends : here.ends (hashOf item) (fun data => data = item) = true
          · rw [if_pos hends] at hprobe
            obtain rfl : idx = found := Except.ok.inj hprobe
            obtain rfl : here = entry := Option.some.inj (hhere.symm.trans hentry)
            cases here with
            | empty => rfl
            | tombstone => cases hends
            | live hashValue data =>
                simp only [HashEntry.ends, Bool.and_eq_true, decide_eq_true_eq] at hends
                simp [HashEntry.data?, hends.2]
          · rw [if_neg hends] at hprobe
            have hother : here.data? ≠ some item := by
              intro hdata
              cases here with
              | empty => cases hdata
              | tombstone => cases hdata
              | live hashValue data =>
                  obtain rfl := Option.some.inj hdata
                  have hhash := (hsound.reachable idx hashValue data hhere).1
                  exact hends (by simp [HashEntry.ends, hhash])
            have hnext : probeItem table item (fuel + 1) idx =
                if idx + 1 = table.tableSize then
                  if table.tableSize = 1 then .ok none else probeItem table item fuel 0
                else probeItem table item fuel (idx + 1) := by
              rw [probeItem, hhere]
              cases here with
              | empty => exact absurd rfl hends
              | tombstone => rfl
              | live hashValue data => exact if_neg hother
            rw [probeItem, hhere] at hnext
            rw [hnext]
            rw [nextSlot] at hprobe
            split
            next hend =>
              rw [if_pos hend] at hprobe
              split
              next hone =>
                rw [if_pos hone] at hprobe
                cases hprobe
              next hone =>
                rw [if_neg hone] at hprobe
                exact ih hprobe
            next hend =>
              rw [if_neg hend] at hprobe
              exact ih hprobe

theorem bury_tableSize (idx : Nat) : (table.bury idx).tableSize = table.tableSize :=
  List.length_set ..

/-- A tombstone is passed by a probe as the item was. -/
theorem Maintained.bury
    (hmaintained : table.Maintained hashOf) {item : α} {hashValue idx : Nat}
    (hentry : table.pEntries[idx]? = some (.live hashValue item)) :
    (table.bury idx).Maintained hashOf ∧ table.items.Perm (item :: (table.bury idx).items) := by
  obtain ⟨hidx, hlive⟩ := List.getElem?_eq_some_iff.mp hentry
  have hsound := hmaintained.counted.sound
  have htombstones := hmaintained.counted.tombstones
  have hload := hmaintained.load
  obtain ⟨rest, hbefore, hafter⟩ := itemsOf_set hentry .tombstone
  have hperm : table.items.Perm (item :: (table.bury idx).items) :=
    hbefore.trans (hafter.symm.cons item)
  have hsome : 0 < table.numEntries := by
    rw [← hmaintained.counted.items_length, hperm.length_eq, List.length_cons]
    exact Nat.succ_pos _
  have hslot : ∀ other, (table.bury idx).pEntries[other]? =
      if idx = other then some .tombstone else table.pEntries[other]? := by
    intro other
    rw [HashTable.bury, List.getElem?_set, if_pos hidx]
  have hnumber : (table.bury idx).numEntries + (table.bury idx).numDeadEntries =
      table.numEntries + table.numDeadEntries := by
    rw [HashTable.bury]
    simp only
    omega
  refine ⟨⟨⟨⟨?_, ?_, ?_, ?_⟩, ?_⟩, ?_⟩, hperm⟩
  · rw [bury_tableSize]
    exact hsound.size
  · intro other hash data hother
    rw [hslot] at hother
    split at hother
    · cases hother
    · obtain ⟨hhash, distance, hdistance, hplace, hpassed⟩ :=
        hsound.reachable other hash data hother
      refine ⟨hhash, distance, by rwa [bury_tableSize], by rwa [slotAt, bury_tableSize], ?_⟩
      intro earlier hearlier
      rw [slotAt, bury_tableSize, hslot]
      split
      · intro hnot
        cases hnot
      · exact hpassed earlier hearlier
  · rw [hnumber, ← hsound.used, HashTable.bury, List.countP_set hidx, hlive]
    have hused : 0 < table.pEntries.countP HashEntry.isUsed :=
      List.countP_pos_iff.mpr ⟨_, List.mem_of_getElem? hentry, rfl⟩
    simp only [HashEntry.isUsed, if_true]
    omega
  · rw [hnumber, bury_tableSize]
    exact hsound.room
  · rw [countTombStones, HashTable.bury, List.countP_set hidx, hlive, ← countTombStones,
      htombstones]
    rfl
  · rw [hnumber, bury_tableSize]
    exact hload

/-- Removal takes the given item away, if the table holds it. -/
theorem Maintained.remove
    [DecidableEq α] (hmaintained : table.Maintained hashOf) (item : α) :
    (∃ after, mzHashTableRemove table (hashOf item) item = .ok (true, after) ∧
        after.Maintained hashOf ∧ table.items.Perm (item :: after.items)) ∨
      mzHashTableRemove table (hashOf item) item = .ok (false, table) ∧ item ∉ table.items := by
  have hsound := hmaintained.counted.sound
  obtain ⟨idx, hprobe, hcases⟩ := @Sound.probe_cases _ hashOf table (hashOf item)
    (fun data => data = item) hsound (by
      intro data _ hdata
      rw [of_decide_eq_true hdata])
  rw [mzHashTableRemove, if_neg hsound.size_pos.ne']
  rcases hcases with ⟨hashValue, data, hentry, hdata⟩ | ⟨hentry, -, hnone⟩
  · obtain rfl : data = item := of_decide_eq_true hdata
    rw [hsound.probeItem_eq hprobe hentry]
    obtain ⟨hafter, hperm⟩ := hmaintained.bury hentry
    exact .inl ⟨table.bury idx, rfl, hafter, hperm⟩
  · rw [hsound.probeItem_eq hprobe hentry]
    refine .inr ⟨rfl, ?_⟩
    intro hmem
    have hfalse := hnone item (mem_items.mp hmem)
    simp at hfalse

end HashTable

/-! ## Visiting all items -/

section Map

variable {κ : Type} [DecidableEq κ]

/-- A call on a table.  Lookups without addition are by the key of the item. -/
inductive HashCall (κ α : Type) where
  | lookup (key : κ)
  | add (item : α)
  | remove (item : α)

inductive HashReply (α : Type) where
  | item (found : Option α)
  | removed (done : Bool)
  deriving DecidableEq

variable (keyOf : α → κ) (hash : κ → Nat)

/-- A call in C.  The comparison with an item is that of the keys. -/
def HashCall.run [DecidableEq α] (alloc : Nat → Bool) (table : HashTable α) :
    HashCall κ α → Except HashFault (HashReply α × HashTable α)
  | .lookup key => do
      let (found, table) ← mzHashTableLookup alloc table (hash key)
        (fun data => keyOf data = key) none
      pure (.item found, table)
  | .add item => do
      let (found, table) ← mzHashTableLookup alloc table (hash (keyOf item))
        (fun data => keyOf data = keyOf item) (some item)
      pure (.item found, table)
  | .remove item => do
      let (done, table) ← mzHashTableRemove table (hash (keyOf item)) item
      pure (.removed done, table)

/-- What a call does to a map from keys to items. -/
def HashCall.spec [DecidableEq α] (map : κ → Option α) :
    HashCall κ α → HashReply α × (κ → Option α)
  | .lookup key => (.item (map key), map)
  | .add item =>
      match map (keyOf item) with
      | some data => (.item (some data), map)
      | none => (.item (some item), Function.update map (keyOf item) (some item))
  | .remove item =>
      if map (keyOf item) = some item then
        (.removed true, Function.update map (keyOf item) none)
      else (.removed false, map)

/-- Calls one after the other, each with the storage that there is at its time. -/
def runCalls [DecidableEq α] (table : HashTable α) :
    List ((Nat → Bool) × HashCall κ α) → Except HashFault (List (HashReply α) × HashTable α)
  | [] => pure ([], table)
  | (alloc, call) :: calls => do
      let (reply, table) ← call.run keyOf hash alloc table
      let (replies, table) ← runCalls table calls
      pure (reply :: replies, table)

def specCalls [DecidableEq α] (map : κ → Option α) :
    List (HashCall κ α) → List (HashReply α) × (κ → Option α)
  | [] => ([], map)
  | call :: calls =>
      let (reply, map) := call.spec keyOf map
      let (replies, map) := specCalls map calls
      (reply :: replies, map)

/-- The table holds the items of the map, each in one slot. -/
structure Refines (map : κ → Option α) (table : HashTable α) : Prop where
  maintained : table.Maintained fun data => hash (keyOf data)
  nodup : (table.items.map keyOf).Nodup
  mem_items : ∀ data, data ∈ table.items ↔ map (keyOf data) = some data
  keyed : ∀ key data, map key = some data → keyOf data = key

variable {keyOf : α → κ} {hash : κ → Nat} {map : κ → Option α} {table : HashTable α}

namespace Refines

/-- What a search finds is the item that the map has for the key. -/
theorem probe_cases (hrefines : Refines keyOf hash map table) (key : κ) :
    ∃ idx, probe table (hash key) (fun data => keyOf data = key) table.tableSize
        (hash key &&& (table.tableSize - 1)) = .ok idx ∧
      ((∃ hashValue data, table.pEntries[idx]? = some (.live hashValue data) ∧
          map key = some data) ∨
        table.pEntries[idx]? = some .empty ∧ table.Reachable idx (hash key) ∧
          map key = none) := by
  have hsound := hrefines.maintained.counted.sound
  obtain ⟨idx, hprobe, hcases⟩ := @HashTable.Sound.probe_cases _ _ table (hash key)
    (fun data => keyOf data = key) hsound (by
      intro data _ hdata
      rw [of_decide_eq_true hdata])
  refine ⟨idx, hprobe, ?_⟩
  rcases hcases with ⟨hashValue, data, hentry, hdata⟩ | ⟨hentry, hreach, hnone⟩
  · have hkey : keyOf data = key := of_decide_eq_true hdata
    have hmem := HashTable.mem_items.mpr ⟨idx, hashValue, hentry⟩
    exact .inl ⟨hashValue, data, hentry, hkey ▸ (hrefines.mem_items data).mp hmem⟩
  · refine .inr ⟨hentry, hreach, ?_⟩
    by_contra hsome
    obtain ⟨data, hdata⟩ := Option.ne_none_iff_exists'.mp hsome
    have hkey := hrefines.keyed key data hdata
    have hmem := (hrefines.mem_items data).mpr (by rw [hkey, hdata])
    have hfalse := hnone data (HashTable.mem_items.mp hmem)
    simp [hkey] at hfalse

/-- The map with an item more. -/
theorem insert
    (hrefines : Refines keyOf hash map table) {item : α} {after : HashTable α}
    (hnone : map (keyOf item) = none)
    (hmaintained : after.Maintained fun data => hash (keyOf data))
    (hperm : after.items.Perm (item :: table.items)) :
    Refines keyOf hash (Function.update map (keyOf item) (some item)) after := by
  have hfresh : keyOf item ∉ table.items.map keyOf := by
    intro hmem
    obtain ⟨data, hdata, hkey⟩ := List.mem_map.mp hmem
    have hsome := (hrefines.mem_items data).mp hdata
    rw [hkey, hnone] at hsome
    cases hsome
  refine ⟨hmaintained, ?_, ?_, ?_⟩
  · rw [(hperm.map keyOf).nodup_iff, List.map_cons, List.nodup_cons]
    exact ⟨hfresh, hrefines.nodup⟩
  · intro data
    rw [hperm.mem_iff, List.mem_cons, hrefines.mem_items]
    by_cases hkey : keyOf data = keyOf item
    · rw [hkey, Function.update_self, hnone, Option.some.injEq, eq_comm]
      simp
    · have hne : data ≠ item := fun heq => hkey (congrArg keyOf heq)
      rw [Function.update_of_ne hkey]
      simp [hne]
  · intro key data hdata
    by_cases hkey : key = keyOf item
    · rw [hkey, Function.update_self] at hdata
      rw [← Option.some.inj hdata, hkey]
    · rw [Function.update_of_ne hkey] at hdata
      exact hrefines.keyed key data hdata

/-- The map without one of its items. -/
theorem erase
    (hrefines : Refines keyOf hash map table) {item : α} {after : HashTable α}
    (hmaintained : after.Maintained fun data => hash (keyOf data))
    (hperm : table.items.Perm (item :: after.items)) :
    Refines keyOf hash (Function.update map (keyOf item) none) after := by
  have hnodup := hrefines.nodup
  rw [(hperm.map keyOf).nodup_iff, List.map_cons, List.nodup_cons] at hnodup
  refine ⟨hmaintained, hnodup.2, ?_, ?_⟩
  · intro data
    by_cases hkey : keyOf data = keyOf item
    · have hgone : data ∉ after.items := by
        intro hmem
        exact hnodup.1 (hkey ▸ List.mem_map_of_mem hmem)
      rw [hkey, Function.update_self]
      simp [hgone]
    · have hne : data ≠ item := fun heq => hkey (congrArg keyOf heq)
      have hmem := hrefines.mem_items data
      rw [hperm.mem_iff, List.mem_cons] at hmem
      rw [Function.update_of_ne hkey, ← hmem]
      simp [hne]
  · intro key data hdata
    by_cases hkey : key = keyOf item
    · rw [hkey, Function.update_self] at hdata
      cases hdata
    · rw [Function.update_of_ne hkey] at hdata
      exact hrefines.keyed key data hdata

/-- A call does what it does to the map, or there is no storage for a larger table. -/
theorem call
    [DecidableEq α] (hrefines : Refines keyOf hash map table) (alloc : Nat → Bool) (call : HashCall κ α) :
    (∃ after, call.run keyOf hash alloc table = .ok ((call.spec keyOf map).1, after) ∧
        Refines keyOf hash (call.spec keyOf map).2 after) ∨
      call.run keyOf hash alloc table = .error .abort ∧ ∃ size, alloc size = false := by
  have hsound := hrefines.maintained.counted.sound
  cases call with
  | lookup key =>
      obtain ⟨idx, hprobe, hcases⟩ := hrefines.probe_cases key
      refine .inl ⟨table, ?_, hrefines⟩
      rw [HashCall.run, hsound.mzHashTableLookup_eq alloc none hprobe]
      rcases hcases with ⟨hashValue, data, hentry, hdata⟩ | ⟨hentry, -, hnone⟩
      · rw [HashTable.Sound.finishLookup_live alloc none hentry, HashCall.spec, hdata]
        rfl
      · rw [HashTable.Sound.finishLookup_empty alloc none hentry, HashCall.spec, hnone]
        rfl
  | add item =>
      obtain ⟨idx, hprobe, hcases⟩ := hrefines.probe_cases (keyOf item)
      rw [HashCall.run, hsound.mzHashTableLookup_eq alloc (some item) hprobe]
      rcases hcases with ⟨hashValue, data, hentry, hdata⟩ | ⟨hentry, hreach, hnone⟩
      · rw [HashTable.Sound.finishLookup_live alloc _ hentry, HashCall.spec, hdata]
        exact .inl ⟨table, rfl, hrefines⟩
      · rw [HashTable.Sound.finishLookup_empty alloc _ hentry, HashCall.spec, hnone]
        rcases hrefines.maintained.addEntry_cases alloc hentry hreach with
          ⟨after, hadd, hmaintained, hperm⟩ | ⟨hadd, halloc⟩
        · simp only [hadd]
          exact .inl ⟨after, rfl, hrefines.insert hnone hmaintained hperm⟩
        · simp only [hadd]
          exact .inr ⟨rfl, _, halloc⟩
  | remove item =>
      left
      rw [HashCall.run, HashCall.spec]
      rcases hrefines.maintained.remove item with
        ⟨after, hremove, hmaintained, hperm⟩ | ⟨hremove, habsent⟩
      · have hmem : item ∈ table.items := hperm.mem_iff.mpr List.mem_cons_self
        rw [hremove, if_pos ((hrefines.mem_items item).mp hmem)]
        exact ⟨after, rfl, hrefines.erase hmaintained hperm⟩
      · rw [hremove, if_neg (fun hsome => habsent ((hrefines.mem_items item).mpr hsome))]
        exact ⟨table, rfl, hrefines⟩

/-- All calls of a run do, unless there is no storage for one of them. -/
theorem calls
    [DecidableEq α] (hrefines : Refines keyOf hash map table)
    (calls : List ((Nat → Bool) × HashCall κ α)) :
    (∃ after, runCalls keyOf hash table calls =
          .ok ((specCalls keyOf map (calls.map Prod.snd)).1, after) ∧
        Refines keyOf hash (specCalls keyOf map (calls.map Prod.snd)).2 after) ∨
      runCalls keyOf hash table calls = .error .abort ∧
        ∃ call ∈ calls, ∃ size, call.1 size = false := by
  induction calls generalizing table map with
  | nil => exact .inl ⟨table, rfl, hrefines⟩
  | cons first calls ih =>
      obtain ⟨alloc, call⟩ := first
      rw [runCalls, List.map_cons, specCalls]
      rcases hrefines.call alloc call with ⟨middle, hcall, hmiddle⟩ | ⟨hcall, size, halloc⟩
      · rw [hcall]
        rcases ih hmiddle with ⟨after, hcalls, hafter⟩ | ⟨hcalls, other, hother, hstorage⟩
        · refine .inl ⟨after, ?_, hafter⟩
          simp only [bind, Except.bind, hcalls]
          rfl
        · refine .inr ⟨?_, other, List.mem_cons_of_mem _ hother, hstorage⟩
          simp only [bind, Except.bind, hcalls]
      · rw [hcall]
        exact .inr ⟨rfl, (alloc, call), List.mem_cons_self, size, halloc⟩

end Refines

end Map

example :
    (runCalls (· % 10) id ⟨0, 0, [.empty]⟩ ([.add 7, .add 13, .add 27, .remove 7, .remove 13,
      .lookup 7, .lookup 3].map fun call => (fun _ => true, call))).map Prod.fst =
      .ok [.item (some 7), .item (some 13), .item (some 7), .removed true, .removed true,
        .item none, .item none] := by
  rfl

end OpenRecovery.Minzip
