import Mathlib

/-!
# The hash table of `minzip/Hash.c`

An array of slots whose length is a power of two.  The slot of an item is found by
probing from the place that its hash gives, around the end of the array, up to the
first empty slot.  The table is doubled when it gets too full.
-/

namespace OpenRecovery.Minzip

/-- How a call on the table can fail to return: an assertion does not hold, the storage
for a larger table is missing, the probe never ends, or it leaves the array. -/
inductive HashFault where
  | assertion
  | abort
  | hang
  | pastEnd
  deriving DecidableEq

/-- `HashEntry`, by what `data` is: a null pointer, the tombstone, or an item. -/
inductive HashEntry (α : Type) where
  | empty
  | tombstone
  | live (hashValue : Nat) (data : α)
  deriving DecidableEq

/-- `HashTable`.  The array always has `tableSize` slots. -/
structure HashTable (α : Type) where
  numEntries : Nat
  numDeadEntries : Nat
  pEntries : List (HashEntry α)

variable {α : Type}

def HashTable.tableSize (table : HashTable α) : Nat :=
  table.pEntries.length

def loadNumer : Nat := 5

def loadDenom : Nat := 8

/-- `sizeof(HashTable)`, which is also what the code takes for the size of a slot. -/
def sizeofHashTable : Nat := 20

def mzHashSize (size : Nat) : Nat :=
  size * loadDenom / loadNumer + 1

/-- The steps of `roundUpPower2` between the decrement and the increment. -/
def smear (val : Nat) : Nat :=
  let val := val ||| val >>> 1
  let val := val ||| val >>> 2
  let val := val ||| val >>> 4
  let val := val ||| val >>> 8
  val ||| val >>> 16

def roundUpPower2 (val : Nat) : Nat :=
  (smear ((val + (2 ^ 32 - 1)) % 2 ^ 32) + 1) % 2 ^ 32

/-- `mzHashTableCreate`; `alloc` tells which sizes can be allocated. -/
def mzHashTableCreate (alloc : Nat → Bool) (initialSize : Nat) :
    Except HashFault (Option (HashTable α)) :=
  if initialSize = 0 then .error .assertion
  else if alloc sizeofHashTable && alloc (roundUpPower2 initialSize * sizeofHashTable) then
    .ok (some ⟨0, 0, List.replicate (roundUpPower2 initialSize) .empty⟩)
  else .ok none

/-- The item of a slot. -/
def HashEntry.data? : HashEntry α → Option α
  | .live _ data => some data
  | _ => none

def HashEntry.isTombstone : HashEntry α → Bool
  | .tombstone => true
  | _ => false

def countTombStones (table : HashTable α) : Nat :=
  table.pEntries.countP HashEntry.isTombstone

/-- The probe of `resizeHash`: the next empty slot, in an array without tombstones. -/
def probeEmpty (entries : List (HashEntry α)) : (fuel newIdx : Nat) → Except HashFault Nat
  | 0, _ => .error .hang
  | fuel + 1, newIdx =>
      match entries[newIdx]? with
      | none => .error .pastEnd
      | some .empty => .ok newIdx
      | some _ => probeEmpty entries fuel ((newIdx + 1) &&& (entries.length - 1))

/-- The loop of `resizeHash`, with the slots of the old array still to be moved. -/
def moveEntries : List (HashEntry α) → List (HashEntry α) → Except HashFault (List (HashEntry α))
  | [], entries => .ok entries
  | .live hashValue data :: old, entries => do
      let newIdx ← probeEmpty entries entries.length (hashValue &&& (entries.length - 1))
      moveEntries old (entries.set newIdx (.live hashValue data))
  | _ :: old, entries => moveEntries old entries

/-- `resizeHash`, which gives no table if there is no storage. -/
def resizeHash (alloc : Nat → Bool) (table : HashTable α) (newSize : Nat) :
    Except HashFault (Option (HashTable α)) :=
  if countTombStones table ≠ table.numDeadEntries then .error .assertion
  else if alloc (newSize * sizeofHashTable) then do
    let entries ← moveEntries table.pEntries (List.replicate newSize .empty)
    pure (some ⟨table.numEntries, 0, entries⟩)
  else .ok none

/-- Whether the probe of `mzHashTableLookup` ends at a slot: it is empty, or it holds a
match. -/
def HashEntry.ends (itemHash : Nat) (isMatch : α → Bool) : HashEntry α → Bool
  | .empty => true
  | .tombstone => false
  | .live hashValue data => hashValue = itemHash && isMatch data

/-- The next slot, around the end of the array.  A table of one slot is left. -/
def HashTable.nextSlot (table : HashTable α) (idx : Nat) : Except HashFault Nat :=
  if idx + 1 = table.tableSize then
    if table.tableSize = 1 then .error .pastEnd else .ok 0
  else .ok (idx + 1)

/-- The probe of `mzHashTableLookup`. -/
def probe (table : HashTable α) (itemHash : Nat) (isMatch : α → Bool) :
    (fuel idx : Nat) → Except HashFault Nat
  | 0, _ => .error .hang
  | fuel + 1, idx =>
      match table.pEntries[idx]? with
      | none => .error .pastEnd
      | some entry =>
          if entry.ends itemHash isMatch then .ok idx
          else do
            let idx ← table.nextSlot idx
            probe table itemHash isMatch fuel idx

/-- The table with an item stored in an empty slot. -/
def HashTable.store (table : HashTable α) (itemHash : Nat) (item : α) (idx : Nat) : HashTable α :=
  ⟨table.numEntries + 1, table.numDeadEntries, table.pEntries.set idx (.live itemHash item)⟩

/-- Store an item, and double the table if it has become too full. -/
def addEntry (alloc : Nat → Bool) (table : HashTable α) (itemHash : Nat) (item : α) (idx : Nat) :
    Except HashFault (HashTable α) := do
  let added := table.store itemHash item idx
  let grown ←
    if added.tableSize * loadNumer < (added.numEntries + added.numDeadEntries) * loadDenom then do
      match ← resizeHash alloc added (added.tableSize * 2) with
      | some resized => pure resized
      | none => .error .abort
    else pure added
  if grown.numEntries < grown.tableSize then pure grown else .error .assertion

/-- What `mzHashTableLookup` does with the slot that the probe has found. -/
def finishLookup (alloc : Nat → Bool) (table : HashTable α) (itemHash : Nat) (add : Option α)
    (idx : Nat) : Except HashFault (Option α × HashTable α) :=
  match table.pEntries[idx]?, add with
  | some (.live _ data), _ => pure (some data, table)
  | _, some item => do
      let table ← addEntry alloc table itemHash item idx
      pure (some item, table)
  | _, none => pure (none, table)

/-- `mzHashTableLookup`, where `isMatch` is the comparison with the item that is looked up
and `add` is that item if it is to be added. -/
def mzHashTableLookup (alloc : Nat → Bool) (table : HashTable α) (itemHash : Nat)
    (isMatch : α → Bool) (add : Option α) : Except HashFault (Option α × HashTable α) :=
  if table.tableSize = 0 then .error .assertion
  else do
    let idx ← probe table itemHash isMatch table.tableSize (itemHash &&& (table.tableSize - 1))
    finishLookup alloc table itemHash add idx

/-- The probe of `mzHashTableRemove`, by the address of the item.  It gives up in a table
of one slot. -/
def probeItem [DecidableEq α] (table : HashTable α) (item : α) :
    (fuel idx : Nat) → Except HashFault (Option Nat)
  | 0, _ => .error .hang
  | fuel + 1, idx =>
      match table.pEntries[idx]? with
      | none => .error .pastEnd
      | some .empty => .ok none
      | some entry =>
          if entry.data? = some item then .ok (some idx)
          else if idx + 1 = table.tableSize then
            if table.tableSize = 1 then .ok none else probeItem table item fuel 0
          else probeItem table item fuel (idx + 1)

/-- The table with a tombstone in place of the item in a slot. -/
def HashTable.bury (table : HashTable α) (idx : Nat) : HashTable α :=
  ⟨table.numEntries - 1, table.numDeadEntries + 1, table.pEntries.set idx .tombstone⟩

/-- `mzHashTableRemove`. -/
def mzHashTableRemove [DecidableEq α] (table : HashTable α) (itemHash : Nat) (item : α) :
    Except HashFault (Bool × HashTable α) :=
  if table.tableSize = 0 then .error .assertion
  else do
    match ← probeItem table item table.tableSize (itemHash &&& (table.tableSize - 1)) with
    | some idx => pure (true, table.bury idx)
    | none => pure (false, table)

theorem testBit_smear (val i : Nat) :
    (smear val).testBit i = true ↔ ∃ distance < 32, val.testBit (i + distance) = true := by
  have hstep : ∀ {smeared width : Nat},
      (∀ i, smeared.testBit i = true ↔ ∃ distance < width, val.testBit (i + distance) = true) →
      ∀ i, (smeared ||| smeared >>> width).testBit i = true ↔
        ∃ distance < 2 * width, val.testBit (i + distance) = true := by
    intro smeared width hsmeared i
    rw [Nat.testBit_or, Nat.testBit_shiftRight, Bool.or_eq_true, Nat.add_comm width, hsmeared,
      hsmeared]
    constructor
    · rintro (⟨distance, hlt, hbit⟩ | ⟨distance, hlt, hbit⟩)
      · exact ⟨distance, by omega, hbit⟩
      · exact ⟨width + distance, by omega, by rwa [← Nat.add_assoc]⟩
    · rintro ⟨distance, hlt, hbit⟩
      by_cases hnear : distance < width
      · exact .inl ⟨distance, hnear, hbit⟩
      · refine .inr ⟨distance - width, by omega, ?_⟩
        rwa [show i + width + (distance - width) = i + distance by omega]
  have hone : ∀ i, val.testBit i = true ↔ ∃ distance < 1, val.testBit (i + distance) = true := by
    intro i
    simp
  exact hstep (hstep (hstep (hstep (hstep hone)))) i

theorem smear_eq {val : Nat} (hpos : val ≠ 0) (hlt : val < 2 ^ 32) :
    smear val = 2 ^ (val.log2 + 1) - 1 := by
  have hlog : val.log2 < 32 := (Nat.log2_lt hpos).mpr hlt
  refine Nat.eq_of_testBit_eq fun i => ?_
  rw [Bool.eq_iff_iff, testBit_smear, Nat.testBit_two_pow_sub_one, decide_eq_true_eq]
  constructor
  · rintro ⟨distance, -, hbit⟩
    have hge := Nat.ge_two_pow_of_testBit hbit
    have hle := (Nat.le_log2 hpos).mpr hge
    omega
  · intro hi
    refine ⟨val.log2 - i, by omega, ?_⟩
    rw [Nat.add_sub_cancel' (Nat.lt_succ_iff.mp hi)]
    exact Nat.testBit_log2 hpos

/-- `roundUpPower2` gives a power of two that is large enough. -/
theorem roundUpPower2_spec {val : Nat} (hpos : 0 < val) (hle : val ≤ 2 ^ 31) :
    ∃ exponent, roundUpPower2 val = 2 ^ exponent ∧ val ≤ 2 ^ exponent := by
  have hdecrement : (val + (2 ^ 32 - 1)) % 2 ^ 32 = val - 1 := by omega
  rw [roundUpPower2, hdecrement]
  by_cases hone : val = 1
  · subst hone
    exact ⟨0, rfl, le_rfl⟩
  · have hne : val - 1 ≠ 0 := by omega
    have hlog : (val - 1).log2 < 31 := (Nat.log2_lt hne).mpr (by omega)
    have hpow : 2 ^ ((val - 1).log2 + 1) ≤ 2 ^ 31 := Nat.pow_le_pow_right (by decide) hlog
    have hpowPos : 0 < 2 ^ ((val - 1).log2 + 1) := Nat.pow_pos (by decide)
    have hlt : val - 1 < 2 ^ ((val - 1).log2 + 1) := Nat.lt_log2_self
    refine ⟨(val - 1).log2 + 1, ?_, by omega⟩
    rw [smear_eq hne (by omega)]
    omega

/-! ## Probing -/

namespace HashTable

variable {table : HashTable α} {itemHash : Nat} {isMatch : α → Bool}

/-- The slot at a distance from the place that the hash gives. -/
def slotAt (table : HashTable α) (itemHash distance : Nat) : Nat :=
  (itemHash + distance) % table.tableSize

theorem slotAt_lt (hsize : 0 < table.tableSize) (distance : Nat) :
    table.slotAt itemHash distance < table.pEntries.length :=
  Nat.mod_lt _ hsize

theorem nextSlot_slotAt {distance : Nat} (hsize : 1 < table.tableSize) :
    table.nextSlot (table.slotAt itemHash distance) =
      .ok (table.slotAt itemHash (distance + 1)) := by
  have hlt : table.slotAt itemHash distance < table.tableSize := Nat.mod_lt _ (by omega)
  have hnext : table.slotAt itemHash (distance + 1) =
      (table.slotAt itemHash distance + 1) % table.tableSize := by
    rw [slotAt, slotAt, ← Nat.add_assoc, Nat.mod_add_mod]
  rw [nextSlot, hnext]
  split
  · rename_i hend
    rw [if_neg (by omega), hend, Nat.mod_self]
  · rw [Nat.mod_eq_of_lt (by omega)]

/-- The slot ends the probe. -/
def EndsAt (table : HashTable α) (itemHash : Nat) (isMatch : α → Bool) (distance : Nat) : Prop :=
  ∃ entry, table.pEntries[table.slotAt itemHash distance]? = some entry ∧
    entry.ends itemHash isMatch = true

/-- The probe ends at the first slot that ends it. -/
theorem probe_eq {fuel distance passed : Nat} (hsize : 0 < table.tableSize)
    (hbefore : ∀ earlier, passed ≤ earlier → earlier < passed + distance →
      ¬table.EndsAt itemHash isMatch earlier)
    (hends : table.EndsAt itemHash isMatch (passed + distance)) (hfuel : distance < fuel) :
    probe table itemHash isMatch fuel (table.slotAt itemHash passed) =
      .ok (table.slotAt itemHash (passed + distance)) := by
  induction distance generalizing fuel passed with
  | zero =>
      obtain ⟨fuel, rfl⟩ := Nat.exists_eq_succ_of_ne_zero (Nat.ne_zero_of_lt hfuel)
      obtain ⟨entry, hentry, hend⟩ := hends
      rw [Nat.add_zero] at hentry ⊢
      rw [probe, hentry]
      dsimp only
      rw [if_pos hend]
  | succ distance ih =>
      obtain ⟨fuel, rfl⟩ := Nat.exists_eq_succ_of_ne_zero (Nat.ne_zero_of_lt hfuel)
      have hnot := hbefore passed le_rfl (by omega)
      have hlt : table.slotAt itemHash passed < table.pEntries.length := slotAt_lt hsize passed
      have hgo : ¬(table.pEntries[table.slotAt itemHash passed].ends itemHash isMatch = true) :=
        fun hend => hnot ⟨_, List.getElem?_eq_getElem hlt, hend⟩
      have hlarge : 1 < table.tableSize := by
        by_contra hsmall
        have hone : table.tableSize = 1 := by omega
        refine hnot ?_
        rw [EndsAt, slotAt, hone, Nat.mod_one] at hends ⊢
        exact hends
      rw [probe, List.getElem?_eq_getElem hlt]
      dsimp only
      rw [if_neg hgo, nextSlot_slotAt hlarge]
      rw [show passed + (distance + 1) = passed + 1 + distance by omega] at hbefore hends ⊢
      exact ih (fun earlier hle hearlier => hbefore earlier (by omega) hearlier) hends
        (Nat.lt_of_succ_lt_succ hfuel)

/-! ## What a table keeps -/

/-- Some slot holds the item. -/
def Holds (table : HashTable α) (data : α) : Prop :=
  ∃ idx hashValue : Nat, table.pEntries[idx]? = some (.live hashValue data)

/-- Between the place that the hash of an item gives and its slot no slot is empty. -/
def Reachable (table : HashTable α) (idx hashValue : Nat) : Prop :=
  ∃ distance < table.tableSize, table.slotAt hashValue distance = idx ∧
    ∀ earlier < distance, table.pEntries[table.slotAt hashValue earlier]? ≠ some .empty

end HashTable

def HashEntry.isUsed : HashEntry α → Bool
  | .empty => false
  | _ => true

/-- The size is a power of two, items are stored with their hash where a probe finds
them, and the counters are right and leave an empty slot. -/
structure HashTable.Sound (hashOf : α → Nat) (table : HashTable α) : Prop where
  size : ∃ exponent, table.tableSize = 2 ^ exponent
  reachable : ∀ (idx hashValue : Nat) (data : α), table.pEntries[idx]? = some (.live hashValue data) →
    hashValue = hashOf data ∧ table.Reachable idx hashValue
  used : table.pEntries.countP HashEntry.isUsed = table.numEntries + table.numDeadEntries
  room : table.numEntries + table.numDeadEntries < table.tableSize

namespace HashTable.Sound

variable {hashOf : α → Nat} {table : HashTable α} {itemHash : Nat} {isMatch : α → Bool}

theorem size_pos (hsound : table.Sound hashOf) : 0 < table.tableSize :=
  Nat.zero_lt_of_lt hsound.room

/-- The mask of the code is a remainder. -/
theorem start_eq (hsound : table.Sound hashOf) :
    itemHash &&& (table.tableSize - 1) = table.slotAt itemHash 0 := by
  obtain ⟨exponent, hsize⟩ := hsound.size
  rw [HashTable.slotAt, hsize, Nat.and_two_pow_sub_one_eq_mod, Nat.add_zero]

theorem exists_empty (hsound : table.Sound hashOf) (itemHash : Nat) :
    ∃ distance < table.tableSize,
      table.pEntries[table.slotAt itemHash distance]? = some .empty := by
  have hcount : table.pEntries.countP HashEntry.isUsed ≠ table.pEntries.length := by
    rw [hsound.used]
    exact Nat.ne_of_lt hsound.room
  have hempty : ∃ entry ∈ table.pEntries, ¬HashEntry.isUsed entry = true := by
    by_contra hall
    push Not at hall
    exact hcount (List.countP_eq_length.mpr hall)
  obtain ⟨entry, hmem, hunused⟩ := hempty
  obtain ⟨idx, hlt, hentry⟩ := List.mem_iff_getElem.mp hmem
  have hpos := hsound.size_pos
  have hsize : idx < table.tableSize := hlt
  obtain ⟨distance, hdistance, hslot⟩ :
      ∃ distance < table.tableSize, table.slotAt itemHash distance = idx := by
    refine ⟨(idx + (table.tableSize - itemHash % table.tableSize)) % table.tableSize,
      Nat.mod_lt _ hpos, ?_⟩
    have hmod := Nat.mod_lt itemHash hpos
    have hsum : itemHash % table.tableSize +
        (idx + (table.tableSize - itemHash % table.tableSize)) = idx + table.tableSize := by omega
    rw [HashTable.slotAt, Nat.add_mod_mod, ← Nat.mod_add_mod, hsum, Nat.add_mod_right,
      Nat.mod_eq_of_lt hsize]
  refine ⟨distance, hdistance, ?_⟩
  rw [hslot, List.getElem?_eq_getElem hlt, hentry]
  cases entry with
  | empty => rfl
  | tombstone => exact absurd rfl hunused
  | live hashValue data => exact absurd rfl hunused

/-- Every probe ends, at the first slot that is empty or holds a match. -/
theorem exists_probe (hsound : table.Sound hashOf) (itemHash : Nat) (isMatch : α → Bool) :
    ∃ distance < table.tableSize, table.EndsAt itemHash isMatch distance ∧
      (∀ earlier < distance, ¬table.EndsAt itemHash isMatch earlier) ∧
      probe table itemHash isMatch table.tableSize (itemHash &&& (table.tableSize - 1)) =
        .ok (table.slotAt itemHash distance) := by
  classical
  obtain ⟨free, hfree, hempty⟩ := hsound.exists_empty itemHash
  have hexists : ∃ distance, table.EndsAt itemHash isMatch distance := ⟨free, _, hempty, rfl⟩
  have hfirst := Nat.find_spec hexists
  have hle : Nat.find hexists ≤ free := Nat.find_min' hexists ⟨_, hempty, rfl⟩
  have hbefore : ∀ earlier < Nat.find hexists, ¬table.EndsAt itemHash isMatch earlier :=
    fun earlier hearlier => Nat.find_min hexists hearlier
  refine ⟨Nat.find hexists, lt_of_le_of_lt hle hfree, hfirst, hbefore, ?_⟩
  have hprobe := @HashTable.probe_eq _ table itemHash isMatch table.tableSize
    (Nat.find hexists) 0 hsound.size_pos
  rw [Nat.zero_add] at hprobe
  rw [hsound.start_eq]
  exact hprobe (fun earlier _ hearlier => hbefore earlier hearlier) hfirst
    (lt_of_le_of_lt hle hfree)

/-- A probe finds a match, or the slot where the item belongs and then there is no match. -/
theorem probe_cases (hsound : table.Sound hashOf)
    (hmatch : ∀ data, table.Holds data → isMatch data = true → hashOf data = itemHash) :
    ∃ idx, probe table itemHash isMatch table.tableSize (itemHash &&& (table.tableSize - 1)) =
        .ok idx ∧
      ((∃ hashValue data, table.pEntries[idx]? = some (.live hashValue data) ∧
          isMatch data = true) ∨
        (table.pEntries[idx]? = some .empty ∧ table.Reachable idx itemHash ∧
          ∀ data, table.Holds data → isMatch data = false)) := by
  obtain ⟨distance, hlt, ⟨entry, hentry, hend⟩, hbefore, hprobe⟩ :=
    hsound.exists_probe itemHash isMatch
  refine ⟨_, hprobe, ?_⟩
  cases entry with
  | tombstone => cases hend
  | live hashValue data =>
      simp only [HashEntry.ends, Bool.and_eq_true] at hend
      exact .inl ⟨hashValue, data, hentry, hend.2⟩
  | empty =>
      have hnonempty : ∀ earlier < distance,
          table.pEntries[table.slotAt itemHash earlier]? ≠ some .empty :=
        fun earlier hearlier hempty => hbefore earlier hearlier ⟨_, hempty, rfl⟩
      refine .inr ⟨hentry, ⟨distance, hlt, rfl, hnonempty⟩, ?_⟩
      intro data hholds
      by_contra hdata
      rw [Bool.not_eq_false] at hdata
      obtain ⟨idx, hashValue, hlive⟩ := id hholds
      obtain ⟨rfl, distance', -, hslot, hreach⟩ := hsound.reachable idx hashValue data hlive
      rw [hmatch data hholds hdata] at hslot hreach hlive
      rcases Nat.lt_trichotomy distance' distance with hcloser | rfl | hfarther
      · refine hbefore distance' hcloser ⟨_, hslot ▸ hlive, ?_⟩
        simp [HashEntry.ends, hdata]
      · rw [hslot, hlive] at hentry
        cases hentry
      · exact hreach distance hfarther hentry

theorem mzHashTableLookup_eq (hsound : table.Sound hashOf) (alloc : Nat → Bool) (add : Option α)
    {idx : Nat} (hprobe : probe table itemHash isMatch table.tableSize
      (itemHash &&& (table.tableSize - 1)) = .ok idx) :
    mzHashTableLookup alloc table itemHash isMatch add =
      finishLookup alloc table itemHash add idx := by
  rw [mzHashTableLookup, if_neg hsound.size_pos.ne', hprobe]
  rfl

theorem finishLookup_live (alloc : Nat → Bool) (add : Option α) {idx hashValue : Nat} {data : α}
    (hentry : table.pEntries[idx]? = some (.live hashValue data)) :
    finishLookup alloc table itemHash add idx = .ok (some data, table) := by
  unfold finishLookup
  rw [hentry]
  rfl

theorem finishLookup_empty (alloc : Nat → Bool) (add : Option α) {idx : Nat}
    (hentry : table.pEntries[idx]? = some .empty) :
    finishLookup alloc table itemHash add idx =
      match add with
      | some item => (addEntry alloc table itemHash item idx).map fun after => (some item, after)
      | none => .ok (none, table) := by
  unfold finishLookup
  rw [hentry]
  cases add with
  | none => rfl
  | some item =>
      dsimp only
      cases addEntry alloc table itemHash item idx <;> rfl

/-- A search returns a match if the table holds one. -/
theorem lookup (hsound : table.Sound hashOf) (alloc : Nat → Bool)
    (hmatch : ∀ data, table.Holds data → isMatch data = true → hashOf data = itemHash) :
    ∃ result, mzHashTableLookup alloc table itemHash isMatch none = .ok (result, table) ∧
      (∀ data, result = some data → table.Holds data ∧ isMatch data = true) ∧
      (result = none → ∀ data, table.Holds data → isMatch data = false) := by
  obtain ⟨idx, hprobe, hcases⟩ := hsound.probe_cases hmatch
  rw [hsound.mzHashTableLookup_eq alloc none hprobe]
  rcases hcases with ⟨hashValue, data, hentry, hdata⟩ | ⟨hentry, -, hnone⟩
  · refine ⟨some data, finishLookup_live alloc none hentry, ?_, nofun⟩
    intro other hother
    obtain rfl := Option.some.inj hother
    exact ⟨⟨idx, hashValue, hentry⟩, hdata⟩
  · exact ⟨none, finishLookup_empty alloc none hentry, nofun, fun _ => hnone⟩

/-! ## Adding an item -/

theorem store_tableSize (itemHash : Nat) (item : α) (idx : Nat) :
    (table.store itemHash item idx).tableSize = table.tableSize :=
  List.length_set ..

/-- A slot of the table with an item stored is the new one or an old one. -/
theorem store_entry {item : α} {idx : Nat} (hidx : idx < table.tableSize) (other : Nat) :
    (table.store itemHash item idx).pEntries[other]? =
      if idx = other then some (.live itemHash item) else table.pEntries[other]? := by
  rw [HashTable.store, List.getElem?_set]
  split
  · exact if_pos hidx
  · rfl

/-- Storing an item where its probe ends keeps the table sound. -/
theorem store (hsound : table.Sound hashOf) {item : α} {idx : Nat}
    (hentry : table.pEntries[idx]? = some .empty) (hreach : table.Reachable idx (hashOf item))
    (hroom : table.numEntries + table.numDeadEntries + 1 < table.tableSize) :
    (table.store (hashOf item) item idx).Sound hashOf := by
  obtain ⟨hidx, hempty⟩ := List.getElem?_eq_some_iff.mp hentry
  have hkeep : ∀ {slot hashValue : Nat}, table.Reachable slot hashValue →
      (table.store (hashOf item) item idx).Reachable slot hashValue := by
    rintro slot hashValue ⟨distance, hdistance, hslot, hbefore⟩
    refine ⟨distance, by rwa [store_tableSize], by rwa [HashTable.slotAt, store_tableSize], ?_⟩
    intro earlier hearlier
    rw [HashTable.slotAt, store_tableSize, store_entry hidx]
    split
    · nofun
    · exact hbefore earlier hearlier
  constructor
  · obtain ⟨exponent, hsize⟩ := hsound.size
    exact ⟨exponent, by rw [store_tableSize, hsize]⟩
  · intro slot hashValue data hlive
    rw [store_entry hidx] at hlive
    split at hlive
    · rename_i hslot
      subst hslot
      cases hlive
      exact ⟨rfl, hkeep hreach⟩
    · obtain ⟨hhash, hold⟩ := hsound.reachable slot hashValue data hlive
      exact ⟨hhash, hkeep hold⟩
  · have hcount := hsound.used
    rw [HashTable.store, List.countP_set hidx, hempty, hcount]
    simp only [HashEntry.isUsed, Bool.false_eq_true, if_false, if_true]
    omega
  · rw [store_tableSize]
    simp only [HashTable.store]
    omega

/-- A table that is not too full after the addition is not enlarged. -/
theorem addEntry_eq (alloc : Nat → Bool) {item : α} {idx : Nat}
    (hload : (table.numEntries + table.numDeadEntries + 1) * loadDenom ≤
      table.tableSize * loadNumer) :
    addEntry alloc table itemHash item idx = .ok (table.store itemHash item idx) := by
  have hnumber : (table.store itemHash item idx).numEntries = table.numEntries + 1 := rfl
  have hdead : (table.store itemHash item idx).numDeadEntries = table.numDeadEntries := rfl
  simp only [loadDenom, loadNumer] at hload
  simp only [addEntry, store_tableSize, hnumber, hdead, loadDenom, loadNumer]
  rw [if_neg (by omega)]
  simp only [pure_bind, store_tableSize, hnumber]
  rw [if_pos (by omega)]
  rfl

/-- Adding an item gives a match that the table holds already, or stores the item. -/
theorem add (hsound : table.Sound hashOf) (alloc : Nat → Bool) {item : α}
    (hmatch : ∀ data, table.Holds data → isMatch data = true → hashOf data = hashOf item)
    (hload : (table.numEntries + table.numDeadEntries + 1) * loadDenom ≤
      table.tableSize * loadNumer) :
    ∃ result after, mzHashTableLookup alloc table (hashOf item) isMatch (some item) =
        .ok (some result, after) ∧ after.Sound hashOf ∧ after.tableSize = table.tableSize ∧
      after.numEntries ≤ table.numEntries + 1 ∧ after.numDeadEntries = table.numDeadEntries ∧
      (∀ data, after.Holds data → table.Holds data ∨ data = item) ∧
      (∀ data, table.Holds data → after.Holds data) ∧
      (after.Holds item ∨ ∃ data, after.Holds data ∧ isMatch data = true) := by
  obtain ⟨idx, hprobe, hcases⟩ := hsound.probe_cases hmatch
  rw [hsound.mzHashTableLookup_eq alloc (some item) hprobe]
  rcases hcases with ⟨hashValue, data, hentry, hdata⟩ | ⟨hentry, hreach, -⟩
  · have hholds : table.Holds data := ⟨idx, hashValue, hentry⟩
    exact ⟨data, table, finishLookup_live alloc _ hentry, hsound, rfl, Nat.le_succ _, rfl,
      fun _ h => .inl h, fun _ h => h, .inr ⟨data, hholds, hdata⟩⟩
  · have hidx := (List.getElem?_eq_some_iff.mp hentry).1
    have hroom : table.numEntries + table.numDeadEntries + 1 < table.tableSize := by
      simp only [loadDenom, loadNumer] at hload
      omega
    refine ⟨item, table.store (hashOf item) item idx, ?_, hsound.store hentry hreach hroom,
      store_tableSize .., le_rfl, rfl, ?_, ?_, .inl ⟨idx, hashOf item, ?_⟩⟩
    · rw [finishLookup_empty alloc _ hentry]
      dsimp only
      rw [addEntry_eq alloc hload]
      rfl
    · rintro data ⟨slot, hashValue, hlive⟩
      rw [store_entry hidx] at hlive
      split at hlive
      · cases hlive
        exact .inr rfl
      · exact .inl ⟨slot, hashValue, hlive⟩
    · rintro data ⟨slot, hashValue, hlive⟩
      refine ⟨slot, hashValue, ?_⟩
      rw [store_entry hidx, if_neg ?_]
      · exact hlive
      · rintro rfl
        rw [hentry] at hlive
        cases hlive
    · rw [store_entry hidx, if_pos rfl]

end HashTable.Sound

/-- A new table is sound, and large enough for the items it was made for. -/
theorem mzHashTableCreate_sound {alloc : Nat → Bool} {size : Nat} {table : HashTable α}
    (hashOf : α → Nat) (hsize : mzHashSize size ≤ 2 ^ 31)
    (hcreate : mzHashTableCreate alloc (mzHashSize size) = .ok (some table)) :
    table.Sound hashOf ∧ (∀ data, ¬table.Holds data) ∧ table.numEntries = 0 ∧
      table.numDeadEntries = 0 ∧ size * loadDenom ≤ table.tableSize * loadNumer := by
  have hnonzero : 0 < mzHashSize size := Nat.succ_pos _
  obtain ⟨exponent, hpow, hle⟩ := roundUpPower2_spec hnonzero hsize
  have hpos : 0 < 2 ^ exponent := Nat.pow_pos (by decide)
  rw [mzHashTableCreate, if_neg hnonzero.ne'] at hcreate
  split at hcreate
  · cases hcreate
    have hnone : ∀ (idx hashValue : Nat) (data : α), (List.replicate (roundUpPower2 (mzHashSize size))
        (HashEntry.empty : HashEntry α))[idx]? ≠ some (.live hashValue data) := by
      intro idx hashValue data hlive
      have hmem := List.mem_of_getElem? hlive
      cases List.eq_of_mem_replicate hmem
    refine ⟨⟨⟨exponent, ?_⟩, fun idx hashValue data hlive => ?_, ?_, ?_⟩, ?_, rfl, rfl, ?_⟩
    · exact (List.length_replicate ..).trans hpow
    · exact absurd hlive (hnone idx hashValue data)
    · simp [HashEntry.isUsed]
    · rw [HashTable.tableSize, List.length_replicate, hpow]
      exact hpos
    · rintro data ⟨idx, hashValue, hlive⟩
      exact hnone idx hashValue data hlive
    · rw [HashTable.tableSize, List.length_replicate, hpow]
      simp only [mzHashSize, loadDenom, loadNumer] at hle ⊢
      omega
  · cases hcreate

end OpenRecovery.Minzip
