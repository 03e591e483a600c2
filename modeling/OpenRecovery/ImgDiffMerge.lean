import OpenRecovery.ImgDiff
import Mathlib

/-!
# Merging neighbouring normal chunks

The array in which the chunks have been merged is described by the longest runs
of chunks that follow each other: each run has become one chunk.  The part of the
array that is still to be read is not touched by the slots that are filled.
-/

namespace OpenRecovery
namespace ImgDiff

variable {w : Nat}

/-! ## Runs of chunks -/

/-- The second of two normal chunks begins where the first one ends. -/
def adjoins (previous chunk : ImageChunk w) : Bool :=
  previous.type = chunkNormal ∧ chunk.follows previous

theorem adjoins_iff {previous chunk : ImageChunk w} :
    adjoins previous chunk = true ↔ previous.type = chunkNormal ∧ chunk.follows previous := by
  simp [adjoins]

/-- A chunk stands for a run. -/
inductive Merged : List (ImageChunk w) → ImageChunk w → Prop
  | single (chunk : ImageChunk w) : Merged [chunk] chunk
  | run (first last chunk : ImageChunk w) (middle : List (ImageChunk w))
      (htype : chunk.type = chunkNormal) (hstart : chunk.start = first.start)
      (hdata : chunk.data = first.data)
      (hlen : chunk.len = last.len + (last.start - first.start)) :
      Merged (first :: (middle ++ [last])) chunk

/-- What is left of the array to read. -/
def remaining (chunks : List (ImageChunk w)) (numChunks inStart : Nat) : List (ImageChunk w) :=
  (chunks.take numChunks).drop inStart

theorem slot_eq {chunks : List (ImageChunk w)} {i : Nat} (hi : i < chunks.length) :
    slot chunks i = chunks[i] :=
  (List.getElem_eq_getD default).symm

theorem remaining_eq_cons
    {chunks : List (ImageChunk w)} {numChunks i : Nat} (hi : i < numChunks)
    (hnum : numChunks ≤ chunks.length) :
    remaining chunks numChunks i = slot chunks i :: remaining chunks numChunks (i + 1) := by
  have hlength : i < (chunks.take numChunks).length := by
    rw [List.length_take]
    omega
  rw [remaining, List.drop_eq_getElem_cons hlength, slot_eq (by omega), List.getElem_take]
  rfl

theorem remaining_head?
    {chunks : List (ImageChunk w)} {numChunks i : Nat} (hnum : numChunks ≤ chunks.length)
    {chunk : ImageChunk w} (hchunk : chunk ∈ (remaining chunks numChunks i).head?) :
    i < numChunks ∧ chunk = slot chunks i := by
  by_cases hi : i < numChunks
  · rw [remaining_eq_cons hi hnum] at hchunk
    exact ⟨hi, (Option.some.inj hchunk).symm⟩
  · have hempty : remaining chunks numChunks i = [] := by
      apply List.drop_eq_nil_of_le
      rw [List.length_take]
      omega
    rw [hempty] at hchunk
    cases hchunk

/-- The chunks from `i` up to `inEnd` are the first run of what remains. -/
structure RunAt (chunks : List (ImageChunk w)) (numChunks i inEnd : Nat)
    (run : List (ImageChunk w)) : Prop where
  head : run.head? = some (slot chunks i)
  last : run.getLast? = some (slot chunks (inEnd - 1))
  length : i + run.length = inEnd
  bound : inEnd ≤ numChunks
  chain : run.IsChain fun previous chunk => adjoins previous chunk = true
  split : remaining chunks numChunks i = run ++ remaining chunks numChunks inEnd
  stops : inEnd < numChunks → adjoins (slot chunks (inEnd - 1)) (slot chunks inEnd) = false

theorem RunAt.singleton
    {chunks : List (ImageChunk w)} {numChunks i : Nat} (hi : i < numChunks)
    (hnum : numChunks ≤ chunks.length)
    (hstops : i + 1 < numChunks → adjoins (slot chunks i) (slot chunks (i + 1)) = false) :
    RunAt chunks numChunks i (i + 1) [slot chunks i] where
  head := rfl
  last := rfl
  length := rfl
  bound := hi
  chain := List.isChain_singleton _
  split := remaining_eq_cons hi hnum
  stops := hstops

theorem RunAt.cons
    {chunks : List (ImageChunk w)} {numChunks i inEnd : Nat} {run : List (ImageChunk w)}
    (hi : i < numChunks) (hnum : numChunks ≤ chunks.length)
    (hadjoins : adjoins (slot chunks i) (slot chunks (i + 1)) = true)
    (hrun : RunAt chunks numChunks (i + 1) inEnd run) :
    RunAt chunks numChunks i inEnd (slot chunks i :: run) where
  head := rfl
  last := by rw [List.getLast?_cons, hrun.last, Option.getD_some]
  length := by
    have hlength := hrun.length
    rw [List.length_cons]
    omega
  bound := hrun.bound
  chain := by
    refine hrun.chain.cons ?_
    intro chunk hchunk
    rw [hrun.head] at hchunk
    obtain rfl := Option.some.inj hchunk
    exact hadjoins
  split := by rw [remaining_eq_cons hi hnum, hrun.split, List.cons_append]
  stops := hrun.stops

theorem runEnd_runAt
    {chunks : List (ImageChunk w)} {numChunks : Nat} (hnum : numChunks ≤ chunks.length) (i : Nat)
    (hi : i < numChunks) (htype : (slot chunks i).type = chunkNormal) :
    ∃ run, RunAt chunks numChunks i (runEnd chunks numChunks (i + 1)) run := by
  induction hleft : numChunks - i generalizing i with
  | zero => omega
  | succ left ih =>
      rw [runEnd, Nat.add_sub_cancel]
      by_cases hnext : i + 1 < numChunks ∧ (slot chunks (i + 1)).follows (slot chunks i)
      · obtain ⟨run, hrun⟩ := ih (i + 1) hnext.1 hnext.2.1 (by omega)
        rw [if_pos hnext]
        exact ⟨_, hrun.cons hi hnum ((adjoins_iff).mpr ⟨htype, hnext.2⟩)⟩
      · rw [if_neg hnext]
        refine ⟨_, RunAt.singleton hi hnum ?_⟩
        intro hmore
        rw [Bool.eq_false_iff]
        intro hadjoins
        exact hnext ⟨hmore, ((adjoins_iff).mp hadjoins).2⟩

theorem nextStart_runAt
    {chunks : List (ImageChunk w)} {numChunks : Nat} (hnum : numChunks ≤ chunks.length) (i : Nat)
    (hi : i < numChunks) :
    ∃ run, RunAt chunks numChunks i (nextStart chunks numChunks i) run := by
  unfold nextStart
  by_cases htype : (slot chunks i).type = chunkNormal
  · rw [if_neg (not_not.mpr htype)]
    exact runEnd_runAt hnum i hi htype
  · rw [if_pos htype]
    refine ⟨_, RunAt.singleton hi hnum ?_⟩
    intro hmore
    rw [Bool.eq_false_iff]
    intro hadjoins
    exact htype ((adjoins_iff).mp hadjoins).1

theorem RunAt.splitBy
    {chunks : List (ImageChunk w)} {numChunks i inEnd : Nat} {run : List (ImageChunk w)}
    (hnum : numChunks ≤ chunks.length) (hrun : RunAt chunks numChunks i inEnd run) :
    (remaining chunks numChunks i).splitBy adjoins =
      run :: (remaining chunks numChunks inEnd).splitBy adjoins := by
  have hne : run ≠ [] := by
    intro hnil
    have hhead := hrun.head
    rw [hnil] at hhead
    cases hhead
  rw [hrun.split, List.splitBy_append ?_, List.splitBy_of_isChain hne hrun.chain,
    List.singleton_append]
  intro last hlast next hnext
  rw [hrun.last] at hlast
  obtain rfl := Option.some.inj hlast
  obtain ⟨hmore, rfl⟩ := remaining_head? hnum hnext
  exact hrun.stops hmore

/-! ## Filling the slots -/

theorem slot_set_self
    {chunks : List (ImageChunk w)} {out : Nat} (chunk : ImageChunk w)
    (hout : out < chunks.length) : slot (chunks.set out chunk) out = chunk := by
  rw [slot, List.getD_eq_getElem?_getD, List.getElem?_set_self hout, Option.getD_some]

theorem slot_set_ne
    (chunks : List (ImageChunk w)) {out i : Nat} (chunk : ImageChunk w) (hne : out ≠ i) :
    slot (chunks.set out chunk) i = slot chunks i := by
  rw [slot, slot, List.getD_eq_getElem?_getD, List.getD_eq_getElem?_getD,
    List.getElem?_set_ne hne]

theorem modify_eq_set_slot
    (chunks : List (ImageChunk w)) (out : Nat) (change : ImageChunk w → ImageChunk w) :
    chunks.modify out change = chunks.set out (change (slot chunks out)) := by
  rw [List.modify_eq_set, slot, List.getD_eq_getElem?_getD]

/-- Writing the fields one after the other changes nothing that is read later. -/
theorem collapseRun_eq
    {chunks : List (ImageChunk w)} {out inStart inEnd : Nat} (hout : out ≤ inStart)
    (hinEnd : inStart + 1 < inEnd) (hbound : inEnd ≤ chunks.length) :
    ∃ chunk, collapseRun chunks out inStart inEnd = chunks.set out chunk ∧
      chunk.type = chunkNormal ∧ chunk.start = (slot chunks inStart).start ∧
      chunk.data = (slot chunks inStart).data ∧
      chunk.len = (slot chunks (inEnd - 1)).len +
        ((slot chunks (inEnd - 1)).start - (slot chunks inStart).start) := by
  have hlength : out < chunks.length := by omega
  have hlast : out ≠ inEnd - 1 := by omega
  unfold collapseRun
  simp only [modify_eq_set_slot, hlength, slot_set_self, List.set_set,
    slot_set_ne _ _ hlast]
  refine ⟨_, rfl, rfl, ?_⟩
  by_cases hsame : out = inStart
  · subst hsame
    simp only [slot_set_self, hlength, and_self]
  · simp only [slot_set_ne _ _ hsame, and_self]

/-- One slot is filled by what stands for the run. -/
theorem fillSlot_eq
    {chunks : List (ImageChunk w)} {numChunks out inStart inEnd : Nat} {run : List (ImageChunk w)}
    (hout : out ≤ inStart) (hinStart : inStart < numChunks) (hnum : numChunks ≤ chunks.length)
    (hrun : RunAt chunks numChunks inStart inEnd run) :
    ∃ chunk, Merged run chunk ∧ fillSlot chunks out inStart inEnd = chunks.set out chunk := by
  have hbound := hrun.bound
  have hlength := hrun.length
  unfold fillSlot
  match run, hrun with
  | [], hrun => exact absurd hrun.head (by simp)
  | [first], hrun =>
      obtain rfl : first = slot chunks inStart := Option.some.inj hrun.head
      rw [if_pos (by simpa using hlength.symm)]
      refine ⟨_, .single _, ?_⟩
      split_ifs with hsame
      · rfl
      · obtain rfl : out = inStart := not_not.mp hsame
        rw [slot_eq (by omega), List.set_getElem_self]
  | first :: second :: rest, hrun =>
      simp only [List.length_cons] at hlength
      obtain rfl : first = slot chunks inStart := Option.some.inj hrun.head
      rw [if_neg (by omega)]
      obtain ⟨chunk, hset, htype, hstart, hdata, hlen⟩ :=
        @collapseRun_eq w chunks out inStart inEnd hout (by omega) (by omega)
      refine ⟨chunk, ?_, hset⟩
      have hlast := hrun.last
      rw [List.getLast?_cons_cons] at hlast
      obtain ⟨middle, hmiddle⟩ := List.getLast?_eq_some_iff.mp hlast
      rw [hmiddle]
      exact .run _ _ _ _ htype hstart hdata hlen

/-! ## The merged array -/

theorem take_succ_set
    {chunks : List (ImageChunk w)} {out : Nat} (chunk : ImageChunk w)
    (hout : out < chunks.length) :
    (chunks.set out chunk).take (out + 1) = chunks.take out ++ [chunk] := by
  rw [List.take_add_one, List.take_set_of_le (Nat.le_refl out), List.getElem?_set_self hout]
  rfl

theorem remaining_set
    (chunks : List (ImageChunk w)) {numChunks out inEnd : Nat} (chunk : ImageChunk w)
    (hout : out < inEnd) :
    remaining (chunks.set out chunk) numChunks inEnd = remaining chunks numChunks inEnd := by
  rw [remaining, List.take_set, List.drop_set_of_lt hout]
  rfl

/-- What the loop does from any point on: the slots that are filled stand for the
runs of what remained. -/
theorem mergeLoop_runs
    {numChunks : Nat} (chunks : List (ImageChunk w)) (out inStart : Nat) (hout : out ≤ inStart)
    (hinStart : inStart ≤ numChunks) (hnum : numChunks ≤ chunks.length) :
    (mergeLoop chunks numChunks out inStart).2 ≤ numChunks ∧
      (mergeLoop chunks numChunks out inStart).1.length = chunks.length ∧
      ∃ merged, (mergeLoop chunks numChunks out inStart).1.take
          (mergeLoop chunks numChunks out inStart).2 = chunks.take out ++ merged ∧
        List.Forall₂ Merged ((remaining chunks numChunks inStart).splitBy adjoins) merged := by
  induction hleft : numChunks - inStart using Nat.strong_induction_on
    generalizing chunks out inStart with
  | _ left ih =>
      rw [mergeLoop]
      by_cases hmore : inStart < numChunks
      · rw [if_pos hmore]
        have hnext := lt_nextStart chunks numChunks inStart
        obtain ⟨run, hrun⟩ := nextStart_runAt hnum inStart hmore
        obtain ⟨chunk, hchunk, hfill⟩ := fillSlot_eq hout hmore hnum hrun
        obtain ⟨hcount, hlength, merged, htake, hmerged⟩ :=
          ih (numChunks - nextStart chunks numChunks inStart) (by omega)
            (fillSlot chunks out inStart (nextStart chunks numChunks inStart)) (out + 1)
            (nextStart chunks numChunks inStart) (by omega) hrun.bound
            (by rw [hfill, List.length_set]; exact hnum) rfl
        refine ⟨hcount, ?_, chunk :: merged, ?_, ?_⟩
        · rw [hlength, hfill, List.length_set]
        · rw [htake, hfill, take_succ_set chunk (by omega), List.append_assoc,
            List.singleton_append]
        · rw [hfill, remaining_set chunks chunk (by omega)] at hmerged
          rw [hrun.splitBy hnum]
          exact .cons hchunk hmerged
      · have hdone : inStart = numChunks := by omega
        subst hdone
        rw [if_neg hmore]
        refine ⟨hout, rfl, [], (List.append_nil _).symm, ?_⟩
        have hempty : remaining chunks inStart inStart = [] :=
          List.drop_eq_nil_of_le (List.length_take_le _ _)
        rw [hempty]
        exact .nil

theorem mergeAdjacentNormalChunks_runs
    {chunks : List (ImageChunk w)} {numChunks : Nat} (hnum : numChunks ≤ chunks.length) :
    (mergeAdjacentNormalChunks chunks numChunks).2 ≤ numChunks ∧
      (mergeAdjacentNormalChunks chunks numChunks).1.length = chunks.length ∧
      List.Forall₂ Merged ((chunks.take numChunks).splitBy adjoins)
        ((mergeAdjacentNormalChunks chunks numChunks).1.take
          (mergeAdjacentNormalChunks chunks numChunks).2) := by
  obtain ⟨hcount, hlength, merged, htake, hmerged⟩ :=
    mergeLoop_runs chunks 0 0 (Nat.le_refl 0) (Nat.zero_le numChunks) hnum
  refine ⟨hcount, hlength, ?_⟩
  rw [mergeAdjacentNormalChunks, htake, List.take_zero, List.nil_append]
  exact hmerged

/-! ## What the chunks stand for -/

/-- Each byte with its place in the image. -/
def locate (start : BitVec w) : Bytes → List (BitVec w × UInt8)
  | [] => []
  | byte :: rest => (start, byte) :: locate (start + 1) rest

theorem locate_append (start : BitVec w) (left right : Bytes) :
    locate start (left ++ right) =
      locate start left ++ locate (start + BitVec.ofNat w left.length) right := by
  induction left generalizing start with
  | nil => simp [locate]
  | cons byte rest ih =>
      have hnext : start + 1 + BitVec.ofNat w rest.length =
          start + BitVec.ofNat w (byte :: rest).length := by
        rw [List.length_cons, BitVec.ofNat_add, BitVec.add_assoc,
          BitVec.add_comm 1 (BitVec.ofNat w rest.length)]
        rfl
      rw [List.cons_append, locate, ih, hnext, locate, List.cons_append]

/-- The data to be patched. -/
def ImageChunk.patched (memory : Memory w) (chunk : ImageChunk w) : List (BitVec w × UInt8) :=
  locate chunk.start (memory.read chunk.data chunk.len.toNat)

/-- The part of the image that a chunk covers. -/
def ImageChunk.covered (memory : Memory w) (chunk : ImageChunk w) : List (BitVec w × UInt8) :=
  if chunk.type = chunkNormal then chunk.patched memory
  else locate chunk.start (memory.read chunk.deflateData chunk.deflateLen.toNat)

/-- The data of a normal chunk lies in the block of the image. -/
def PointsInto (memory : Memory w) (image : Nat) (chunk : ImageChunk w) : Prop :=
  chunk.type = chunkNormal → chunk.data.block = image ∧
    chunk.data.offset + chunk.len.toNat ≤ (memory.blocks image).length

variable {memory : Memory w} {image : Nat}

theorem read_add (memory : Memory w) (pointer : Pointer) (left right : Nat) :
    memory.read pointer (left + right) =
      memory.read pointer left ++ memory.read (pointer.add left) right := by
  rw [Memory.read, Memory.read, Memory.read, List.take_add, List.drop_drop, Pointer.add]

theorem read_length
    {pointer : Pointer} {len : Nat}
    (hlen : pointer.offset + len ≤ (memory.blocks pointer.block).length) :
    (memory.read pointer len).length = len := by
  rw [Memory.read, List.length_take, List.length_drop]
  omega

/-- The number of bytes of a run. -/
def total (run : List (ImageChunk w)) : Nat :=
  (run.map fun chunk => chunk.len.toNat).sum

theorem total_cons (chunk : ImageChunk w) (run : List (ImageChunk w)) :
    total (chunk :: run) = chunk.len.toNat + total run := by
  rw [total, List.map_cons, List.sum_cons]
  rfl

theorem add_ofNat_total (start : BitVec w) (chunk : ImageChunk w) (run : List (ImageChunk w)) :
    start + BitVec.ofNat w (total (chunk :: run)) =
      start + chunk.len + BitVec.ofNat w (total run) := by
  rw [total_cons, BitVec.ofNat_add, BitVec.ofNat_toNat, BitVec.setWidth_eq, BitVec.add_assoc]

/-- Where the last chunk of a run ends. -/
theorem run_ends
    {first last : ImageChunk w} {rest : List (ImageChunk w)}
    (hchain : (first :: rest).IsChain fun previous chunk => adjoins previous chunk = true)
    (hlast : (first :: rest).getLast? = some last) :
    last.start + last.len = first.start + BitVec.ofNat w (total (first :: rest)) ∧
      last.data.add last.len.toNat = first.data.add (total (first :: rest)) := by
  induction rest generalizing first with
  | nil =>
      obtain rfl := Option.some.inj hlast
      rw [add_ofNat_total, total_cons]
      exact ⟨(BitVec.add_zero _).symm, rfl⟩
  | cons second rest ih =>
      obtain ⟨hadjoins, htail⟩ := List.isChain_cons_cons.mp hchain
      obtain ⟨-, -, hstart, hdata⟩ := adjoins_iff.mp hadjoins
      rw [List.getLast?_cons_cons] at hlast
      obtain ⟨hend, hpointer⟩ := ih htail hlast
      constructor
      · rw [hend, hstart, ← add_ofNat_total]
      · rw [hpointer, hdata, total_cons first, Pointer.add, Pointer.add, Pointer.add, Nat.add_assoc]

theorem normal_of_chain
    {first second : ImageChunk w} {rest : List (ImageChunk w)}
    (hchain : (first :: second :: rest).IsChain fun previous chunk => adjoins previous chunk = true) :
    ∀ chunk ∈ first :: second :: rest, chunk.type = chunkNormal := by
  induction rest generalizing first second with
  | nil =>
      obtain ⟨hadjoins, -⟩ := List.isChain_cons_cons.mp hchain
      obtain ⟨hfirst, hsecond, -⟩ := adjoins_iff.mp hadjoins
      simp [hfirst, hsecond]
  | cons third rest ih =>
      obtain ⟨hadjoins, htail⟩ := List.isChain_cons_cons.mp hchain
      intro chunk hchunk
      rcases List.mem_cons.mp hchunk with rfl | hrest
      · exact (adjoins_iff.mp hadjoins).1
      · exact ih htail chunk hrest

/-- The bytes of a run are the bytes from its first chunk on. -/
theorem run_patched
    {first : ImageChunk w} {rest : List (ImageChunk w)}
    (hchain : (first :: rest).IsChain fun previous chunk => adjoins previous chunk = true)
    (hpoints : ∀ chunk ∈ first :: rest, PointsInto memory image chunk) :
    (first :: rest).flatMap (ImageChunk.patched memory) =
      locate first.start (memory.read first.data (total (first :: rest))) := by
  induction rest generalizing first with
  | nil =>
      rw [List.flatMap_cons, List.flatMap_nil, List.append_nil, total_cons]
      rfl
  | cons second rest ih =>
      obtain ⟨hadjoins, htail⟩ := List.isChain_cons_cons.mp hchain
      obtain ⟨hnormal, -, hstart, hdata⟩ := adjoins_iff.mp hadjoins
      obtain ⟨hblock, hbound⟩ := hpoints first List.mem_cons_self hnormal
      rw [← hblock] at hbound
      rw [List.flatMap_cons, ih htail fun chunk hchunk => hpoints chunk (.tail _ hchunk), hstart,
        hdata, total_cons first, read_add, locate_append, read_length hbound, BitVec.ofNat_toNat,
        BitVec.setWidth_eq]
      rfl

/-- A run that lies in the image is not longer than `size_t` can count. -/
theorem total_lt
    {first last : ImageChunk w} {rest : List (ImageChunk w)}
    (hchain : (first :: rest).IsChain fun previous chunk => adjoins previous chunk = true)
    (hlast : (first :: rest).getLast? = some last) (hnormal : last.type = chunkNormal)
    (hpoints : PointsInto memory image last) : total (first :: rest) < 2 ^ w := by
  have hend := congrArg Pointer.offset (run_ends hchain hlast).2
  simp only [Pointer.add] at hend
  have hbound := (hpoints hnormal).2
  have hsmall := memory.small image
  omega

/-- What stands for a run has its start and its length. -/
theorem Merged.extent
    {run : List (ImageChunk w)} {chunk : ImageChunk w} (hmerged : Merged run chunk)
    (hchain : run.IsChain fun previous chunk => adjoins previous chunk = true)
    (hpoints : ∀ member ∈ run, PointsInto memory image member) :
    ∃ first rest, run = first :: rest ∧ chunk.type = first.type ∧ chunk.start = first.start ∧
      chunk.data = first.data ∧ chunk.len.toNat = total run := by
  cases hmerged with
  | single chunk => exact ⟨chunk, [], rfl, rfl, rfl, rfl, by rw [total_cons]; rfl⟩
  | run first last chunk middle htype hstart hdata hlen =>
      have hlast : (first :: (middle ++ [last])).getLast? = some last :=
        List.getLast?_eq_some_iff.mpr ⟨first :: middle, rfl⟩
      have hnormal : ∀ member ∈ first :: (middle ++ [last]), member.type = chunkNormal := by
        cases middle with
        | nil => exact normal_of_chain hchain
        | cons second middle => exact normal_of_chain hchain
      have hmem : last ∈ first :: (middle ++ [last]) := by simp
      refine ⟨first, middle ++ [last], rfl, ?_, hstart, hdata, ?_⟩
      · rw [htype, hnormal first List.mem_cons_self]
      · have hend := (run_ends hchain hlast).1
        have hsum : chunk.len = BitVec.ofNat w (total (first :: (middle ++ [last]))) := by
          rw [hlen]
          linear_combination hend
        rw [hsum, BitVec.toNat_ofNat, Nat.mod_eq_of_lt]
        exact total_lt hchain hlast (hnormal last hmem) (hpoints last hmem)

/-! ## What is kept -/

theorem Merged.type_eq
    {run : List (ImageChunk w)} {chunk : ImageChunk w} (hmerged : Merged run chunk)
    (hchain : run.IsChain fun previous chunk => adjoins previous chunk = true) :
    run = [chunk] ∨ (chunk.type = chunkNormal ∧ ∀ member ∈ run, member.type = chunkNormal) := by
  cases hmerged with
  | single chunk => exact .inl rfl
  | run first last chunk middle htype hstart hdata hlen =>
      refine .inr ⟨htype, ?_⟩
      cases middle with
      | nil => exact normal_of_chain hchain
      | cons second middle => exact normal_of_chain hchain

theorem Merged.flatMap_eq
    {contents : ImageChunk w → List (BitVec w × UInt8)}
    (hcontents : ∀ chunk, chunk.type = chunkNormal → contents chunk = chunk.patched memory)
    {run : List (ImageChunk w)} {chunk : ImageChunk w} (hmerged : Merged run chunk)
    (hchain : run.IsChain fun previous chunk => adjoins previous chunk = true)
    (hpoints : ∀ member ∈ run, PointsInto memory image member) :
    run.flatMap contents = contents chunk := by
  rcases hmerged.type_eq hchain with rfl | ⟨hnormal, hall⟩
  · rw [List.flatMap_singleton]
  · obtain ⟨first, rest, rfl, -, hstart, hdata, hlen⟩ := hmerged.extent hchain hpoints
    rw [List.flatMap_congr fun member hmember => hcontents member (hall member hmember),
      run_patched hchain hpoints, hcontents chunk hnormal, ImageChunk.patched, hstart, hdata, hlen]

theorem Merged.filter_eq
    {run : List (ImageChunk w)} {chunk : ImageChunk w} (hmerged : Merged run chunk)
    (hchain : run.IsChain fun previous chunk => adjoins previous chunk = true) :
    run.filter (fun chunk => chunk.type ≠ chunkNormal) =
      [chunk].filter fun chunk => chunk.type ≠ chunkNormal := by
  rcases hmerged.type_eq hchain with rfl | ⟨hnormal, hall⟩
  · rfl
  · rw [List.filter_eq_nil_iff.mpr, List.filter_eq_nil_iff.mpr]
    · simpa using hnormal
    · intro member hmember
      simpa using hall member hmember

theorem Merged.adjoins_left
    {run : List (ImageChunk w)} {first chunk : ImageChunk w} (hmerged : Merged run chunk)
    (hchain : run.IsChain fun previous chunk => adjoins previous chunk = true)
    (hfirst : run.head? = some first) (previous : ImageChunk w) :
    adjoins previous chunk = adjoins previous first := by
  cases hmerged with
  | single chunk =>
      obtain rfl := Option.some.inj hfirst
      rfl
  | run first' last chunk middle htype hstart hdata hlen =>
      obtain rfl := Option.some.inj hfirst
      have hnormal : first'.type = chunkNormal := by
        cases middle with
        | nil => exact normal_of_chain hchain first' List.mem_cons_self
        | cons second middle => exact normal_of_chain hchain first' List.mem_cons_self
      rw [Bool.eq_iff_iff, adjoins_iff, adjoins_iff, ImageChunk.follows, ImageChunk.follows, htype,
        hstart, hdata, hnormal]

theorem Merged.adjoins_right
    {run : List (ImageChunk w)} {last chunk : ImageChunk w} (hmerged : Merged run chunk)
    (hchain : run.IsChain fun previous chunk => adjoins previous chunk = true)
    (hpoints : ∀ member ∈ run, PointsInto memory image member)
    (hlast : run.getLast? = some last) (next : ImageChunk w) :
    adjoins chunk next = adjoins last next := by
  rcases hmerged.type_eq hchain with rfl | ⟨hnormal, hall⟩
  · obtain rfl := Option.some.inj hlast
    rfl
  · obtain ⟨first, rest, rfl, -, hstart, hdata, hlen⟩ := hmerged.extent hchain hpoints
    obtain ⟨hend, hpointer⟩ := run_ends hchain hlast
    have hlastNormal : last.type = chunkNormal := hall last (List.mem_of_getLast? hlast)
    have hchunkLen : chunk.len = BitVec.ofNat w (total (first :: rest)) := by
      rw [← hlen, BitVec.ofNat_toNat, BitVec.setWidth_eq]
    rw [Bool.eq_iff_iff, adjoins_iff, adjoins_iff, ImageChunk.follows, ImageChunk.follows, hnormal,
      hlastNormal, hend, hpointer, hlen, hstart, hdata, hchunkLen]

theorem forall₂_flatMap
    {contents : ImageChunk w → List (BitVec w × UInt8)} {runs : List (List (ImageChunk w))}
    {merged : List (ImageChunk w)}
    (hruns : List.Forall₂ (fun run chunk => run.flatMap contents = contents chunk) runs merged) :
    merged.flatMap contents = runs.flatten.flatMap contents := by
  induction hruns with
  | nil => rfl
  | cons hhead htail ih =>
      rw [List.flatMap_cons, List.flatten_cons, List.flatMap_append, hhead, ih]

theorem forall₂_filter
    {kept : ImageChunk w → Bool} {runs : List (List (ImageChunk w))} {merged : List (ImageChunk w)}
    (hruns : List.Forall₂ (fun run chunk => run.filter kept = [chunk].filter kept) runs merged) :
    merged.filter kept = runs.flatten.filter kept := by
  induction hruns with
  | nil => rfl
  | @cons run chunk runs merged hhead htail ih =>
      rw [List.flatten_cons, List.filter_append, hhead, ← ih, ← List.filter_append,
        List.singleton_append]

/-- Neighbours among the merged chunks are like the ends of their runs. -/
theorem isChain_of_forall₂
    {before : List (ImageChunk w) → ImageChunk w → Prop}
    {apart : List (ImageChunk w) → List (ImageChunk w) → Prop}
    {apart' : ImageChunk w → ImageChunk w → Prop}
    (hstep : ∀ run run' chunk chunk', before run chunk → before run' chunk' → apart run run' →
      apart' chunk chunk')
    {runs : List (List (ImageChunk w))} {merged : List (ImageChunk w)}
    (hruns : List.Forall₂ before runs merged) (hchain : runs.IsChain apart) :
    merged.IsChain apart' := by
  induction hruns with
  | nil => exact .nil
  | @cons run chunk runs merged hhead htail ih =>
      refine (ih hchain.tail).cons ?_
      intro chunk' hchunk'
      cases htail with
      | nil => cases hchunk'
      | cons hhead' htail' =>
          obtain rfl := Option.some.inj hchunk'
          exact hstep _ _ _ _ hhead hhead' (List.isChain_cons_cons.mp hchain).1

/-- A chunk stands for a run of chunks that follow each other. -/
def Stands (memory : Memory w) (image : Nat) (run : List (ImageChunk w)) (chunk : ImageChunk w) :
    Prop :=
  (run.IsChain (fun previous chunk => adjoins previous chunk = true) ∧
    ∀ member ∈ run, PointsInto memory image member) ∧ Merged run chunk

theorem mergeAdjacentNormalChunks_stands
    {chunks : List (ImageChunk w)} {numChunks : Nat} (hnum : numChunks ≤ chunks.length)
    (hpoints : ∀ chunk ∈ chunks.take numChunks, PointsInto memory image chunk) :
    List.Forall₂ (Stands memory image) ((chunks.take numChunks).splitBy adjoins)
      ((mergeAdjacentNormalChunks chunks numChunks).1.take
        (mergeAdjacentNormalChunks chunks numChunks).2) := by
  refine (List.forall₂_and_left _ _).mpr
    ⟨fun run hrun => ⟨List.isChain_of_mem_splitBy hrun, fun member hmember => hpoints member ?_⟩,
      (mergeAdjacentNormalChunks_runs hnum).2.2⟩
  rw [← List.flatten_splitBy adjoins (chunks.take numChunks)]
  exact List.mem_flatten_of_mem hrun hmember

/-- No chunk follows the one before it. -/
def Apart (chunks : List (ImageChunk w)) : Prop :=
  chunks.IsChain fun previous chunk => adjoins previous chunk = false

theorem merged_apart
    {chunks merged : List (ImageChunk w)}
    (hstands : List.Forall₂ (Stands memory image) (chunks.splitBy adjoins) merged) :
    Apart merged := by
  refine isChain_of_forall₂ ?_ hstands (List.isChain_getLast_head_splitBy adjoins chunks)
  rintro run run' chunk chunk' ⟨⟨hchain, hpoints⟩, hmerged⟩ ⟨⟨hchain', -⟩, hmerged'⟩ ⟨hne, hne', hends⟩
  rw [hmerged.adjoins_right hchain hpoints (List.getLast?_eq_some_getLast hne),
    hmerged'.adjoins_left hchain' (List.head?_eq_some_head hne')]
  exact hends

/-- Chunks none of which follows the one before it stay where they are. -/
theorem mergeLoop_apart
    {chunks : List (ImageChunk w)} {numChunks : Nat} (hnum : numChunks ≤ chunks.length)
    (hapart : Apart (chunks.take numChunks)) (i : Nat) (hi : i ≤ numChunks) :
    mergeLoop chunks numChunks i i = (chunks, numChunks) := by
  induction hleft : numChunks - i generalizing i with
  | zero =>
      rw [mergeLoop, if_neg (by omega), show i = numChunks by omega]
  | succ left ih =>
      have hmore : i < numChunks := by omega
      have hnext : nextStart chunks numChunks i = i + 1 := by
        unfold nextStart
        split_ifs with htype
        · rfl
        · rw [runEnd, Nat.add_sub_cancel, if_neg]
          rintro ⟨hbound, hfollows⟩
          have hneighbours := List.isChain_iff_getElem.mp hapart i (by
            rw [List.length_take]
            omega)
          rw [List.getElem_take, List.getElem_take, ← slot_eq, ← slot_eq] at hneighbours
          exact absurd (adjoins_iff.mpr ⟨not_not.mp htype, hfollows⟩) (by simp [hneighbours])
      have hfill : fillSlot chunks i i (i + 1) = chunks := by
        unfold fillSlot
        rw [if_pos rfl, if_neg (not_not.mpr rfl)]
      rw [mergeLoop, if_pos hmore, hnext]
      dsimp only
      rw [hfill]
      exact ih (i + 1) hmore (by omega)

/-- What merging keeps of an array of chunks. -/
structure Keeps (memory : Memory w) (chunks : List (ImageChunk w)) (numChunks : Nat)
    (merged : List (ImageChunk w)) (out : Nat) : Prop where
  count : out ≤ numChunks
  patched : (merged.take out).flatMap (ImageChunk.patched memory) =
    (chunks.take numChunks).flatMap (ImageChunk.patched memory)
  covered : (merged.take out).flatMap (ImageChunk.covered memory) =
    (chunks.take numChunks).flatMap (ImageChunk.covered memory)
  others : (merged.take out).filter (fun chunk => chunk.type ≠ chunkNormal) =
    (chunks.take numChunks).filter fun chunk => chunk.type ≠ chunkNormal
  apart : Apart (merged.take out)
  again : mergeAdjacentNormalChunks merged out = (merged, out)

/-- Neighbouring normal chunks are contiguous. -/
def Solid (chunks : List (ImageChunk w)) : Prop :=
  chunks.IsChain fun previous chunk =>
    previous.type = chunkNormal → chunk.type = chunkNormal → chunk.follows previous

/-- A sequence of types with each run of normal ones collapsed. -/
def collapse : List Int → List Int
  | first :: second :: rest =>
      if first = chunkNormal ∧ second = chunkNormal then collapse (second :: rest)
      else first :: collapse (second :: rest)
  | types => types

theorem collapse_cons
    {first : Int} {rest : List Int}
    (happart : ∀ second ∈ rest.head?, ¬ (first = chunkNormal ∧ second = chunkNormal)) :
    collapse (first :: rest) = first :: collapse rest := by
  cases rest with
  | nil => rfl
  | cons second rest => exact if_neg (happart second rfl)

theorem collapse_run
    {first last : ImageChunk w} {rest tail : List (ImageChunk w)}
    (hchain : (first :: rest).IsChain fun previous chunk => adjoins previous chunk = true)
    (hlast : (first :: rest).getLast? = some last)
    (htail : ∀ next ∈ tail.head?, ¬ (last.type = chunkNormal ∧ next.type = chunkNormal)) :
    collapse ((first :: rest ++ tail).map ImageChunk.type) =
      first.type :: collapse (tail.map ImageChunk.type) := by
  induction rest generalizing first with
  | nil =>
      obtain rfl := Option.some.inj hlast
      refine collapse_cons fun second hsecond => ?_
      rw [List.head?_map] at hsecond
      obtain ⟨next, hnext, rfl⟩ := Option.map_eq_some_iff.mp hsecond
      exact htail next hnext
  | cons second rest ih =>
      obtain ⟨hadjoins, hchain'⟩ := List.isChain_cons_cons.mp hchain
      obtain ⟨hfirst, hsecond, -⟩ := adjoins_iff.mp hadjoins
      rw [List.getLast?_cons_cons] at hlast
      have hrest := ih hchain' hlast
      rw [hsecond] at hrest
      rw [hfirst, ← hrest]
      exact if_pos ⟨hfirst, hsecond⟩

/-- The merged chunks have the collapsed types of the chunks, if neighbouring
normal chunks are contiguous. -/
theorem types_collapse
    {runs : List (List (ImageChunk w))} {merged : List (ImageChunk w)}
    (hstands : List.Forall₂ (fun run chunk => run.IsChain (fun previous chunk =>
      adjoins previous chunk = true) ∧ Merged run chunk) runs merged)
    (hapart : runs.IsChain fun run run' =>
      ∃ hne hne', adjoins (run.getLast hne) (run'.head hne') = false)
    (hsolid : Solid runs.flatten) :
    merged.map ImageChunk.type = collapse (runs.flatten.map ImageChunk.type) := by
  induction hstands with
  | nil => rfl
  | @cons run chunk runs merged hhead htail ih =>
      obtain ⟨hchain, hmerged⟩ := hhead
      rw [List.flatten_cons] at hsolid ⊢
      obtain ⟨-, hsolid', hboundary⟩ := List.isChain_append.mp hsolid
      rw [List.map_cons, ih hapart.tail hsolid']
      obtain ⟨first, hfirst, htype⟩ : ∃ first, run.head? = some first ∧ chunk.type = first.type := by
        rcases hmerged.type_eq hchain with rfl | ⟨hnormal, hall⟩
        · exact ⟨chunk, rfl, rfl⟩
        · cases hmerged with
          | single chunk => exact ⟨chunk, rfl, rfl⟩
          | run first last chunk middle =>
              exact ⟨first, rfl, hnormal.trans (hall first List.mem_cons_self).symm⟩
      match run, hfirst with
      | first :: rest, rfl =>
          have hlast := List.getLast?_eq_some_getLast (List.cons_ne_nil first rest)
          rw [htype, collapse_run hchain hlast]
          rintro next hnext ⟨hlastNormal, hnextNormal⟩
          have hfollows := hboundary _ hlast next hnext hlastNormal hnextNormal
          have hadjoins := adjoins_iff.mpr ⟨hlastNormal, hfollows⟩
          cases htail with
          | nil => cases hnext
          | @cons run' chunk' runs merged hhead' htail' =>
              obtain ⟨hne, hne', hends⟩ := (List.isChain_cons_cons.mp hapart).1
              rw [List.flatten_cons, List.head?_append, List.head?_eq_some_head hne'] at hnext
              obtain rfl := Option.some.inj hnext
              rw [hends] at hadjoins
              cases hadjoins

theorem merge_types
    {chunks : List (ImageChunk w)} {numChunks : Nat} (hnum : numChunks ≤ chunks.length)
    (hsolid : Solid (chunks.take numChunks)) :
    ((mergeAdjacentNormalChunks chunks numChunks).1.take
        (mergeAdjacentNormalChunks chunks numChunks).2).map ImageChunk.type =
      collapse ((chunks.take numChunks).map ImageChunk.type) := by
  have hflatten := List.flatten_splitBy adjoins (chunks.take numChunks)
  rw [← hflatten] at hsolid
  conv_rhs => rw [← hflatten]
  refine types_collapse ((List.forall₂_and_left _ _).mpr
    ⟨fun run hrun => List.isChain_of_mem_splitBy hrun, (mergeAdjacentNormalChunks_runs hnum).2.2⟩)
    (List.isChain_getLast_head_splitBy adjoins _) hsolid

theorem mergeAdjacentNormalChunks_keeps
    {chunks : List (ImageChunk w)} {numChunks : Nat} (hnum : numChunks ≤ chunks.length)
    (hpoints : ∀ chunk ∈ chunks.take numChunks, PointsInto memory image chunk) :
    Keeps memory chunks numChunks (mergeAdjacentNormalChunks chunks numChunks).1
      (mergeAdjacentNormalChunks chunks numChunks).2 := by
  have hstands := mergeAdjacentNormalChunks_stands hnum hpoints
  obtain ⟨hcount, hlength, -⟩ := mergeAdjacentNormalChunks_runs hnum
  have hcontents : ∀ contents : ImageChunk w → List (BitVec w × UInt8),
      (∀ chunk, chunk.type = chunkNormal → contents chunk = chunk.patched memory) →
      ((mergeAdjacentNormalChunks chunks numChunks).1.take
        (mergeAdjacentNormalChunks chunks numChunks).2).flatMap contents =
          (chunks.take numChunks).flatMap contents := by
    intro contents hnormal
    rw [forall₂_flatMap (hstands.imp fun run chunk hstands =>
      hstands.2.flatMap_eq hnormal hstands.1.1 hstands.1.2), List.flatten_splitBy]
  have hapart := merged_apart hstands
  constructor
  · exact hcount
  · exact hcontents _ fun chunk htype => rfl
  · exact hcontents _ fun chunk htype => if_pos htype
  · rw [forall₂_filter (hstands.imp fun run chunk hstands => hstands.2.filter_eq hstands.1.1),
      List.flatten_splitBy]
  · exact hapart
  · exact mergeLoop_apart (by omega) hapart 0 (Nat.zero_le _)

/-- Merging in place keeps the bytes and their places, all of the other chunks and
the parallel structure of two arrays, and leaves nothing to merge. -/
theorem mergeAdjacentNormalChunks_preserves
    (memory : Memory w) (image : Nat) (chunks : List (ImageChunk w)) (numChunks : Nat)
    (hnum : numChunks ≤ chunks.length)
    (hpoints : ∀ chunk ∈ chunks.take numChunks, PointsInto memory image chunk) :
    Keeps memory chunks numChunks (mergeAdjacentNormalChunks chunks numChunks).1
        (mergeAdjacentNormalChunks chunks numChunks).2 ∧
      ∀ (others : List (ImageChunk w)), numChunks ≤ others.length →
        (others.take numChunks).map ImageChunk.type =
          (chunks.take numChunks).map ImageChunk.type →
        Solid (chunks.take numChunks) → Solid (others.take numChunks) →
        (mergeAdjacentNormalChunks others numChunks).2 =
            (mergeAdjacentNormalChunks chunks numChunks).2 ∧
          ((mergeAdjacentNormalChunks others numChunks).1.take
              (mergeAdjacentNormalChunks others numChunks).2).map ImageChunk.type =
            ((mergeAdjacentNormalChunks chunks numChunks).1.take
              (mergeAdjacentNormalChunks chunks numChunks).2).map ImageChunk.type := by
  refine ⟨mergeAdjacentNormalChunks_keeps hnum hpoints, ?_⟩
  intro others hothers htypes hsolid hsolid'
  have hmerged : ((mergeAdjacentNormalChunks others numChunks).1.take
        (mergeAdjacentNormalChunks others numChunks).2).map ImageChunk.type =
      ((mergeAdjacentNormalChunks chunks numChunks).1.take
        (mergeAdjacentNormalChunks chunks numChunks).2).map ImageChunk.type := by
    rw [merge_types hothers hsolid', htypes, merge_types hnum hsolid]
  refine ⟨?_, hmerged⟩
  obtain ⟨hcount, hlength, -⟩ := mergeAdjacentNormalChunks_runs hnum
  obtain ⟨hcount', hlength', -⟩ := mergeAdjacentNormalChunks_runs hothers
  have hsame := congrArg List.length hmerged
  rw [List.length_map, List.length_map, List.length_take_of_le (by omega),
    List.length_take_of_le (by omega)] at hsame
  exact hsame

/-- An image of three bytes. -/
def sampleMemory : Memory 32 where
  blocks block := if block = 0 then [1, 2, 3] else []
  small block := by
    by_cases hblock : block = 0
    · rw [if_pos hblock]
      decide
    · rw [if_neg hblock]
      decide

/-- A chunk of the sample image. -/
def sampleChunk (type : Int) (start len : Nat) : ImageChunk 32 :=
  { (default : ImageChunk 32) with
    type := type, start := BitVec.ofNat 32 start, len := BitVec.ofNat 32 len, data := ⟨0, start⟩ }

def sampleChunks : List (ImageChunk 32) :=
  [sampleChunk chunkNormal 0 1, sampleChunk chunkNormal 1 1, sampleChunk chunkDeflate 2 1]

theorem mergeAdjacentNormalChunks_preserves_sample :
    Keeps sampleMemory sampleChunks 3 (mergeAdjacentNormalChunks sampleChunks 3).1
        (mergeAdjacentNormalChunks sampleChunks 3).2 ∧
      ∀ (others : List (ImageChunk 32)), 3 ≤ others.length →
        (others.take 3).map ImageChunk.type = (sampleChunks.take 3).map ImageChunk.type →
        Solid (sampleChunks.take 3) → Solid (others.take 3) →
        (mergeAdjacentNormalChunks others 3).2 = (mergeAdjacentNormalChunks sampleChunks 3).2 ∧
          ((mergeAdjacentNormalChunks others 3).1.take
              (mergeAdjacentNormalChunks others 3).2).map ImageChunk.type =
            ((mergeAdjacentNormalChunks sampleChunks 3).1.take
              (mergeAdjacentNormalChunks sampleChunks 3).2).map ImageChunk.type := by
  refine mergeAdjacentNormalChunks_preserves sampleMemory 0 sampleChunks 3 (by decide) ?_
  intro chunk hchunk htype
  simp only [sampleChunks, List.take_succ_cons, List.take_zero, List.mem_cons,
    List.not_mem_nil, or_false] at hchunk
  rcases hchunk with rfl | rfl | rfl
  · decide
  · decide
  · exact absurd htype (by decide)

end ImgDiff
end OpenRecovery
