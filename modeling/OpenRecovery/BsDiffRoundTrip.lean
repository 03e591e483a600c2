import OpenRecovery.BsDiffBounds
import OpenRecovery.PatchBounds
import Mathlib

/-!
# A binary patch rebuilds the new data

The blocks that `bsdiff` writes rebuild the new data from the end of the last block
on.  The decoder follows them, one control triple after the other.
-/

namespace OpenRecovery
namespace BsDiff

open Words

variable {I : List Int} {old new : Bytes}

/-! ## The bytes of a block -/

theorem drop_take_succ
    {buffer : Bytes} {start count : Nat} (hbound : start < buffer.length) :
    (buffer.drop start).take (count + 1) =
      buffer.getD start 0 :: (buffer.drop (start + 1)).take count := by
  rw [List.drop_eq_getElem_cons hbound, List.take_succ_cons, List.getElem_eq_getD 0]

/-- The differences of `count` bytes at two positions. -/
def differences (old new : Bytes) (newpos oldpos count : Nat) : Bytes :=
  List.zipWith (· - ·) ((new.drop newpos).take count) ((old.drop oldpos).take count)

theorem diffBytes_eq
    (count newpos oldpos : Nat) (hnew : newpos + count ≤ new.length)
    (hold : oldpos + count ≤ old.length) :
    diffBytes old new count newpos oldpos = .ok (differences old new newpos oldpos count) := by
  induction count generalizing newpos oldpos with
  | zero => rfl
  | succ count ih =>
      have hrest := ih (newpos + 1) (oldpos + 1) (by omega) (by omega)
      rw [Nat.cast_add, Nat.cast_add, Nat.cast_one] at hrest
      rw [diffBytes, byteAt_eq (Int.natCast_nonneg _) (by omega), ok_bind,
        byteAt_eq (Int.natCast_nonneg _) (by omega), ok_bind, hrest, ok_bind, differences,
        differences, drop_take_succ (by omega), drop_take_succ (by omega), List.zipWith_cons_cons,
        Int.toNat_natCast, Int.toNat_natCast]

theorem copyBytes_eq
    (count newpos : Nat) (hnew : newpos + count ≤ new.length) :
    copyBytes new count newpos = .ok ((new.drop newpos).take count) := by
  induction count generalizing newpos with
  | zero => rfl
  | succ count ih =>
      have hrest := ih (newpos + 1) (by omega)
      rw [Nat.cast_add, Nat.cast_one] at hrest
      rw [copyBytes, byteAt_eq (Int.natCast_nonneg _) (by omega), ok_bind, hrest, ok_bind,
        drop_take_succ (by omega), Int.toNat_natCast]

theorem differences_length
    {newpos oldpos count : Nat} (hnew : newpos + count ≤ new.length)
    (hold : oldpos + count ≤ old.length) :
    (differences old new newpos oldpos count).length = count := by
  rw [differences, List.length_zipWith, List.length_take, List.length_take, List.length_drop,
    List.length_drop]
  omega

/-- The control triples, the differences and the extra bytes rebuild the new data
from `newpos` on, when the old data is read from `oldpos` on. -/
inductive Rebuilds (old new : Bytes) : List (Int × Int × Int) → Bytes → Bytes → Nat → Nat → Prop
  | finished (oldpos : Nat) : Rebuilds old new [] [] [] new.length oldpos
  | block {ctrl : List (Int × Int × Int)} {db eb : Bytes} {newpos oldpos x y next : Nat}
      (hnew : newpos + x + y ≤ new.length) (hold : oldpos + x ≤ old.length)
      (hnext : next ≤ old.length) (hrest : Rebuilds old new ctrl db eb (newpos + x + y) next) :
      Rebuilds old new ((↑x, ↑y, ↑next - (↑oldpos + ↑x)) :: ctrl)
        (differences old new newpos oldpos x ++ db) ((new.drop (newpos + x)).take y ++ eb)
        newpos oldpos

/-! ## The encoder -/

/-- The state of the main loop before a round: `newpos` and `oldpos` are where the
blocks written so far end. -/
structure Ready (old new : Bytes) (newpos oldpos : Nat) (state : State) : Prop where
  lastscan : state.lastscan = newpos
  lastpos : state.lastpos = oldpos
  newpos_le : newpos ≤ state.scan
  oldpos_le : oldpos ≤ old.length
  scan_le : state.scan ≤ new.length
  finished : state.scan = new.length → newpos = new.length
  len_le : state.scan < new.length → state.scan + state.len ≤ new.length
  offset : 0 ≤ state.scan + state.lastoffset
  pos : state.scan < new.length → state.scan + state.len = new.length →
    0 ≤ state.pos ∧ state.pos ≤ old.length
  written : state.db.length + state.eb.length = newpos

/-- One block is written. -/
theorem emit_ok
    {newpos oldpos first : Nat} {state : State} {found : Scan}
    (hready : Ready old new newpos oldpos state) (hfound : Found old new first found)
    (hfirst : state.scan ≤ first) :
    ∃ (x y next : Nat) (state' : State), emit old new found state = .ok state' ∧
      Ready old new (newpos + x + y) next state' ∧ state'.scan = found.scan ∧
      state'.len = found.len ∧ newpos + x + y ≤ new.length ∧ oldpos + x ≤ old.length ∧
      state'.ctrl = state.ctrl ++ [((x : Int), (y : Int), (next : Int) - (oldpos + x))] ∧
      state'.db = state.db ++ differences old new newpos oldpos x ∧
      state'.eb = state.eb ++ (new.drop (newpos + x)).take y := by
  have hafter := hfound.after
  have hbound := hfound.bound
  have hnewpos := hready.newpos_le
  have holdpos := hready.oldpos_le
  have hwritten := hready.written
  obtain ⟨hpos, hpos'⟩ := hfound.pos
  obtain ⟨lenf, lenb, hextend, hlenf, hlenb, hlenb', hforward, hapart, hend⟩ :=
    @extend_ok old new found.scan found.pos newpos oldpos hbound hpos hpos'
      (Int.natCast_nonneg _) (by omega) (Int.natCast_nonneg _) (by omega)
  obtain ⟨x, rfl⟩ := Int.eq_ofNat_of_zero_le hlenf
  obtain ⟨back, rfl⟩ := Int.eq_ofNat_of_zero_le hlenb
  obtain ⟨y, hy⟩ : ∃ y : Nat, (found.scan : Int) - back - (newpos + x) = y :=
    ⟨found.scan - back - (newpos + x), by omega⟩
  obtain ⟨next, hnext⟩ : ∃ next : Nat, found.pos - back = next :=
    ⟨(found.pos - back).toNat, by omega⟩
  have hcopied : ((new.drop (newpos + x)).take y).length = y := by
    rw [List.length_take, List.length_drop]
    omega
  have hdiff := @differences_length old new newpos oldpos x (by omega) (by omega)
  have hcopy := @copyBytes_eq new y (newpos + x) (by omega)
  rw [Nat.cast_add] at hcopy
  refine ⟨x, y, next, ⟨found.scan, found.len, found.pos, found.scan - back, next,
    found.pos - found.scan, state.ctrl ++ [((x : Int), (y : Int), (next : Int) - (oldpos + x))],
    state.db ++ differences old new newpos oldpos x,
    state.eb ++ (new.drop (newpos + x)).take y⟩, ?_, ?_⟩
  · unfold emit
    rw [hready.lastscan, hready.lastpos, hextend, ok_bind]
    dsimp only
    rw [Int.toNat_natCast, diffBytes_eq x newpos oldpos (by omega) (by omega), ok_bind, hy,
      Int.toNat_natCast, hcopy, ok_bind, hnext, if_neg (by omega)]
  · refine ⟨?_, rfl, rfl, by omega, by omega, rfl, rfl, rfl⟩
    constructor
    · exact (by omega : (found.scan : Int) - back = ((newpos + x + y : Nat) : Int))
    · rfl
    · exact (by omega : newpos + x + y ≤ found.scan)
    · exact (by omega : next ≤ old.length)
    · exact hbound
    · intro hlast
      have hlast' : found.scan = new.length := hlast
      have hzero := hend hlast'
      omega
    · exact fun hmore => (hfound.advance hmore).2
    · exact (by omega : 0 ≤ (found.scan : Int) + (found.pos - found.scan))
    · exact fun _ _ => hfound.pos
    · dsimp only
      rw [List.length_append, List.length_append, hdiff, hcopied]
      omega

/-- What the main loop writes from any state on rebuilds the rest of the new data. -/
theorem bsdiffLoop_rebuilds
    (hindex : IndexOf I old) {fuel newpos oldpos : Nat} {state : State}
    (hready : Ready old new newpos oldpos state) (hpositive : 0 < fuel)
    (hfuel : state.scan < new.length → new.length + 1 < state.scan + state.len + fuel) :
    ∃ last ctrl db eb, bsdiffLoop I old new fuel state = .ok last ∧
      last.ctrl = state.ctrl ++ ctrl ∧ last.db = state.db ++ db ∧ last.eb = state.eb ++ eb ∧
      Rebuilds old new ctrl db eb newpos oldpos := by
  induction fuel generalizing newpos oldpos state with
  | zero => omega
  | succ fuel ih =>
      rw [bsdiffLoop]
      by_cases hmore : state.scan < new.length
      · rw [if_pos hmore]
        have hlen := hready.len_le hmore
        have hoffset := hready.offset
        obtain ⟨found, hscan, hfound⟩ := @scanLoop_ok I old new state.lastoffset
          (state.scan + state.len) (new.length - (state.scan + state.len))
          ⟨state.scan + state.len, state.scan + state.len, state.len, state.pos, 0⟩ hindex
          (by omega) (by dsimp only; omega) (le_refl _) (le_refl _) (sub_self _).symm
          (fun hleft => hready.pos hmore (by omega))
        have hafter := hfound.after
        dsimp only
        rw [hscan, ok_bind]
        by_cases hemit : (found.len : Int) ≠ found.oldscore ∨ found.scan = new.length
        · rw [if_pos hemit]
          obtain ⟨x, y, next, state', hrun, hready', hscan', hlen', hnew, hold, hctrl, hdb, heb⟩ :=
            emit_ok hready hfound (Nat.le_add_right _ _)
          have hadvance := hfound.advance
          obtain ⟨last, ctrl, db, eb, hloop, hctrl', hdb', heb', hrebuilds⟩ :=
            ih hready' (by omega) (by omega)
          rw [hrun, ok_bind]
          refine ⟨last, _, _, _, hloop, ?_, ?_, ?_,
            .block hnew hold hready'.oldpos_le hrebuilds⟩
          · rw [hctrl', hctrl, List.append_assoc, List.singleton_append]
          · rw [hdb', hdb, List.append_assoc]
          · rw [heb', heb, List.append_assoc]
        · rw [if_neg hemit]
          have hscan' : found.scan < new.length := by
            have hbound := hfound.bound
            omega
          obtain ⟨hpositive', hlen'⟩ := hfound.advance hscan'
          have hnewpos := hready.newpos_le
          have hready' : Ready old new newpos oldpos
              { state with scan := found.scan, len := found.len, pos := found.pos } := by
            constructor
            · exact hready.lastscan
            · exact hready.lastpos
            · exact (by omega : newpos ≤ found.scan)
            · exact hready.oldpos_le
            · exact hfound.bound
            · exact fun hlast => absurd hlast hscan'.ne
            · exact fun _ => hlen'
            · exact (by omega : 0 ≤ (found.scan : Int) + state.lastoffset)
            · exact fun _ _ => hfound.pos
            · exact hready.written
          exact ih hready' (by omega) (fun _ => by dsimp only; omega)
      · rw [if_neg hmore]
        have hlast : state.scan = new.length := by
          have hle := hready.scan_le
          omega
        obtain rfl := hready.finished hlast
        refine ⟨state, [], [], [], rfl, ?_, ?_, ?_, .finished oldpos⟩
        · rw [List.append_nil]
        · rw [List.append_nil]
        · rw [List.append_nil]

theorem computeDifferences_rebuilds
    (hindex : IndexOf I old) (pos : Int) :
    ∃ last, computeDifferences I old new pos = .ok last ∧
      Rebuilds old new last.ctrl last.db last.eb 0 0 := by
  have hready : Ready old new 0 0 ⟨0, 0, pos, 0, 0, 0, [], [], []⟩ := by
    constructor
    · rfl
    · rfl
    · exact Nat.zero_le _
    · exact Nat.zero_le _
    · exact Nat.zero_le _
    · exact id
    · exact Nat.le_of_lt
    · exact le_refl 0
    · exact fun hmore hnone => absurd hnone hmore.ne
    · rfl
  obtain ⟨last, ctrl, db, eb, hloop, hctrl, hdb, heb, hrebuilds⟩ :=
    bsdiffLoop_rebuilds hindex hready (Nat.succ_pos (new.length + 1))
      (fun _ => by dsimp only; omega)
  refine ⟨last, hloop, ?_⟩
  rw [hctrl, hdb, heb]
  exact hrebuilds

/-! ## The decoder -/

theorem offtout_length (x : Int) : (offtout x).length = 8 := by
  rw [offtout, List.length_append, leBytes_length, List.length_singleton]

/-- Numbers that fit an `off_t` survive. -/
theorem offtin_offtout {x : Int} (hlow : -2 ^ 31 < x) (hhigh : x < 2 ^ 31) :
    offtin (offtout x) = x := by
  have htake : (offtout x).take 7 = leBytes 7 x.natAbs := by
    rw [offtout, List.take_left' (leBytes_length 7 _)]
  have htop : (offtout x).getD 7 0 =
      UInt8.ofNat (x.natAbs / 2 ^ 56) ||| if x < 0 then 0x80 else 0 := by
    rw [offtout, List.getD_eq_getElem?_getD,
      List.getElem?_append_right (by rw [leBytes_length]), leBytes_length]
    rfl
  have hnat : leNat (leBytes 7 x.natAbs) = x.natAbs := leNat_leBytes_of_lt (by omega)
  have hdiv : x.natAbs / 2 ^ 56 = 0 := by omega
  unfold offtin
  dsimp only
  rw [htake, htop, hnat, hdiv]
  by_cases hneg : x < 0
  · have hsign : (UInt8.ofNat 0 ||| 0x80).toNat = 128 := by decide
    have hmagnitude : wrap32 (x.natAbs + 2 ^ 56 * (((128 : Nat) : Int) % 128)) = x.natAbs :=
      wrap32_of_range (by omega) (by omega)
    rw [if_pos hneg, hsign, if_pos (le_refl _), hmagnitude,
      wrap32_of_range (by omega) (by omega)]
    omega
  · have hsign : (UInt8.ofNat 0 ||| 0).toNat = 0 := by decide
    rw [if_neg hneg, hsign, if_neg (by omega), wrap32_of_range (by omega) (by omega)]
    omega

theorem ofBytes_get
    {index : Nat} (hold : old.length < 2 ^ 31) (hindex : index < old.length) :
    (OldData.ofBytes old).get index = .ok (old.getD index 0) := by
  have haddress : wrap32 ((OldData.ofBytes old).start + index) = index := by
    rw [OldData.ofBytes, wrap32_of_range (by dsimp only; omega) (by dsimp only; omega)]
    exact zero_add _
  unfold OldData.get
  rw [haddress]
  dsimp only
  rw [if_pos ⟨Int.natCast_nonneg _, by rw [OldData.ofBytes]; dsimp only; omega⟩, Int.toNat_natCast]
  rfl

/-- Adding the old data to the differences gives the new data. -/
theorem addOld_differences
    {newpos oldpos count : Nat} (hold : old.length < 2 ^ 31) (hnew : newpos + count ≤ new.length)
    (hbound : oldpos + count ≤ old.length) :
    addOld (.ofBytes old) oldpos (differences old new newpos oldpos count) =
      .ok ((new.drop newpos).take count) := by
  have hsize : (OldData.ofBytes old).size = old.length :=
    wrap32_of_range (by omega) (by omega)
  induction count generalizing newpos oldpos with
  | zero => rfl
  | succ count ih =>
      have hrest := @ih (newpos + 1) (oldpos + 1) (by omega) (by omega)
      rw [Nat.cast_add, Nat.cast_one] at hrest
      have hsplit : differences old new newpos oldpos (count + 1) =
          (new.getD newpos 0 - old.getD oldpos 0) ::
            differences old new (newpos + 1) (oldpos + 1) count := by
        rw [differences, drop_take_succ (by omega), drop_take_succ (by omega),
          List.zipWith_cons_cons]
        rfl
      rw [hsplit, drop_take_succ (by omega), addOld, hsize,
        if_pos ⟨Int.natCast_nonneg _, by omega⟩, ofBytes_get hold (by omega), ok_bind,
        wrap32_of_range (by omega) (by omega), hrest]
      dsimp only
      rw [ok_bind, UInt8.sub_add_cancel]

/-- A stream that will deliver these bytes. -/
def Delivers (lib : Library) (stream : BzStream) (bytes : Bytes) : Prop :=
  stream.Complete lib ∧ stream.rest lib = bytes

variable {lib : Library}

theorem Delivers.fill
    {stream : BzStream} {bytes rest : Bytes} {room : Nat} {size : Int}
    (hdelivers : Delivers lib stream (bytes ++ rest)) (hsize : size = bytes.length)
    (hhigh : size < 2 ^ 31) (hroom : size ≤ room) :
    fillBuffer lib room size stream = .ok (some bytes, stream.advance bytes.length) ∧
      Delivers lib (stream.advance bytes.length) rest := by
  obtain ⟨hcomplete, hrest⟩ := hdelivers
  subst hsize
  refine ⟨?_, hcomplete.advance _, ?_⟩
  · rw [fillBuffer_eq hcomplete (Int.natCast_nonneg _) hhigh hroom, hrest, Int.toNat_natCast,
      List.length_append, if_pos (Nat.le_add_right _ _), List.take_left]
  · rw [BzStream.rest_advance, hrest, List.drop_left]

theorem ctrlBytes_cons (x y z : Int) (ctrl : List (Int × Int × Int)) :
    ctrlBytes ((x, y, z) :: ctrl) = (offtout x ++ offtout y ++ offtout z) ++ ctrlBytes ctrl := by
  rw [ctrlBytes, List.flatMap_cons]
  rfl

/-- The three numbers of a control triple. -/
theorem triple_fields (x y z : Int) :
    (offtout x ++ offtout y ++ offtout z).take 8 = offtout x ∧
      ((offtout x ++ offtout y ++ offtout z).drop 8).take 8 = offtout y ∧
      ((offtout x ++ offtout y ++ offtout z).drop 16).take 8 = offtout z := by
  have hx := offtout_length x
  have hy := offtout_length y
  have hz := offtout_length z
  refine ⟨?_, ?_, ?_⟩
  · rw [List.append_assoc, List.take_left' hx]
  · rw [List.append_assoc, List.drop_left' hx, List.take_left' hy]
  · rw [List.drop_left' (by rw [List.length_append, hx, hy]), ← hz, List.take_length]

/-- None of the numbers of a block overflows. -/
theorem block_range
    {newpos oldpos x y next size oldsize : Nat} (hold : oldsize < 2 ^ 31) (hnew : size < 2 ^ 31)
    (hnewBound : newpos + x + y ≤ size) (holdBound : oldpos + x ≤ oldsize)
    (hnext : next ≤ oldsize) :
    offtin (offtout x) = x ∧ offtin (offtout y) = y ∧
      offtin (offtout (next - (oldpos + x))) = next - (oldpos + x) ∧
      wrap32 ((newpos : Int) + x) = newpos + x ∧
      wrap32 (((newpos + x : Nat) : Int) + y) = newpos + x + y ∧
      wrap32 ((oldpos : Int) + x) = oldpos + x ∧
      wrap32 ((oldpos : Int) + x + (next - (oldpos + x))) = next := by
  refine ⟨offtin_offtout (by omega) (by omega), offtin_offtout (by omega) (by omega),
    offtin_offtout (by omega) (by omega), wrap32_of_range (by omega) (by omega), ?_,
    wrap32_of_range (by omega) (by omega), ?_⟩
  · rw [wrap32_of_range (by omega) (by omega), Nat.cast_add]
  · rw [wrap32_of_range (by omega) (by omega)]
    omega

/-- The decoder follows the blocks. -/
theorem bspatchLoop_rebuilds
    {ctrl : List (Int × Int × Int)} {db eb : Bytes} {newpos oldpos : Nat}
    (hold : old.length < 2 ^ 31) (hnew : new.length < 2 ^ 31)
    (hrebuilds : Rebuilds old new ctrl db eb newpos oldpos) {fuel : Nat}
    {cstream dstream estream : BzStream} (hfuel : ctrl.length < fuel)
    (hcstream : Delivers lib cstream (ctrlBytes ctrl)) (hdstream : Delivers lib dstream db)
    (hestream : Delivers lib estream eb) :
    bspatchLoop lib (.ofBytes old) new.length fuel cstream dstream estream (new.take newpos)
      oldpos = .ok (some new) := by
  induction hrebuilds generalizing fuel cstream dstream estream with
  | finished oldpos =>
      cases fuel with
      | zero => exact absurd hfuel (Nat.not_lt_zero _)
      | succ fuel => rw [List.take_length, bspatchLoop, if_neg (Nat.lt_irrefl _)]
  | @block ctrl db eb newpos oldpos x y next hnewBound holdBound hnext hrest ih =>
      cases fuel with
      | zero => exact absurd hfuel (Nat.not_lt_zero _)
      | succ fuel =>
          rw [List.length_cons] at hfuel
          have hlength : (new.take newpos).length = newpos := List.length_take_of_le (by omega)
          have hdiff := @differences_length old new newpos oldpos x (by omega) holdBound
          have hextra : ((new.drop (newpos + x)).take y).length = y := by
            rw [List.length_take, List.length_drop]
            omega
          rw [bspatchLoop, hlength]
          by_cases hmore : newpos < new.length
          · obtain ⟨hx, hy, hz⟩ := triple_fields x y (next - (oldpos + x))
            rw [ctrlBytes_cons] at hcstream
            obtain ⟨hctrl, hcstream'⟩ := @Delivers.fill lib cstream _ _ 24 24 hcstream
              (by simp [offtout_length]) (by omega) (le_refl _)
            obtain ⟨hdb, hdstream'⟩ := @Delivers.fill lib dstream _ _ (new.length - newpos) x
              hdstream (by rw [hdiff]) (by omega) (by omega)
            obtain ⟨heb, hestream'⟩ := @Delivers.fill lib estream _ _
              (new.length - (newpos + x)) y hestream (by rw [hextra]) (by omega) (by omega)
            have hadded := @addOld_differences old new newpos oldpos x hold (by omega) holdBound
            have htaken : (new.take newpos ++ (new.drop newpos).take x) = new.take (newpos + x) :=
              List.take_add.symm
            have htaken' : (new.take (newpos + x) ++ (new.drop (newpos + x)).take y) =
                new.take (newpos + x + y) := List.take_add.symm
            have hlength' : (new.take (newpos + x)).length = newpos + x :=
              List.length_take_of_le (by omega)
            have hdiffFits : ¬ ((new.length : Int) < newpos + x) := by omega
            have hextraFits : ¬ ((new.length : Int) < newpos + x + y) := by omega
            obtain ⟨hxValue, hyValue, hzValue, hdiffEnd, hextraEnd, holdEnd, hseek⟩ :=
              block_range hold hnew hnewBound holdBound hnext
            rw [if_pos hmore, hctrl, ok_bind]
            dsimp only
            rw [hx, hy, hz, hxValue, hyValue, hzValue, hdiffEnd, if_neg hdiffFits, hdb, ok_bind]
            dsimp only
            rw [hadded, ok_bind, htaken, hlength', hextraEnd, if_neg hextraFits, heb, ok_bind]
            dsimp only
            rw [htaken', holdEnd, hseek]
            exact ih (Nat.lt_of_succ_lt_succ hfuel) hcstream' hdstream' hestream'
          · rw [if_neg hmore, List.take_of_length_le (by omega)]

/-! ## The patch file -/

theorem slice_middle
    {left middle right : Bytes} {offset len : Int} (hoffset : offset = left.length)
    (hlen : len = middle.length) : slice (left ++ (middle ++ right)) offset len = .ok middle := by
  have hfits : 0 ≤ offset ∧ 0 ≤ len ∧
      offset + len ≤ (left ++ (middle ++ right)).length := by
    rw [List.length_append, List.length_append]
    omega
  rw [slice, if_pos hfits, hoffset, hlen, Int.toNat_natCast, Int.toNat_natCast, List.drop_left,
    List.take_left]

/-- The header of a patch. -/
def header (ctrl db : Bytes) (newsize : Int) : Bytes :=
  offtout ctrl.length ++ offtout db.length ++ offtout newsize

theorem patchFile_eq (ctrl db eb : Bytes) (newsize : Int) :
    patchFile ctrl db eb newsize =
      bsdiffMagic ++ (header ctrl db newsize ++ (ctrl ++ (db ++ eb))) := by
  simp only [patchFile, header, List.append_assoc]

theorem bsdiffMagic_length : bsdiffMagic.length = 8 := by decide

theorem header_length (ctrl db : Bytes) (newsize : Int) : (header ctrl db newsize).length = 24 := by
  rw [header, List.length_append, List.length_append, offtout_length, offtout_length,
    offtout_length]

theorem delivers_block
    {patch left block right data : Bytes} {offset len : Int} (hpatch : patch = left ++ (block ++ right))
    (hoffset : offset = left.length) (hlen : len = block.length)
    (hdata : lib.bunzip2 block = (data, .streamEnd)) :
    Delivers lib (bzStream patch offset len) data := by
  have hinput : (bzStream patch offset len).input = some block := by
    rw [bzStream, hpatch, slice_middle hoffset hlen]
    rfl
  constructor
  · exact ⟨block, hinput, by rw [hdata]; exact BzEnd.noConfusion⟩
  · rw [BzStream.rest, hinput]
    dsimp only
    rw [hdata]
    exact List.drop_zero

theorem lengths_nonneg (ctrlLen dbLen newsize : Nat) :
    ¬ ((ctrlLen : Int) < 0 ∨ (dbLen : Int) < 0 ∨ (newsize : Int) < 0) := by
  omega

theorem ctrl_length_le (ctrl : List (Int × Int × Int)) : ctrl.length ≤ (ctrlBytes ctrl).length := by
  induction ctrl with
  | nil => exact Nat.le_refl _
  | cons triple ctrl ih =>
      obtain ⟨x, y, z⟩ := triple
      rw [ctrlBytes_cons, List.length_cons, List.length_append, List.length_append,
        List.length_append, offtout_length, offtout_length, offtout_length]
      omega

end BsDiff
end OpenRecovery
