import OpenRecovery.BsDiffRoundTrip
import Mathlib

/-!
# Binary patches inside of a file

A binary patch may stand anywhere in a larger file, and the old data may be a part of
a larger buffer.  Decompression stops at the end of a stream, so that more may follow
the patch.
-/

namespace OpenRecovery

open Words

/-- The decoder sees the old data in a part of a larger buffer. -/
structure OldData.Shows (view : OldData) (old : Bytes) : Prop where
  size : view.size = old.length
  get : ∀ index : Nat, index < old.length → view.get index = .ok (old.getD index 0)

theorem OldData.shows_slice
    {bytes : Bytes} {start len : Nat} (hbytes : bytes.length < 2 ^ 31)
    (hfits : start + len ≤ bytes.length) :
    (OldData.mk bytes (wrap32 start) (wrap32 len)).Shows ((bytes.drop start).take len) := by
  have hstart : wrap32 (start : Int) = start := wrap32_of_range (by omega) (by omega)
  have hlen : wrap32 (len : Int) = len := wrap32_of_range (by omega) (by omega)
  have htaken : ((bytes.drop start).take len).length = len := by
    rw [List.length_take, List.length_drop]
    omega
  constructor
  · rw [htaken]
    exact hlen
  · intro index hindex
    rw [htaken] at hindex
    have haddress : wrap32 ((start : Int) + index) = ((start + index : Nat) : Int) := by
      rw [wrap32_of_range (by omega) (by omega), Nat.cast_add]
    simp only [OldData.get, hstart, haddress]
    rw [if_pos ⟨Int.natCast_nonneg _, by omega⟩, Int.toNat_natCast]
    simp [List.getD, hindex]

theorem OldData.shows_whole {bytes : Bytes} (hbytes : bytes.length < 2 ^ 31) :
    (OldData.mk bytes 0 (wrap32 bytes.length)).Shows bytes := by
  have hzero : wrap32 (0 : Int) = 0 := wrap32_of_range (by omega) (by omega)
  have hshows := @OldData.shows_slice bytes 0 bytes.length hbytes (by omega)
  rwa [List.drop_zero, List.take_length, Nat.cast_zero, hzero] at hshows

namespace BsDiff

variable {lib : Library} {view : OldData} {old new : Bytes}

theorem addOld_shows
    (hold : old.length < 2 ^ 31) (hshows : view.Shows old) (oldpos : Int) (diff : Bytes) :
    addOld view oldpos diff = addOld (.ofBytes old) oldpos diff := by
  have hsize : (OldData.ofBytes old).size = old.length := wrap32_of_range (by omega) (by omega)
  induction diff generalizing oldpos with
  | nil => simp [addOld]
  | cons byte diff ih =>
      by_cases hinside : 0 ≤ oldpos ∧ oldpos < old.length
      · obtain ⟨index, rfl⟩ := Int.eq_ofNat_of_zero_le hinside.1
        have hindex : index < old.length := by
          omega
        have hget : view.get index = (OldData.ofBytes old).get index :=
          (hshows.get index hindex).trans (ofBytes_get hold hindex).symm
        simp only [addOld, hshows.size, hsize, hget, ih]
      · simp only [addOld, hshows.size, hsize, if_neg hinside, ih]

theorem bspatchLoop_shows
    (hold : old.length < 2 ^ 31) (hshows : view.Shows old) (newSize fuel : Nat)
    (cstream dstream estream : BzStream) (new : Bytes) (oldpos : Int) :
    bspatchLoop lib view newSize fuel cstream dstream estream new oldpos =
      bspatchLoop lib (.ofBytes old) newSize fuel cstream dstream estream new oldpos := by
  induction fuel generalizing cstream dstream estream new oldpos with
  | zero => simp [bspatchLoop]
  | succ fuel ih => simp only [bspatchLoop, addOld_shows hold hshows, ih]

/-- Decompression stops at the end of its stream, whatever follows. -/
def Decompresses (lib : Library) (block data : Bytes) : Prop :=
  ∀ rest, lib.bunzip2 (block ++ rest) = (data, .streamEnd)

theorem Decompresses.whole
    {block data : Bytes} (hblock : Decompresses lib block data) :
    lib.bunzip2 block = (data, .streamEnd) := by
  have hrest := hblock []
  rwa [List.append_nil] at hrest

/-- Where the blocks of a patch lie that begins at `offset`. -/
theorem embedded_offsets
    {offset ctrlLen dbLen rest patchLen : Nat}
    (hlength : patchLen = offset + (32 + ctrlLen + dbLen + rest)) (hpatch : patchLen < 2 ^ 31) :
    wrap32 ((offset : Int) + 8) = offset + 8 ∧ wrap32 ((offset : Int) + 32) = offset + 32 ∧
      offtin (offtout ctrlLen) = ctrlLen ∧ offtin (offtout dbLen) = dbLen ∧
      wrap32 ((offset : Int) + 32 + ctrlLen) = offset + 32 + ctrlLen ∧
      wrap32 ((offset : Int) + 32 + ctrlLen + dbLen) = offset + 32 + ctrlLen + dbLen ∧
      ((patchLen : Int) - (offset + 32 + ctrlLen + dbLen)) % 2 ^ 32 = rest := by
  refine ⟨?_, ?_, ?_, ?_, ?_, ?_, ?_⟩
  · apply wrap32_of_range <;> omega
  · apply wrap32_of_range <;> omega
  · apply offtin_offtout <;> omega
  · apply offtin_offtout <;> omega
  · apply wrap32_of_range <;> omega
  · apply wrap32_of_range <;> omega
  · omega

/-- A binary patch is applied where it stands in a file. -/
theorem applyBSDiffPatchMem_embedded
    {ctrl : List (Int × Int × Int)} {db eb ctrlBlock dbBlock ebBlock before after patch : Bytes}
    {offset : Int} (hold : old.length < 2 ^ 31) (hnew : new.length < 2 ^ 31)
    (hshows : view.Shows old) (hmalloc : lib.malloc new.length = true)
    (hctrl : Decompresses lib ctrlBlock (ctrlBytes ctrl)) (hdb : Decompresses lib dbBlock db)
    (heb : Decompresses lib ebBlock eb) (hrebuilds : Rebuilds old new ctrl db eb 0 0)
    (hfile : patch = before ++ (patchFile ctrlBlock dbBlock ebBlock new.length ++ after))
    (hoffset : offset = before.length) (hpatch : patch.length < 2 ^ 31) :
    applyBSDiffPatchMem lib view patch offset = .ok (some new) := by
  rw [patchFile_eq] at hfile
  subst hoffset
  have hlength : patch.length =
      before.length + (32 + ctrlBlock.length + dbBlock.length + (ebBlock ++ after).length) := by
    simp only [hfile, List.length_append, bsdiffMagic_length, header_length]
    omega
  obtain ⟨height, hstart, hctrlLen, hdbLen, hdbStart, hebStart, hebLen⟩ :=
    embedded_offsets hlength hpatch
  have hnewsize : offtin (offtout (new.length : Int)) = new.length :=
    offtin_offtout (by omega) (by omega)
  have hmagic : slice patch before.length 8 = .ok bsdiffMagic := by
    rw [hfile, List.append_assoc]
    exact slice_middle rfl (by rw [bsdiffMagic_length]; rfl)
  have hheader : slice patch (before.length + 8) 24 =
      .ok (header ctrlBlock dbBlock new.length) := by
    have hsplit : patch = (before ++ bsdiffMagic) ++
        (header ctrlBlock dbBlock new.length ++ (ctrlBlock ++ (dbBlock ++ ebBlock) ++ after)) := by
      simp only [hfile, List.append_assoc]
    rw [hsplit]
    apply slice_middle
    · simp [bsdiffMagic_length]
    · simp [header_length]
  obtain ⟨hfirst, hsecond, hthird⟩ :=
    triple_fields ctrlBlock.length dbBlock.length (new.length : Int)
  have hcstream : Delivers lib (bzStream patch (before.length + 32) ctrlBlock.length)
      (ctrlBytes ctrl) := by
    refine @delivers_block lib patch
      (before ++ (bsdiffMagic ++ header ctrlBlock dbBlock new.length)) ctrlBlock
      (dbBlock ++ (ebBlock ++ after)) _ _ _ ?_ ?_ rfl hctrl.whole
    · simp only [hfile, List.append_assoc]
    · simp [bsdiffMagic_length, header_length]
  have hdstream : Delivers lib (bzStream patch (before.length + 32 + ctrlBlock.length)
      dbBlock.length) db := by
    refine @delivers_block lib patch
      (before ++ (bsdiffMagic ++ (header ctrlBlock dbBlock new.length ++ ctrlBlock))) dbBlock
      (ebBlock ++ after) _ _ _ ?_ ?_ rfl hdb.whole
    · simp only [hfile, List.append_assoc]
    · simp only [List.length_append, bsdiffMagic_length, header_length]
      push_cast
      ring
  have hestream : Delivers lib (bzStream patch
      (before.length + 32 + ctrlBlock.length + dbBlock.length) (ebBlock ++ after).length) eb := by
    refine @delivers_block lib patch
      (before ++ (bsdiffMagic ++ (header ctrlBlock dbBlock new.length ++ (ctrlBlock ++ dbBlock))))
      (ebBlock ++ after) [] _ _ _ ?_ ?_ rfl (heb after)
    · simp only [hfile, List.append_assoc, List.append_nil]
    · simp only [List.length_append, bsdiffMagic_length, header_length]
      push_cast
      ring
  have hfuel : ctrl.length <
      (bzStream patch (before.length + 32) ctrlBlock.length).total lib + 1 := by
    have hdelivered :=
      @BzStream.rest_length_le lib (bzStream patch (before.length + 32) ctrlBlock.length)
    rw [hcstream.2] at hdelivered
    have hcount := ctrl_length_le ctrl
    omega
  have hrun := bspatchLoop_rebuilds hold hnew hrebuilds hfuel hcstream hdstream hestream
  unfold applyBSDiffPatchMem
  rw [hmagic, ok_bind, if_neg (not_not.mpr rfl), height, hheader, ok_bind]
  dsimp only
  rw [header, hfirst, hsecond, hthird, hctrlLen, hdbLen, hnewsize, hstart, hdbStart, hebStart,
    hebLen, if_neg (lengths_nonneg _ _ _), Int.toNat_natCast, if_pos hmalloc,
    bspatchLoop_shows hold hshows]
  exact hrun

/-- What `bsdiff` wrote is applied where it stands in a file. -/
theorem bsdiff_embedded
    {bzip2 : Bytes → Bytes} {I : List Int} {pos : Int} {body before after patch : Bytes}
    {offset : Int} (hlossless : ∀ data, Decompresses lib (bzip2 data) data)
    (hindex : IndexOf I old) (hbody : bsdiff bzip2 I old new pos = .ok body)
    (hold : old.length < 2 ^ 31) (hnew : new.length < 2 ^ 31) (hshows : view.Shows old)
    (hmalloc : lib.malloc new.length = true) (hfile : patch = before ++ (body ++ after))
    (hoffset : offset = before.length) (hpatch : patch.length < 2 ^ 31) :
    applyBSDiffPatchMem lib view patch offset = .ok (some new) := by
  obtain ⟨last, hlast, hrebuilds⟩ := @computeDifferences_rebuilds I old new hindex pos
  rw [bsdiff, hlast, ok_bind] at hbody
  injection hbody with hbody
  subst hbody
  exact applyBSDiffPatchMem_embedded hold hnew hshows hmalloc (hlossless _) (hlossless _)
    (hlossless _) hrebuilds hfile hoffset hpatch

end BsDiff

end OpenRecovery
