import OpenRecovery.FlashImage
import Mathlib

/-!
# Restarting `flash_image` after a power cut

The first pass leaves zeros where the header belongs, and only the last write
of the second pass puts the header in place.  Hence every state that a power
cut leaves is one in which the header check fails, so that the next run starts
over, or one in which the whole image is in place.
-/

namespace OpenRecovery

open Effects Mtd

variable {partition : MtdPartition}

theorem accepted_eq_filter (flash : Flash partition) (pos : Nat) :
    flash.accepted pos =
      (flash.goodFrom pos).filter fun block => anyNonZero (flash.block block).val := by
  unfold Flash.accepted Flash.goodFrom
  rw [List.filter_filter]
  congr 1
  funext block
  rw [Flash.accepts, Bool.and_comm]

/-- The stream begins with the first good block unless that holds only zeros. -/
theorem streamFrom_first
    {flash : Flash partition} {first : Nat} {rest : List Nat}
    (hgood : flash.goodFrom 0 = first :: rest)
    (hnonzero : anyNonZero (flash.block first).val = true) :
    flash.streamFrom 0 = (flash.block first).val ++ flash.streamFrom (first + 1) := by
  have haccepted := accepted_eq_filter flash 0
  rw [hgood, List.filter_cons, if_pos hnonzero] at haccepted
  exact streamFrom_cons haccepted

/-- The first good block after an interrupted session. -/
theorem interrupted_first_block
    {start flash : Flash partition} {data : Block partition}
    {blocks : List (Block partition)} {first : Nat} {rest : List Nat}
    (hgood : start.goodFrom 0 = first :: rest)
    (hinterrupted : Interrupted start (data :: blocks) flash) :
    flash = start ∨ flash.bad = start.bad ∧
      (flash.block first = erasedBlock partition ∨ flash.block first = data) := by
  have hnotMem : first ∉ rest := by
    have hnodup := goodFrom_nodup start 0
    rw [hgood, List.nodup_cons] at hnodup
    exact hnodup.1
  obtain ⟨done, hbegins, hstate⟩ := hinterrupted
  rw [hgood] at hstate
  cases done with
  | nil =>
      rw [place_nil] at hstate
      rcases hstate with hsame | ⟨pos, after, hdrop, -, rfl⟩
      · exact .inl hsame
      · rw [List.length_nil, List.drop_zero, List.cons.injEq] at hdrop
        obtain ⟨rfl, rfl⟩ := hdrop
        refine .inr ⟨by simp, .inl ?_⟩
        rw [setBlock_block_self]
  | cons head done =>
      rw [List.cons_prefix_cons] at hbegins
      obtain ⟨rfl, -⟩ := hbegins
      have hhead : (start.place (first :: rest) (head :: done)).block first = head := by
        rw [Flash.place, place_block_of_notMem _ _ hnotMem, setBlock_block_self]
      rcases hstate with rfl | ⟨pos, after, hdrop, -, rfl⟩
      · exact .inr ⟨place_bad .., .inr hhead⟩
      · have hmem : pos ∈ rest := by
          rw [List.length_cons, List.drop_succ_cons] at hdrop
          exact List.mem_of_mem_drop (hdrop ▸ List.mem_cons_self)
        refine .inr ⟨by simp, .inr ?_⟩
        have hne : first ≠ pos := by
          rintro rfl
          exact hnotMem hmem
        rw [setBlock_block_ne _ _ hne, hhead]

/-- A session of one block that was cut has not begun, has erased the block, or
is complete. -/
theorem interrupted_singleton_cases
    {start flash : Flash partition} {data : Block partition} {first : Nat} {rest : List Nat}
    (hgood : start.goodFrom 0 = first :: rest)
    (hinterrupted : Interrupted start [data] flash) :
    flash = start ∨ flash = start.setBlock first (erasedBlock partition) ∨
      flash = start.setBlock first data := by
  obtain ⟨done, hbegins, hstate⟩ := hinterrupted
  rw [hgood] at hstate
  cases done with
  | nil =>
      rw [place_nil] at hstate
      rcases hstate with hsame | ⟨pos, after, hdrop, -, rfl⟩
      · exact .inl hsame
      · rw [List.length_nil, List.drop_zero, List.cons.injEq] at hdrop
        obtain ⟨rfl, rfl⟩ := hdrop
        exact .inr (.inl rfl)
  | cons head done =>
      rw [List.cons_prefix_cons, List.prefix_nil] at hbegins
      obtain ⟨rfl, rfl⟩ := hbegins
      rcases hstate with rfl | ⟨pos, after, -, hshort, rfl⟩
      · exact .inr (.inr (by simp [Flash.place]))
      · simp at hshort

/-- `blocks` are in place on the first good blocks. -/
def Complete (blocks : List (Block partition)) (flash : Flash partition) : Prop :=
  ((flash.goodFrom 0).take blocks.length).map flash.block = blocks

/-- The state is one from which `flash_image` can be run: the header check
fails, or nothing is left to do. -/
def Restartable (image : Bytes) (blocks : List (Block partition)) (bad : Nat → Bool)
    (flash : Flash partition) : Prop :=
  flash.bad = bad ∧
    ((flash.streamFrom 0).take headerSize ≠ image.take headerSize ∨ Complete blocks flash)

theorem complete_place
    {flash : Flash partition} {blocks : List (Block partition)}
    (hroom : blocks.length ≤ (flash.goodFrom 0).length) :
    Complete blocks (flash.place (flash.goodFrom 0) blocks) := by
  unfold Complete
  rw [goodFrom_congr (place_bad ..) 0]
  exact place_map_block flash (goodFrom_nodup ..) hroom

/-- Number of zeros that complete the last block of an image. -/
def padding (partition : MtdPartition) (length : Nat) : Nat :=
  (partition.eraseSize - length % partition.eraseSize) % partition.eraseSize

theorem padding_lt (partition : MtdPartition) (length : Nat) :
    padding partition length < partition.eraseSize :=
  Nat.mod_lt _ partition.eraseSize_pos

theorem dvd_add_padding (partition : MtdPartition) (length : Nat) :
    partition.eraseSize ∣ length + padding partition length := by
  have hlt := Nat.mod_lt length partition.eraseSize_pos
  apply Nat.dvd_of_mod_eq_zero
  unfold padding
  rw [Nat.add_mod, Nat.mod_mod, ← Nat.add_mod, ← Nat.mod_add_mod, Nat.add_sub_cancel' hlt.le,
    Nat.mod_self]

theorem exists_padded (partition : MtdPartition) (data : Bytes) :
    ∃ blocks : List (Block partition),
      blockBytes blocks =
        data ++ List.replicate (padding partition data.length) 0 := by
  apply exists_blockBytes
  rw [List.length_append, List.length_replicate]
  exact dvd_add_padding partition data.length

/-- An image that can be told apart from an erased block and from a block whose
header is still missing. -/
structure Recognisable (partition : MtdPartition) (image : Bytes) : Prop where
  long : partition.eraseSize ≤ image.length
  not_zeros : image.take headerSize ≠ List.replicate headerSize 0
  not_ones : image.take headerSize ≠ List.replicate headerSize 0xFF
  body : ∃ byte ∈ (image.take partition.eraseSize).drop headerSize, byte ≠ 0

namespace Recognisable

variable {image : Bytes}

theorem headerSize_lt (himage : Recognisable partition image) :
    headerSize < partition.eraseSize := by
  obtain ⟨byte, hmem, -⟩ := himage.body
  have hpos := List.length_pos_of_mem hmem
  rw [List.length_drop, List.length_take] at hpos
  omega

theorem header_length (himage : Recognisable partition image) :
    (image.take headerSize).length = headerSize := by
  have := himage.headerSize_lt
  have := himage.long
  rw [List.length_take]
  omega

/-- The first block of the image. -/
def firstBlock (himage : Recognisable partition image) : Block partition :=
  ⟨image.take partition.eraseSize, List.length_take_of_le himage.long⟩

/-- The first block with a header of zeros. -/
def zeroedBlock (himage : Recognisable partition image) : Block partition :=
  ⟨List.replicate headerSize 0 ++ (image.take partition.eraseSize).drop headerSize, by
    have := himage.headerSize_lt
    have := himage.long
    rw [List.length_append, List.length_replicate, List.length_drop, List.length_take]
    omega⟩

/-- The reader accepts the first block in each of its three states, and only in
the last one it shows the header. -/
theorem header_of_first
    {flash : Flash partition} {data : Block partition} {first : Nat} {rest : List Nat}
    (himage : Recognisable partition image)
    (hgood : flash.goodFrom 0 = first :: rest) (hdata : flash.block first = data)
    (hnonzero : anyNonZero data.val = true) :
    headerSize ≤ (flash.streamFrom 0).length ∧
      (flash.streamFrom 0).take headerSize = data.val.take headerSize := by
  have hsize := himage.headerSize_lt
  have hlength := data.property
  rw [streamFrom_first hgood (hdata ▸ hnonzero), hdata]
  refine ⟨?_, List.take_append_of_le_length (by omega)⟩
  rw [List.length_append]
  omega

theorem differs_of_erased
    {flash : Flash partition} {first : Nat} {rest : List Nat}
    (himage : Recognisable partition image) (hgood : flash.goodFrom 0 = first :: rest)
    (herased : flash.block first = erasedBlock partition) :
    (flash.streamFrom 0).take headerSize ≠ image.take headerSize := by
  have hnonzero : anyNonZero (erasedBlock partition).val = true :=
    anyNonZero_replicate (by decide)
  rw [(himage.header_of_first hgood herased hnonzero).2, erasedBlock, List.take_replicate,
    min_eq_left himage.headerSize_lt.le]
  exact himage.not_ones.symm

theorem differs_of_zeroed
    {flash : Flash partition} {first : Nat} {rest : List Nat}
    (himage : Recognisable partition image) (hgood : flash.goodFrom 0 = first :: rest)
    (hzeroed : flash.block first = himage.zeroedBlock) :
    (flash.streamFrom 0).take headerSize ≠ image.take headerSize := by
  obtain ⟨byte, hmem, hbyte⟩ := himage.body
  have hnonzero : anyNonZero himage.zeroedBlock.val = true :=
    anyNonZero_of_mem (List.mem_append_right _ hmem) hbyte
  rw [(himage.header_of_first hgood hzeroed hnonzero).2, zeroedBlock,
    List.take_left' List.length_replicate]
  exact himage.not_zeros.symm

/-- The blocks that the two passes write differ in the first one. -/
theorem exists_blocks (himage : Recognisable partition image) :
    ∃ rest : List (Block partition),
      blockBytes (himage.firstBlock :: rest) =
          image ++ List.replicate (padding partition image.length) 0 ∧
        blockBytes (himage.zeroedBlock :: rest) = List.replicate headerSize 0 ++
          image.drop headerSize ++ List.replicate (padding partition image.length) 0 := by
  have hsize := himage.headerSize_lt
  have hlong := himage.long
  obtain ⟨blocks, hblocks⟩ := exists_padded partition image
  cases blocks with
  | nil =>
      have hlength := congrArg List.length hblocks
      have hpos := partition.eraseSize_pos
      rw [blockBytes_nil, List.length_nil, List.length_append] at hlength
      omega
  | cons head rest =>
      rw [blockBytes_cons] at hblocks
      have hhead := congrArg (List.take partition.eraseSize) hblocks
      have hrest := congrArg (List.drop partition.eraseSize) hblocks
      rw [List.take_left' head.property, List.take_append_of_le_length hlong] at hhead
      rw [List.drop_left' head.property, List.drop_append_of_le_length hlong] at hrest
      refine ⟨rest, ?_, ?_⟩
      · have hfirst : himage.firstBlock = head := Subtype.ext hhead.symm
        rw [blockBytes_cons, hfirst, hblocks]
      · have hbody : image.drop headerSize =
            (image.take partition.eraseSize).drop headerSize ++
              image.drop partition.eraseSize := by
          conv_lhs => rw [← List.take_append_drop partition.eraseSize image]
          rw [List.drop_append_of_le_length (by rw [List.length_take]; omega)]
        rw [blockBytes_cons, zeroedBlock, hrest, hbody]
        simp only [List.append_assoc]

end Recognisable

section Runs

variable {env : Env} {name image : CString} {world : World} {file : File} {fuel : Nat}
variable {bad : Nat → Bool} {flash : Flash partition} {rest : List (Block partition)}

/-- A power cut in the first pass leaves a state in which the header check
fails. -/
theorem restartable_of_first_pass
    {after : Flash partition}
    (himage : Recognisable partition file.data)
    (hroom : rest.length < (flash.goodFrom 0).length)
    (hrestartable : Restartable file.data (himage.firstBlock :: rest) bad flash)
    (hinterrupted : Interrupted flash (himage.zeroedBlock :: rest) after) :
    Restartable file.data (himage.firstBlock :: rest) bad after := by
  cases hgood : flash.goodFrom 0 with
  | nil => simp [hgood] at hroom
  | cons first others =>
      rcases interrupted_first_block hgood hinterrupted with rfl | ⟨hbad, hfirst⟩
      · exact hrestartable
      · have hgood' : after.goodFrom 0 = first :: others := (goodFrom_congr hbad 0).trans hgood
        refine ⟨hbad.trans hrestartable.1, .inl ?_⟩
        rcases hfirst with herased | hzeroed
        · exact himage.differs_of_erased hgood' herased
        · exact himage.differs_of_zeroed hgood' hzeroed

/-- A power cut in the second pass leaves such a state too, or the complete
image. -/
theorem restartable_of_second_pass
    {after : Flash partition}
    (himage : Recognisable partition file.data)
    (hroom : rest.length < (flash.goodFrom 0).length)
    (hbad : flash.bad = bad)
    (hinterrupted : Interrupted
      (flash.place (flash.goodFrom 0) (himage.zeroedBlock :: rest))
      [himage.firstBlock] after) :
    Restartable file.data (himage.firstBlock :: rest) bad after := by
  have hplaceBad := place_bad (flash.goodFrom 0) (himage.zeroedBlock :: rest) flash
  have hcomplete := @complete_place _ flash (himage.zeroedBlock :: rest) hroom
  cases hgood : flash.goodFrom 0 with
  | nil => simp [hgood] at hroom
  | cons first others =>
      have hgoodPlaced := (goodFrom_congr hplaceBad 0).trans hgood
      have hfirst := hcomplete
      rw [Complete, hgoodPlaced, List.length_cons, List.take_succ_cons, List.map_cons,
        List.cons.injEq] at hfirst
      rcases interrupted_singleton_cases hgoodPlaced hinterrupted with rfl | rfl | rfl
      · exact ⟨hplaceBad.trans hbad, .inl (himage.differs_of_zeroed hgoodPlaced hfirst.1)⟩
      · refine ⟨hplaceBad.trans hbad, .inl ?_⟩
        exact himage.differs_of_erased ((goodFrom_congr (setBlock_bad ..) 0).trans hgoodPlaced)
          (setBlock_block_self ..)
      · refine ⟨hplaceBad.trans hbad, .inr ?_⟩
        have hnodup := goodFrom_nodup flash 0
        have hplace := @place_place _ _ (himage.zeroedBlock :: rest) [himage.firstBlock] flash
            hnodup (by simp)
        rw [List.length_singleton, List.drop_one, List.tail_cons, List.singleton_append] at hplace
        have hset : ∀ start : Flash partition,
            start.place (flash.goodFrom 0) [himage.firstBlock] =
              start.setBlock first himage.firstBlock := by
          intro start
          simp [hgood, Flash.place]
        rw [← hset, hplace]
        exact complete_place hroom

/-- One run of `flash_image` from such a state, complete or cut. -/
theorem flashImage_safe_of_restartable
    (hfile : world.files image = some file) (hfuel : file.data.length < fuel)
    (himage : Recognisable partition file.data)
    (hblocks : blockBytes (himage.firstBlock :: rest) =
      file.data ++ List.replicate (padding partition file.data.length) 0)
    (hzeroed : blockBytes (himage.zeroedBlock :: rest) = List.replicate headerSize 0 ++
      file.data.drop headerSize ++ List.replicate (padding partition file.data.length) 0)
    (hroom : rest.length < (flash.goodFrom 0).length)
    (hrestartable : Restartable file.data (himage.firstBlock :: rest) bad flash) :
    (flashImage name image fuel).Safe (Machine.atomic (World.handle env))
      (fun result after => result = some 0 ∧ ∃ flash' : Flash partition,
        after = world.setFlash name flash' ∧ flash'.bad = bad ∧
          Complete (himage.firstBlock :: rest) flash')
      (fun after => ∃ flash' : Flash partition, after = world.setFlash name flash' ∧
        Restartable file.data (himage.firstBlock :: rest) bad flash')
      (world.setFlash name flash) := by
  have hsize := himage.headerSize_lt
  have hlong := himage.long
  have hnonempty : file.data ≠ [] := by
    rw [← List.length_pos_iff]
    omega
  have hheader := himage.header_length
  apply flashImage_safe_of_check hfile hnonempty ⟨flash, rfl, hrestartable⟩
  · intro _ hsame
    refine ⟨rfl, flash, rfl, hrestartable.1, ?_⟩
    exact hrestartable.2.resolve_left (fun hdiffers => hdiffers hsame)
  · intro _
    refine @writeImage_safe _ _ _ _ _ _ _ _ _ (himage.zeroedBlock :: rest) _ _ _ 1 _ hfile hfuel
        (List.take_prefix _ _) ?_ ?_ ?_ (padding_lt partition file.data.length) ?_ hblocks hroom
        ?_ ?_ ?_
    · rw [hheader]
      omega
    · rw [hheader, Nat.one_mul, headerSize]
      omega
    · omega
    · rw [hheader]
      exact hzeroed
    · intro after hinterrupted
      exact ⟨after, rfl, restartable_of_first_pass himage hroom hrestartable hinterrupted⟩
    · intro after hinterrupted
      exact ⟨after, rfl,
        restartable_of_second_pass himage hroom hrestartable.1 hinterrupted⟩
    · exact ⟨rfl, _, rfl, (place_bad ..).trans hrestartable.1, complete_place hroom⟩

/-- However often `flash_image` is stopped between two operations, the next
complete run exits with status zero and leaves the zero-padded image on the
good blocks. -/
theorem flashImage_restartable
    {old : Flash partition} {world' : World}
    (hold : world.partitions name = some ⟨partition, old⟩)
    (hfile : world.files image = some file) (hfuel : file.data.length < fuel)
    (hfits : file.data.length ≤ (old.goodFrom 0).length * partition.eraseSize)
    (himage : Recognisable partition file.data)
    (hdiffers : ((mtdReadData partition (mtdReadPartition partition) headerSize).run
      Flash.handle old).1.1 ≠ some (file.data.take headerSize))
    (hrestarts : (flashImage name image fuel).Restarts
      (Machine.atomic (World.handle env)) world world') :
    ∃ (final : Flash partition) (count : Nat),
      (flashImage name image fuel).run (World.handle env) world' =
          (some 0, world.setFlash name final) ∧
        final.bad = old.bad ∧
        (((old.goodFrom 0).take count).map fun pos => (final.block pos).val).flatten =
          file.data ++ List.replicate (padding partition file.data.length) 0 := by
  obtain ⟨rest, hblocks, hzeroed⟩ := himage.exists_blocks
  have hroom : rest.length < (old.goodFrom 0).length := by
    have hlength := congrArg List.length hblocks
    have hpad := padding_lt partition file.data.length
    rw [blockBytes_length, List.length_append, List.length_replicate, List.length_cons] at hlength
    by_contra hle
    have hmul := Nat.mul_le_mul_right partition.eraseSize (Nat.le_of_not_lt hle)
    rw [Nat.succ_mul] at hlength
    omega
  have hstart : Restartable file.data (himage.firstBlock :: rest) old.bad old := by
    refine ⟨rfl, .inl ?_⟩
    intro hsame
    obtain ⟨ctx, hrun, -⟩ := @mtdReadData_run _ old _ headerSize
        (mtdReadPartition_valid partition) (by decide)
    have hlength := congrArg List.length hsame
    rw [himage.header_length, List.length_take] at hlength
    rw [hrun, mtdReadPartition_remaining, if_pos (by omega), hsame] at hdiffers
    exact hdiffers rfl
  obtain ⟨middle, rfl, hmiddle⟩ := @Prog.Restarts.invariant _ _ _ _ _ _
      (fun after => ∃ flash : Flash partition, after = world.setFlash name flash ∧
      Restartable file.data (himage.firstBlock :: rest) old.bad flash) _ _ (by
      rintro _ ⟨flash, rfl, hflash⟩
      have hgood := goodFrom_congr hflash.1 0
      exact (flashImage_safe_of_restartable hfile hfuel himage hblocks hzeroed
        (by rwa [hgood]) hflash).mono (fun _ _ _ => trivial) (fun _ h => h))
      ⟨old, (World.setFlash_eq_self hold).symm, hstart⟩ hrestarts
  have hgood := goodFrom_congr hmiddle.1 0
  have hpost := (@flashImage_safe_of_restartable _ env name _ world _ _ _ _ _ hfile hfuel himage
      hblocks hzeroed (by rwa [hgood]) hmiddle).run_post
  obtain ⟨hresult, final, hworld, hbad, hcomplete⟩ := hpost
  refine ⟨final, (himage.firstBlock :: rest).length, Prod.ext hresult hworld, hbad, ?_⟩
  rw [Complete, goodFrom_congr hbad 0] at hcomplete
  rw [← hblocks, blockBytes]
  conv_rhs => rw [← hcomplete]
  rw [List.map_map]
  rfl

end Runs

def sampleImage : File where
  data := List.replicate 0x20000 1
  mode := 0o644
  uid := 0
  gid := 0

def sampleWorld : World where
  files path := if path = "boot.img".toList then some sampleImage else none
  partitions name := if name = "boot".toList then some ⟨samplePartition, sampleFlash⟩ else none
  stdout := []

theorem sampleImage_length : sampleImage.data.length = 0x20000 := List.length_replicate

theorem sampleImage_recognisable : Recognisable samplePartition sampleImage.data where
  long := sampleImage_length.ge
  not_zeros := by
    simp only [sampleImage, headerSize, List.take_replicate]
    exact fun heq => absurd (List.replicate_right_injective (by decide) heq) (by decide)
  not_ones := by
    simp only [sampleImage, headerSize, List.take_replicate]
    exact fun heq => absurd (List.replicate_right_injective (by decide) heq) (by decide)
  body := by
    refine ⟨1, ?_, by decide⟩
    simp only [sampleImage, samplePartition, List.take_replicate, List.drop_replicate]
    exact List.mem_replicate.mpr ⟨by decide, rfl⟩

/-- The hypotheses are met by an erased partition and a run that was stopped
once. -/
theorem flashImage_restartable_sample :
    ∃ (final : Flash samplePartition) (count : Nat),
      (flashImage "boot".toList "boot.img".toList 0x20001).run
          (World.handle sampleEnv) sampleWorld =
          (some 0, sampleWorld.setFlash "boot".toList final) ∧
        final.bad = sampleFlash.bad ∧
        (((sampleFlash.goodFrom 0).take count).map fun pos => (final.block pos).val).flatten =
          sampleImage.data ++ List.replicate (padding samplePartition sampleImage.data.length) 0 := by
  refine flashImage_restartable rfl rfl (Nat.lt_succ_of_le (sampleImage_length).le) ?_
    sampleImage_recognisable ?_ (.kill (.killed _ _) (.refl _))
  · rw [sampleFlash_goodFrom, sampleImage_length]
    decide
  · obtain ⟨ctx, hrun, -⟩ := @mtdReadData_run _ sampleFlash _ headerSize
        (mtdReadPartition_valid samplePartition) (by decide)
    have hdiffers := @Recognisable.differs_of_erased _ _ sampleFlash _ _ sampleImage_recognisable
        sampleFlash_goodFrom rfl
    rw [hrun, mtdReadPartition_remaining]
    split
    · exact fun heq => hdiffers (Option.some.inj heq)
    · simp

end OpenRecovery
