import OpenRecovery.FlashImageRestart
import OpenRecovery.MtdFaults
import Mathlib

/-!
# The images that `flash_image` can write

The first pass pads the last block of the image with zeros.  The second pass
completes the last block of the header with bytes of the image and gives up if
the image ends before that block does.  Hence an image is written exactly if it
reaches the end of the last block that its header touches, and from every
shorter image the first pass leaves a partition without a header.
-/

namespace OpenRecovery

open Effects Mtd

variable {partition : MtdPartition}

/-- The image reaches the end of the last erase block that its header
touches. -/
def CoversHeader (partition : MtdPartition) (length : Nat) : Prop :=
  min headerSize length + padding partition (min headerSize length) ≤ length

instance (partition : MtdPartition) (length : Nat) :
    Decidable (CoversHeader partition length) :=
  inferInstanceAs (Decidable (_ ≤ _))

/-- The blocks that the header touches. -/
theorem exists_header_blocks (partition : MtdPartition) (length : Nat) :
    ∃ count, count * partition.eraseSize = length + padding partition length := by
  obtain ⟨count, hcount⟩ := dvd_add_padding partition length
  exact ⟨count, by rw [hcount, Nat.mul_comm]⟩

section Passes

variable {env : Env} {name image : CString}
variable {start flash : Flash partition} {world : World} {file : File}
variable {blocks : List (Block partition)}

/-- The second pass gives up at the end of the image. -/
theorem copyLeft_dies_safe
    {fuel left offset : Nat} {ctx : MtdWriteContext} {taken : Bytes}
    {post : CopyResult → World → Prop}
    (hfile : world.files image = some file)
    (hfuel : left ≤ fuel) (hleft : (file.data.drop offset).length < left)
    (hstreamed : Streamed (Placed start) blocks taken ctx flash)
    (hdata : taken ++ file.data.drop offset <+: blockBytes blocks)
    (hroom : blocks.length ≤ (start.goodFrom 0).length)
    (hpost : ∀ after : Flash partition, post .died (world.setFlash name after)) :
    (copyLeft name image partition fuel left offset ctx).Safe
      (Machine.atomic (World.handle env)) post (fun _ => True)
      (world.setFlash name flash) := by
  induction fuel generalizing left offset ctx taken flash with
  | zero => omega
  | succ fuel ih =>
      rw [copyLeft, if_pos (by omega), Prog.ask_bind_eq, Prog.safe_request_atomic,
        handle_read_image hfile]
      refine ⟨trivial, ?_⟩
      obtain ⟨buf, hbuf⟩ : ∃ buf,
          buf = (file.data.drop offset).take (min left headerSize) := ⟨_, rfl⟩
      have hrest : file.data.drop offset = buf ++ file.data.drop (offset + buf.length) := by
        rw [← List.drop_drop]
        exact (List.prefix_iff_eq_append.mp (hbuf ▸ List.take_prefix _ _)).symm
      simp only [← hbuf]
      by_cases hempty : buf.length = 0
      · rw [if_pos hempty]
        exact ⟨hpost flash, trivial⟩
      · have hlength := congrArg List.length hrest
        rw [List.length_append] at hlength
        rw [hrest, ← List.append_assoc] at hdata
        rw [if_neg hempty, Prog.safe_bind]
        apply onPartition_write_safe hstreamed ((List.prefix_append _ _).trans hdata) hroom
          (fun _ _ => trivial)
        intro ctx' after hafter
        simp only [ne_eq, not_true_eq_false, if_false]
        exact ih (by omega) (by omega) hafter hdata

theorem rewriteHeader_dies_safe
    {header : Bytes} {post : Option Int → World → Prop}
    (hfile : world.files image = some file)
    (hheader : header <+: file.data)
    (hle : header.length ≤ blocks.length * partition.eraseSize)
    (hlt : blocks.length * partition.eraseSize < header.length + partition.eraseSize)
    (hshort : file.data.length < blocks.length * partition.eraseSize)
    (hblocks : file.data <+: blockBytes blocks)
    (hroom : blocks.length ≤ (start.goodFrom 0).length)
    (hpost : ∀ after : Flash partition, post (some 1) (world.setFlash name after)) :
    (rewriteHeader name image partition header).Safe
      (Machine.atomic (World.handle env)) post (fun _ => True)
      (world.setFlash name start) := by
  have hstart := @streamed_start _ _ blocks _ _ (placed_start start)
  have hheaderLength := hheader.length_le
  rw [rewriteHeader, Prog.ask_bind_eq, Prog.safe_request_atomic]
  refine ⟨trivial, ?_⟩
  simp only [World.handle, World.setFlash_partitions_self, Option.isSome_some, if_true]
  rw [Prog.safe_bind]
  apply onPartition_write_safe hstart
    (by rw [List.nil_append]; exact hheader.trans hblocks) hroom (fun _ _ => trivial)
  intro ctx after hafter
  rw [List.nil_append] at hafter
  simp only [ne_eq, not_true_eq_false, if_false]
  rw [Prog.ask_bind_eq, Prog.safe_request_atomic]
  refine ⟨trivial, ?_⟩
  simp only [World.handle, World.setFlash_partitions_self, Option.map_some]
  rw [left_eq hle hlt, Prog.safe_bind]
  apply copyLeft_dies_safe hfile le_rfl (by rw [List.length_drop]; omega) hafter
    (by rwa [List.prefix_iff_eq_append.mp hheader]) hroom
  intro after'
  exact ⟨hpost after', trivial⟩

end Passes

section Lengths

variable {env : Env} {name image : CString} {world : World} {file : File} {fuel : Nat}
variable {old : Flash partition}

/-- The image with its header replaced by zeros, padded to whole blocks. -/
theorem exists_zeroed (partition : MtdPartition) (data : Bytes) :
    ∃ zeroed : List (Block partition),
      blockBytes zeroed = List.replicate (data.take headerSize).length 0 ++
        data.drop (data.take headerSize).length ++
          List.replicate (padding partition data.length) 0 := by
  apply exists_blockBytes
  have hle : (data.take headerSize).length ≤ data.length := List.length_take_le' ..
  simp only [List.length_append, List.length_replicate, List.length_drop]
  rw [Nat.add_sub_cancel' hle]
  exact dvd_add_padding partition data.length

/-- The header check of `flash_image` does not find the image's header. -/
def HeaderDiffers (flash : Flash partition) (image : Bytes) : Prop :=
  ((mtdReadData partition (mtdReadPartition partition) headerSize).run
    Flash.handle flash).1.1 ≠ some (image.take headerSize)

theorem HeaderDiffers.stream
    {flash : Flash partition} {data : Bytes} (hdiffers : HeaderDiffers flash data) :
    ¬ (headerSize ≤ (flash.streamFrom 0).length ∧
      (flash.streamFrom 0).take headerSize = data.take headerSize) := by
  rintro ⟨hlong, hsame⟩
  obtain ⟨ctx, hrun, -⟩ := @mtdReadData_run _ flash _ headerSize
      (mtdReadPartition_valid partition) (by decide)
  rw [HeaderDiffers, hrun, mtdReadPartition_remaining, if_pos hlong, hsame] at hdiffers
  exact hdiffers rfl

/-- The run succeeds and the first good blocks hold the padded image. -/
def WritesImage (env : Env) (name image : CString) (fuel : Nat) (world : World)
    (old : Flash partition) (data : Bytes) : Prop :=
  ∃ (final : Flash partition) (count : Nat),
    (flashImage name image fuel).run (World.handle env) world =
        (some 0, world.setFlash name final) ∧
      final.bad = old.bad ∧
      (((old.goodFrom 0).take count).map fun pos => (final.block pos).val).flatten =
        data ++ List.replicate (padding partition data.length) 0

theorem writesImage_of_covers
    (hfile : world.files image = some file) (hfuel : file.data.length < fuel)
    (hnonempty : file.data ≠ [])
    (hfits : file.data.length ≤ (old.goodFrom 0).length * partition.eraseSize)
    (hdiffers : HeaderDiffers old file.data)
    (hcovers : CoversHeader partition file.data.length) :
    WritesImage env name image fuel (world.setFlash name old) old file.data := by
  obtain ⟨blocks, hblocks⟩ := exists_padded partition file.data
  obtain ⟨zeroed, hzeroed⟩ := exists_zeroed partition file.data
  have hroom := Chunked.fits ⟨_, padding_lt partition _, hblocks⟩ hfits
  have hheader : (file.data.take headerSize).length = min headerSize file.data.length :=
    List.length_take
  obtain ⟨count, hcount⟩ := exists_header_blocks partition (min headerSize file.data.length)
  have hpad := padding_lt partition (min headerSize file.data.length)
  have hsafe : (flashImage name image fuel).Safe (Machine.atomic (World.handle env))
      (fun result after => result = some 0 ∧
        after = world.setFlash name (old.place (old.goodFrom 0) blocks))
      (fun _ => True) (world.setFlash name old) := by
    apply flashImage_safe_of_check hfile hnonempty trivial
    · intro hlong hsame
      exact absurd ⟨hlong, hsame⟩ hdiffers.stream
    · intro _
      apply @writeImage_safe _ _ _ _ _ _ _ _ _ zeroed _ _ _ count _ hfile hfuel
        (List.take_prefix _ _) (by omega) (by omega) (hcount ▸ hcovers)
        (padding_lt partition file.data.length) hzeroed hblocks hroom
        (fun _ _ => trivial) (fun _ _ => trivial)
      exact ⟨rfl, rfl⟩
  obtain ⟨hresult, hworld⟩ := hsafe.run_post
  refine ⟨old.place (old.goodFrom 0) blocks, blocks.length, Prod.ext hresult ?_,
    place_bad .., ?_⟩
  · rw [World.setFlash_setFlash]
    exact hworld
  · have hcomplete := @complete_place _ old blocks hroom
    rw [Complete, goodFrom_congr (place_bad ..) 0] at hcomplete
    rw [← hblocks, blockBytes]
    conv_rhs => rw [← hcomplete]
    rw [List.map_map]
    rfl

/-- An image that ends inside the header's last block makes the second pass
fail. -/
theorem flashImage_dies_of_short
    (hfile : world.files image = some file) (hfuel : file.data.length < fuel)
    (hnonempty : file.data ≠ [])
    (hfits : file.data.length ≤ (old.goodFrom 0).length * partition.eraseSize)
    (hdiffers : HeaderDiffers old file.data)
    (hshort : ¬ CoversHeader partition file.data.length) :
    ((flashImage name image fuel).run (World.handle env) (world.setFlash name old)).1 =
      some 1 := by
  obtain ⟨blocks, hblocks⟩ := exists_padded partition file.data
  obtain ⟨zeroed, hzeroed⟩ := exists_zeroed partition file.data
  have hroom := Chunked.fits ⟨_, padding_lt partition _, hblocks⟩ hfits
  have hheader : (file.data.take headerSize).length = min headerSize file.data.length :=
    List.length_take
  obtain ⟨count, hcount⟩ := exists_header_blocks partition (min headerSize file.data.length)
  have hpad := padding_lt partition (min headerSize file.data.length)
  have hpadData := padding_lt partition file.data.length
  rw [CoversHeader] at hshort
  have hlength := congrArg List.length hblocks
  rw [blockBytes_length, List.length_append, List.length_replicate] at hlength
  have hsame : blocks.length = count := by
    have hge := Nat.le_of_lt_succ (Nat.lt_of_mul_lt_mul_right
      (show count * partition.eraseSize < (blocks.length + 1) * partition.eraseSize by
        rw [Nat.succ_mul]
        omega))
    have hle := Nat.le_of_lt_succ (Nat.lt_of_mul_lt_mul_right
      (show blocks.length * partition.eraseSize < (count + 1) * partition.eraseSize by
        rw [Nat.succ_mul]
        omega))
    omega
  have hprefix : file.data <+: blockBytes blocks := hblocks ▸ List.prefix_append _ _
  have hsafe : (flashImage name image fuel).Safe (Machine.atomic (World.handle env))
      (fun result _ => result = some 1) (fun _ => True) (world.setFlash name old) := by
    apply flashImage_safe_of_check hfile hnonempty trivial
    · intro hlong hsame
      exact absurd ⟨hlong, hsame⟩ hdiffers.stream
    · intro _
      apply writeImage_safe_of_rewrite hfile hfuel hpadData hzeroed
        (by rwa [length_zeroed (List.take_prefix _ _) hzeroed hblocks]) (fun _ _ => trivial)
      apply @rewriteHeader_dies_safe _ _ _ _ _ _ _ blocks _ _ hfile (List.take_prefix _ _)
        (by rw [hsame]; omega) (by rw [hsame]; omega) (by rw [hsame]; omega) hprefix
      · rwa [goodFrom_congr (place_bad ..) 0]
      · intro _
        rfl
  exact hsafe.run_post

/-- `flash_image` writes a non-empty image that fits exactly if the image
reaches the end of the last block that its header touches. -/
theorem writesImage_iff_covers
    (hold : world.partitions name = some ⟨partition, old⟩)
    (hfile : world.files image = some file) (hfuel : file.data.length < fuel)
    (hnonempty : file.data ≠ [])
    (hfits : file.data.length ≤ (old.goodFrom 0).length * partition.eraseSize)
    (hdiffers : HeaderDiffers old file.data) :
    WritesImage env name image fuel world old file.data ↔
      CoversHeader partition file.data.length := by
  have hworld : world.setFlash name old = world := World.setFlash_eq_self hold
  constructor
  · rintro ⟨final, count, hrun, -, -⟩
    by_contra hshort
    have hdies := @flashImage_dies_of_short _ env name image world file fuel old hfile hfuel
      hnonempty hfits hdiffers hshort
    rw [hworld, hrun] at hdies
    simp at hdies
  · intro hcovers
    have hwrites := @writesImage_of_covers _ env name image world file fuel old hfile hfuel
      hnonempty hfits hdiffers hcovers
    rwa [hworld] at hwrites

end Lengths

/-- The hypotheses are met by an erased partition and an image of exactly one
erase block. -/
theorem writesImage_iff_covers_sample :
    WritesImage sampleEnv "boot".toList "boot.img".toList 0x20001 sampleWorld sampleFlash
        sampleImage.data ↔
      CoversHeader samplePartition sampleImage.data.length := by
  apply writesImage_iff_covers rfl rfl (Nat.lt_succ_of_le sampleImage_length.le)
  · rw [← List.length_pos_iff, sampleImage_length]
    decide
  · rw [sampleFlash_goodFrom, sampleImage_length]
    decide
  · obtain ⟨ctx, hrun, -⟩ := @mtdReadData_run _ sampleFlash _ headerSize
        (mtdReadPartition_valid samplePartition) (by decide)
    have hdiffers := @Recognisable.differs_of_erased _ _ sampleFlash _ _ sampleImage_recognisable
        sampleFlash_goodFrom rfl
    rw [HeaderDiffers, hrun, mtdReadPartition_remaining]
    split
    · exact fun heq => hdiffers (Option.some.inj heq)
    · simp

/-- An image of a single byte. -/
def tinyImage : File where
  data := [1]
  mode := 0o644
  uid := 0
  gid := 0

def tinyWorld : World where
  files path := if path = "boot.img".toList then some tinyImage else none
  partitions name := if name = "boot".toList then some ⟨samplePartition, sampleFlash⟩ else none
  stdout := []

/-- The tiny image fits, and yet it is not written. -/
theorem tinyImage_not_written :
    tinyImage.data ≠ [] ∧
      tinyImage.data.length ≤ (sampleFlash.goodFrom 0).length * samplePartition.eraseSize ∧
      HeaderDiffers sampleFlash tinyImage.data ∧
      ((flashImage "boot".toList "boot.img".toList 2).run (World.handle sampleEnv)
        tinyWorld).1 = some 1 ∧
      ¬ WritesImage sampleEnv "boot".toList "boot.img".toList 2 tinyWorld sampleFlash
        tinyImage.data := by
  have hnonempty : tinyImage.data ≠ [] := by decide
  have hfits : tinyImage.data.length ≤
      (sampleFlash.goodFrom 0).length * samplePartition.eraseSize := by
    rw [sampleFlash_goodFrom]
    decide
  have hdiffers : HeaderDiffers sampleFlash tinyImage.data := by
    obtain ⟨ctx, hrun, -⟩ := @mtdReadData_run _ sampleFlash _ headerSize
        (mtdReadPartition_valid samplePartition) (by decide)
    rw [HeaderDiffers, hrun]
    split
    next hlong =>
      intro heq
      have hlength := congrArg List.length (Option.some.inj heq)
      rw [List.length_take_of_le hlong] at hlength
      exact absurd hlength (by decide)
    next => simp
  have hworld : tinyWorld.setFlash "boot".toList sampleFlash = tinyWorld :=
    World.setFlash_eq_self rfl
  have hdies := @flashImage_dies_of_short _ sampleEnv "boot".toList "boot.img".toList tinyWorld
    tinyImage 2 sampleFlash rfl (by decide) hnonempty hfits hdiffers (by decide)
  rw [hworld] at hdies
  refine ⟨hnonempty, hfits, hdiffers, hdies, ?_⟩
  rintro ⟨final, count, hrun, -, -⟩
  rw [hrun] at hdies
  simp at hdies

end OpenRecovery
