import OpenRecovery.ImgDiffChecks
import OpenRecovery.ImgPatchRuns
import Mathlib

/-!
# An image patch rebuilds the target

`imgdiff` refuses two images exactly if their chunks have different types.  The patch
that it writes otherwise makes the target out of the source.
-/

namespace OpenRecovery
namespace ImgDiff

open Effects Words

variable {tools : Tools} {blocks : Blocks}

/-! ## The program -/

theorem ImageFile.holds (file : ImageFile) (chunks : List (ImageChunk 32)) :
    Holds (file.blocks tools chunks) file.bytes := by
  exact List.prefix_append _ _

/-- What has been read from two files that can be cut into chunks. -/
theorem readImage_tiles
    {file : ImageFile} {fuel : Nat} {chunks : List (ImageChunk 32)}
    (hreads : ReadsFrom tools.zlib file 0)
    (hdone : readImage tools.zlib file fuel = .done chunks) : Tiles file.size chunks 0 := by
  obtain ⟨fuel', hends⟩ := (readImage_partitions_iff tools.zlib file).mpr hreads
  have hdone' : readLoop tools.zlib file (fuel + fuel') 0 [] = .done chunks := by
    rw [← hdone]
    apply readLoop_mono
    rw [← readImage, hdone]
    simp
  have hends' : readImage tools.zlib file fuel' ≠ .running →
      readImage tools.zlib file fuel' = .done chunks := by
    intro hover
    rw [← hdone', Nat.add_comm]
    exact (readLoop_mono fuel hover).symm
  cases hends with
  | inl hrefused =>
      rw [hrefused] at hends'
      simp at hends'
  | inr hread =>
      obtain ⟨others, hothers, htiles⟩ := hread
      rw [hothers] at hends'
      have hsame : others = chunks := by
        simpa using hends'
      rwa [← hsame]

/-- What `main` does once both files were read. -/
theorem imgdiff_done
    {source target : ImageFile} {fuel : Nat} {patch : Bytes}
    (hdone : imgdiff tools fuel source target = .done patch) :
    ∃ srcRead tgtRead sources targets patches,
      readImage tools.zlib source fuel = .done srcRead ∧
      readImage tools.zlib target fuel = .done tgtRead ∧
      (mergedChunks srcRead).map ImageChunk.type = (mergedChunks tgtRead).map ImageChunk.type ∧
      checkChunks tools .image (source.blocks tools srcRead) (target.blocks tools tgtRead) 0
        (mergedChunks tgtRead) (mergedChunks srcRead) = .done (targets, sources) ∧
      makePatches tools .image (source.blocks tools srcRead) (target.blocks tools tgtRead)
        (mergedChunks sources) 0 (mergedChunks targets) = .done patches ∧
      patch = patchFile patches := by
  unfold imgdiff at hdone
  obtain ⟨srcRead, hsrc, hdone⟩ := bind_eq_done.mp hdone
  obtain ⟨tgtRead, htgt, hdone⟩ := bind_eq_done.mp hdone
  dsimp only at hdone
  split_ifs at hdone with htypes
  rw [not_not] at htypes
  obtain ⟨⟨targets, sources⟩, hcheck, hdone⟩ := bind_eq_done.mp hdone
  dsimp only at hdone
  split_ifs at hdone
  obtain ⟨patches, hpatches, hdone⟩ := bind_eq_done.mp hdone
  injection hdone with hdone
  exact ⟨srcRead, tgtRead, sources, targets, patches, hsrc, htgt, htypes, hcheck, hpatches,
    hdone.symm⟩

/-- The chunks of both images stay parallel up to the last merge. -/
theorem checked_parallel
    {source target : ImageFile} {srcRead tgtRead sources targets : List (ImageChunk 32)}
    {fuel : Nat} (hreliable : tools.Reliable) (hsrcReads : ReadsFrom tools.zlib source 0)
    (htgtReads : ReadsFrom tools.zlib target 0)
    (hsrc : readImage tools.zlib source fuel = .done srcRead)
    (htgt : readImage tools.zlib target fuel = .done tgtRead)
    (hsmall : ∀ chunk ∈ srcRead ++ tgtRead, chunk.len.toNat < 2 ^ 31)
    (htypes : (mergedChunks srcRead).map ImageChunk.type =
      (mergedChunks tgtRead).map ImageChunk.type)
    (hcheck : checkChunks tools .image (source.blocks tools srcRead)
      (target.blocks tools tgtRead) 0 (mergedChunks tgtRead) (mergedChunks srcRead) =
        .done (targets, sources)) :
    Parallel tools.library source.bytes target.bytes (source.blocks tools srcRead)
        (target.blocks tools tgtRead) (mergedChunks sources) (mergedChunks targets) ∧
      Tiles target.size (mergedChunks targets) 0 := by
  have hsrcSize : source.bytes.length < 2 ^ 32 := Nat.lt_of_add_right_lt source.fits
  have htgtSize : target.bytes.length < 2 ^ 32 := Nat.lt_of_add_right_lt target.fits
  have hsrcTiles := readImage_tiles hsrcReads hsrc
  have htgtTiles := readImage_tiles htgtReads htgt
  have hsrcSound := readImage_sound hreliable hsrc hsrcTiles
    (fun chunk hchunk => hsmall chunk (List.mem_append_left _ hchunk))
  have htgtSound := readImage_sound hreliable htgt htgtTiles
    (fun chunk hchunk => hsmall chunk (List.mem_append_right _ hchunk))
  obtain ⟨hsrcMerged, hsrcTiles'⟩ := mergedChunks_tiles hsrcSize hsrcSound hsrcTiles
  obtain ⟨htgtMerged, htgtTiles'⟩ := mergedChunks_tiles htgtSize htgtSound htgtTiles
  obtain ⟨rest, hrest, hparallel, hextents, hextents'⟩ := @checkChunks_parallel tools
    (source.blocks tools srcRead) (target.blocks tools tgtRead) source.bytes target.bytes []
    (mergedChunks srcRead) (mergedChunks tgtRead) sources targets (target.holds tgtRead) hsrcMerged
    htgtMerged htypes hcheck
  rw [List.nil_append] at hrest
  subst hrest
  exact hparallel.merged hsrcSize htgtSize (tiles_congr hextents hsrcTiles')
    (tiles_congr hextents' htgtTiles')

/-- A patch that `imgdiff` has written makes the target image out of the source. -/
theorem imgdiff_output
    {source target : ImageFile} {srcRead tgtRead : List (ImageChunk 32)} {fuel : Nat}
    {patch : Bytes} (hreliable : tools.Reliable) (hsrcReads : ReadsFrom tools.zlib source 0)
    (htgtReads : ReadsFrom tools.zlib target 0)
    (hsrc : readImage tools.zlib source fuel = .done srcRead)
    (htgt : readImage tools.zlib target fuel = .done tgtRead)
    (hsmall : ∀ chunk ∈ srcRead ++ tgtRead, chunk.len.toNat < 2 ^ 31)
    (hsource : source.size < 2 ^ 31) (htarget : target.size < 2 ^ 31)
    (hdone : imgdiff tools fuel source target = .done patch) (hpatch : patch.length < 2 ^ 31) :
    imageOutput tools.library patch source.bytes = some target.bytes := by
  obtain ⟨srcRead', tgtRead', sources, targets, patches, hsrc', htgt', htypes, hcheck, hpatches,
    rfl⟩ := imgdiff_done hdone
  obtain rfl : srcRead' = srcRead := by
    simpa [hsrc] using hsrc'.symm
  obtain rfl : tgtRead' = tgtRead := by
    simpa [htgt] using htgt'.symm
  obtain ⟨hparallel, htiles⟩ := checked_parallel hreliable hsrcReads htgtReads hsrc htgt hsmall
    htypes hcheck
  have hproduces := @makePatches_produces tools (source.blocks tools srcRead')
    (target.blocks tools tgtRead') source.bytes target.bytes [] _ _ _ hreliable
    (source.holds srcRead') (target.holds tgtRead') hsource htarget hparallel hpatches
  rw [imageOutput_patchFile hproduces hreliable.allocates hsource hpatch, tiles_bytes htiles,
    List.drop_zero]

/-! ## Refusals -/

theorem bind_ne_refused
    {α β : Type} {outcome : Outcome α} {rest : α → Outcome β} (houtcome : outcome ≠ .refused)
    (hrest : ∀ value, rest value ≠ .refused) : (outcome >>= rest) ≠ .refused := by
  cases outcome with
  | running => simp
  | stuck reason => simp
  | refused => exact absurd rfl houtcome
  | done value => exact hrest value

theorem readBlock_ne_refused (blocks : Blocks) (pointer : Pointer) (len : Nat) :
    readBlock blocks pointer len ≠ .refused := by
  unfold readBlock
  split_ifs <;> simp

theorem comparePieces_ne_refused (chunk : ImageChunk 32) (outs : List Bytes) (p : Nat) :
    comparePieces blocks chunk outs p ≠ .refused := by
  induction outs generalizing p with
  | nil => simp [comparePieces]
  | cons out outs ih =>
      unfold comparePieces
      apply bind_ne_refused (readBlock_ne_refused _ _ _)
      intro data
      split_ifs
      · simp
      · exact ih _

theorem tryLevels_ne_refused (levels : List Int) (chunk : ImageChunk 32) :
    tryLevels tools blocks levels chunk ≠ .refused := by
  induction levels generalizing chunk with
  | nil => simp [tryLevels]
  | cons level levels ih =>
      unfold tryLevels
      apply bind_ne_refused
      · unfold tryReconstruction
        apply bind_ne_refused (readBlock_ne_refused _ _ _)
        intro data
        split
        · simp
        · exact comparePieces_ne_refused _ _ _
      · intro equal
        split_ifs
        · simp
        · exact ih _

theorem areChunksEqual_ne_refused (blocksA : Blocks) (a : ImageChunk 32) (blocksB : Blocks)
    (b : ImageChunk 32) : areChunksEqual blocksA a blocksB b ≠ .refused := by
  unfold areChunksEqual
  split_ifs
  · simp
  · simp
  · apply bind_ne_refused (readBlock_ne_refused _ _ _)
    intro dataA
    apply bind_ne_refused (readBlock_ne_refused _ _ _)
    simp
  · simp
  · apply bind_ne_refused (readBlock_ne_refused _ _ _)
    intro dataA
    apply bind_ne_refused (readBlock_ne_refused _ _ _)
    simp
  · simp

theorem checkChunk_ne_refused (sources : List (ImageChunk 32)) (i : Nat) (chunk : ImageChunk 32) :
    checkChunk tools mode srcBlocks tgtBlocks sources i chunk ≠ .refused := by
  unfold checkChunk
  split_ifs with hother
  · simp
  · apply bind_ne_refused
    · unfold reconstructDeflateChunk
      rw [if_neg hother]
      exact tryLevels_ne_refused _ _
    · rintro ⟨reconstructed, result⟩
      dsimp only
      apply bind_ne_refused
      · unfold Mode.sourceOf
        split <;> simp
      · intro source
        split_ifs
        · simp
        · split
          · simp
          · apply bind_ne_refused (areChunksEqual_ne_refused _ _ _ _)
            intro equal
            split_ifs <;> simp

theorem checkChunks_ne_refused (i : Nat) (targets sources : List (ImageChunk 32)) :
    checkChunks tools mode srcBlocks tgtBlocks i targets sources ≠ .refused := by
  induction targets generalizing i sources with
  | nil => simp [checkChunks]
  | cons target targets ih =>
      unfold checkChunks
      apply bind_ne_refused (checkChunk_ne_refused _ _ _)
      rintro ⟨target', sources'⟩
      apply bind_ne_refused (ih _ _)
      rintro ⟨rest, sources''⟩
      simp

theorem makePatch_ne_refused (source target : ImageChunk 32) :
    makePatch tools srcBlocks tgtBlocks source target ≠ .refused := by
  unfold makePatch
  apply bind_ne_refused (readBlock_ne_refused _ _ _)
  intro new
  by_cases hshort : target.type = chunkNormal ∧ target.len.toNat ≤ 160
  · rw [if_pos hshort]
    simp
  · rw [if_neg hshort]
    apply bind_ne_refused (readBlock_ne_refused _ _ _)
    intro old
    split
    · simp
    · split_ifs <;> simp

theorem makePatches_ne_refused
    (sources : List (ImageChunk 32)) (i : Nat) (targets : List (ImageChunk 32)) :
    makePatches tools mode srcBlocks tgtBlocks sources i targets ≠ .refused := by
  induction targets generalizing i with
  | nil => simp [makePatches]
  | cons target targets ih =>
      unfold makePatches
      apply bind_ne_refused
      · unfold Mode.patchSource
        split
        · simp
        · split_ifs
          · simp
          · split
            · simp
            · split <;> simp
      · intro source
        apply bind_ne_refused (makePatch_ne_refused _ _)
        intro patched
        apply bind_ne_refused (ih _)
        simp

/-- Two images are refused exactly if their chunks have different types: merging the
changed chunks never goes awry. -/
theorem imgdiff_refused_iff
    {source target : ImageFile} {srcRead tgtRead : List (ImageChunk 32)} {fuel : Nat}
    (hreliable : tools.Reliable) (hsrcReads : ReadsFrom tools.zlib source 0)
    (htgtReads : ReadsFrom tools.zlib target 0)
    (hsrc : readImage tools.zlib source fuel = .done srcRead)
    (htgt : readImage tools.zlib target fuel = .done tgtRead)
    (hsmall : ∀ chunk ∈ srcRead ++ tgtRead, chunk.len.toNat < 2 ^ 31) :
    imgdiff tools fuel source target = .refused ↔
      collapse (srcRead.map ImageChunk.type) ≠ collapse (tgtRead.map ImageChunk.type) := by
  have hsrcTiles := readImage_tiles hsrcReads hsrc
  have htgtTiles := readImage_tiles htgtReads htgt
  have hsrcSound := readImage_sound hreliable hsrc hsrcTiles
    (fun chunk hchunk => hsmall chunk (List.mem_append_left _ hchunk))
  have htgtSound := readImage_sound hreliable htgt htgtTiles
    (fun chunk hchunk => hsmall chunk (List.mem_append_right _ hchunk))
  rw [← mergedChunks_types hsrcSound hsrcTiles, ← mergedChunks_types htgtSound htgtTiles]
  unfold imgdiff
  rw [hsrc, done_bind, htgt, done_bind]
  dsimp only
  split_ifs with htypes
  · simp [htypes]
  · rw [not_not] at htypes
    constructor
    · intro hrefused
      exfalso
      revert hrefused
      cases hcheck : checkChunks tools .image (source.blocks tools srcRead)
          (target.blocks tools tgtRead) 0 (mergedChunks tgtRead) (mergedChunks srcRead) with
      | running => simp
      | stuck reason => simp
      | refused => exact absurd hcheck (checkChunks_ne_refused _ _ _)
      | done checked =>
          obtain ⟨targets, sources⟩ := checked
          obtain ⟨hparallel, -⟩ := checked_parallel hreliable hsrcReads htgtReads hsrc htgt hsmall
            htypes hcheck
          have hlengths : (mergedChunks sources).length = (mergedChunks targets).length := by
            have hlength := congrArg List.length hparallel.types
            rwa [List.length_map, List.length_map] at hlength
          rw [done_bind]
          dsimp only
          rw [if_neg (not_not.mpr hlengths)]
          apply bind_ne_refused (makePatches_ne_refused _ _ _)
          simp
    · intro hother
      exact absurd htypes hother

/-! ## Applying the patch -/

/-- What `imgdiff` wrote makes the target image out of the source one: `applypatch`
puts exactly its bytes into a buffer of that size, and hashes them. -/
theorem imgdiff_applyImagePatch
    {σ : Type} (handle : (op : SysOp) → σ → op.Reply × σ) (state : σ) (tools : Tools)
    (source target : ImageFile) (srcRead tgtRead : List (ImageChunk 32)) (fuel : Nat)
    (patch : Bytes) (hreliable : tools.Reliable) (hsrcReads : ReadsFrom tools.zlib source 0)
    (htgtReads : ReadsFrom tools.zlib target 0)
    (hsrc : readImage tools.zlib source fuel = .done srcRead)
    (htgt : readImage tools.zlib target fuel = .done tgtRead)
    (hsmall : ∀ chunk ∈ srcRead ++ tgtRead, chunk.len.toNat < 2 ^ 31)
    (hsource : source.size < 2 ^ 31) (htarget : target.size < 2 ^ 31)
    (hdone : imgdiff tools fuel source target = .done patch) (hpatch : patch.length < 2 ^ 31) :
    imageOutput tools.library patch source.bytes = some target.bytes ∧
      ((applyImagePatch tools.library (memorySink target.size) patch source.bytes ⟨[], []⟩).run
        handle state).1 = .ok (0, ⟨target.bytes, target.bytes⟩) := by
  have houtput := imgdiff_output hreliable hsrcReads htgtReads hsrc htgt hsmall hsource htarget
    hdone hpatch
  exact ⟨houtput, applyImagePatch_memorySink houtput state⟩

/-! ## Two images -/

/-- How much of the input an empty deflate stream takes: a fixed block or a stored
one. -/
def emptyStream (input : Bytes) : Option Nat :=
  if input.take 2 = [3, 0] then some 2
  else if input.take 5 = [1, 0, 0, 255, 255] then some 5
  else none

theorem emptyStream_take
    {input : Bytes} {used : Nat} (hstream : emptyStream input = some used) :
    emptyStream (input.take used) = some used := by
  unfold emptyStream at hstream
  split_ifs at hstream with hfixed hstored
  · injection hstream with hused
    subst hused
    simp [emptyStream, hfixed]
  · injection hstream with hused
    subst hused
    simp [emptyStream, hstored]

theorem emptyStream_le {input : Bytes} {used : Nat} (hstream : emptyStream input = some used) :
    used ≤ input.length := by
  unfold emptyStream at hstream
  split_ifs at hstream with hfixed hstored
  · have hlength := congrArg List.length hfixed
    simp only [List.length_take, List.length_cons, List.length_nil] at hlength
    injection hstream with hused
    omega
  · have hlength := congrArg List.length hstored
    simp only [List.length_take, List.length_cons, List.length_nil] at hlength
    injection hstream with hused
    omega

/-- A decoder for deflate streams without any output. -/
def sampleInflater : Inflater where
  State := Bytes
  init input := input
  inflate input _ := ⟨input, 0, (emptyStream input).isSome⟩
  availIn input := input.length - (emptyStream input).getD 0
  decode input := (emptyStream input).map fun used => (0, used)
  Reached input made state := state = input ∧ made = 0
  decode_le := by
    intro input total used hdecode
    obtain ⟨found, hstream, hboth⟩ := Option.map_eq_some_iff.mp hdecode
    simp only [Prod.mk.injEq] at hboth
    rw [← hboth.2]
    exact emptyStream_le hstream
  init_reached input := ⟨rfl, rfl⟩
  inflate_ends := by
    rintro input total used made state hdecode ⟨rfl, rfl⟩ avail -
    obtain ⟨found, hstream, hboth⟩ := Option.map_eq_some_iff.mp hdecode
    simp only [Prod.mk.injEq] at hboth
    obtain ⟨rfl, rfl⟩ := hboth
    simp [hstream]
  inflate_fills := by
    rintro input total used made state hdecode ⟨rfl, rfl⟩ avail hless
    obtain ⟨found, hstream, hboth⟩ := Option.map_eq_some_iff.mp hdecode
    simp only [Prod.mk.injEq] at hboth
    omega
  inflate_fails := by
    rintro input made state hdecode ⟨rfl, rfl⟩ avail
    have hstream : emptyStream state = none := by
      simpa using hdecode
    simp [hstream]

/-- The data behind as many ones, unless it is empty. -/
def sampleBzip2 (data : Bytes) : Bytes :=
  if data = [] then emptyBzip2 else List.replicate data.length 1 ++ 0 :: data

def sampleBunzip2 (input : Bytes) : Bytes :=
  if emptyBzip2 <+: input then []
  else
    let count := (input.takeWhile fun byte => byte = 1).length
    (input.drop (count + 1)).take count

def sampleTools : Tools where
  zlib := sampleInflater
  library :=
    { malloc := fun _ => true
      bunzip2 := fun input => (sampleBunzip2 input, .streamEnd)
      inflate := fun input => (emptyStream input).map fun used => ([], used)
      deflate := fun _ data => if data = [] then some [3, 0] else none }
  bzip2 := sampleBzip2
  qsufsort := fun old => List.replicate (old.length + 1) 0
  stale := 0

theorem sampleTools_reliable : sampleTools.Reliable := by
  constructor
  · intro data rest
    change (sampleBunzip2 (sampleBzip2 data ++ rest), BzEnd.streamEnd) = (data, .streamEnd)
    unfold sampleBzip2 sampleBunzip2
    by_cases hempty : data = []
    · rw [if_pos hempty, if_pos (List.prefix_append _ _), hempty]
    · obtain ⟨byte, data, rfl⟩ := List.exists_cons_of_ne_nil hempty
      have hhead : ¬ emptyBzip2 <+: List.replicate (byte :: data).length 1 ++ 0 :: (byte :: data) ++ rest := by
        rintro ⟨tail, htail⟩
        have hfirst := congrArg List.head? htail
        simp [emptyBzip2, List.replicate_succ] at hfirst
      have hones : ((List.replicate (byte :: data).length (1 : UInt8) ++ 0 :: (byte :: data) ++ rest).takeWhile
          fun byte => byte = 1) = List.replicate (byte :: data).length 1 := by
        rw [List.append_assoc, List.takeWhile_append_of_pos]
        · simp
        · simp
      rw [if_neg hempty, if_neg hhead]
      dsimp only
      rw [hones, List.length_replicate]
      have hdrop : (List.replicate (byte :: data).length (1 : UInt8) ++ 0 :: (byte :: data) ++ rest).drop
          ((byte :: data).length + 1) = (byte :: data) ++ rest := by
        rw [← List.drop_drop, List.append_assoc, List.drop_left' (List.length_replicate ..)]
        rfl
      rw [hdrop, List.take_left]
  · intro old
    refine ⟨by simp [sampleTools], ?_⟩
    intro position hposition
    have hzero := List.eq_of_mem_replicate hposition
    omega
  · intro input
    simp [sampleTools, sampleInflater, Option.map_map, Function.comp_def]
  · intro input data used hinflate
    obtain ⟨found, hstream, hboth⟩ := Option.map_eq_some_iff.mp hinflate
    simp only [Prod.mk.injEq] at hboth
    obtain ⟨rfl, rfl⟩ := hboth
    refine Option.map_eq_some_iff.mpr ⟨found, emptyStream_take hstream, rfl⟩
  · intro size
    rfl

def sampleSource : ImageFile where
  bytes := [0x1f, 0x8b, 0x08, 0, 0, 0, 0, 0, 0, 3, 1, 0, 0, 255, 255, 0, 0, 0, 0, 0, 0, 0, 0]
  fits := by decide

def sampleTarget : ImageFile where
  bytes := [0x1f, 0x8b, 0x08, 0, 0, 0, 0, 0, 0, 3, 3, 0, 0, 0, 0, 0, 0, 0, 0, 0, 7]
  fits := by decide

theorem sampleSource_reads : ReadsFrom sampleTools.zlib sampleSource 0 := by
  refine .member 0 0 5 ?_ ?_ ?_ ?_ ?_ ?_ .finished
  all_goals with_unfolding_all decide

theorem sampleTarget_reads : ReadsFrom sampleTools.zlib sampleTarget 0 := by
  refine .member 0 0 2 ?_ ?_ ?_ ?_ ?_ ?_ (.rest 20 ?_ ?_)
  all_goals with_unfolding_all decide

def samplePatch : Bytes :=
  match imgdiff sampleTools 5 sampleSource sampleTarget with
  | .done patch => patch
  | _ => []

theorem imgdiff_applyImagePatch_sample :
    imageOutput sampleTools.library samplePatch sampleSource.bytes = some sampleTarget.bytes ∧
      ((applyImagePatch sampleTools.library (memorySink sampleTarget.size) samplePatch
        sampleSource.bytes ⟨[], []⟩).run (World.handle sampleEnv)
          ⟨fun _ => none, fun _ => none, [], []⟩).1 =
        .ok (0, ⟨sampleTarget.bytes, sampleTarget.bytes⟩) := by
  refine imgdiff_applyImagePatch (World.handle sampleEnv) _ sampleTools sampleSource sampleTarget
    (memberChunks 0 0 5 0) (memberChunks 0 0 2 0 ++ [normalChunk 20 1]) 5 samplePatch
    sampleTools_reliable sampleSource_reads sampleTarget_reads ?_ ?_ ?_ ?_ ?_ ?_ ?_
  all_goals decide +kernel

/-- A file without a gzip member. -/
def samplePlain : ImageFile where
  bytes := [1, 2, 3, 4, 5]
  fits := by decide

theorem samplePlain_reads : ReadsFrom sampleTools.zlib samplePlain 0 := by
  refine .rest 0 ?_ ?_
  all_goals decide

theorem imgdiff_refused_iff_sample :
    imgdiff sampleTools 5 sampleSource samplePlain = .refused ↔
      collapse ((memberChunks 0 0 5 0).map ImageChunk.type) ≠
        collapse ([normalChunk 0 5].map ImageChunk.type) := by
  refine imgdiff_refused_iff sampleTools_reliable sampleSource_reads samplePlain_reads ?_ ?_ ?_
  all_goals with_unfolding_all decide

end ImgDiff
end OpenRecovery
