import OpenRecovery.ImgDiffChunks
import OpenRecovery.ImgDiffLayout
import Mathlib

/-!
# Checking the chunks and computing their patches

The chunks of the target are compared with the recompressed data and with the chunks
of the source, and some of them are changed to normal ones.  Each change is made on
both sides, so that the two lists stay parallel, and the binary patch of each chunk is
between what the decoder finds in the source and what it has to put out.
-/

namespace OpenRecovery
namespace ImgDiff

open Words

variable {tools : Tools} {lib : Library} {bytes : Bytes} {blocks : Blocks}

/-! ## Changing chunks -/

theorem changeDeflateChunkToNormal_normal
    {chunk : ImageChunk 32} (htype : chunk.type = chunkNormal) :
    changeDeflateChunkToNormal chunk = chunk := by
  simp [changeDeflateChunkToNormal, htype, chunkNormal_ne_deflate]

theorem changeDeflateChunkToNormal_type
    {chunk : ImageChunk 32} (htype : chunk.type = chunkDeflate) :
    (changeDeflateChunkToNormal chunk).type = chunkNormal := by
  simp [changeDeflateChunkToNormal, htype]

theorem changeDeflateChunkToNormal_extent (chunk : ImageChunk 32) :
    (changeDeflateChunkToNormal chunk).extent = chunk.extent := by
  unfold changeDeflateChunkToNormal
  split_ifs with htype
  · rfl
  · rw [not_not] at htype
    simp [ImageChunk.extent, ImageChunk.span, htype, chunkNormal_ne_deflate]

theorem Sound.changed
    {chunk : ImageChunk 32} (hsound : Sound lib bytes blocks chunk) :
    Sound lib bytes blocks (changeDeflateChunkToNormal chunk) := by
  cases hsound with
  | normal htype hdata hfits =>
      rw [changeDeflateChunkToNormal_normal htype]
      exact .normal htype hdata hfits
  | deflate htype hdeflateData hdata hfits used hinflate hlen hsmall =>
      have hchanged : changeDeflateChunkToNormal chunk =
          { chunk with
            type := chunkNormal, data := chunk.deflateData, len := chunk.deflateLen } := by
        simp [changeDeflateChunkToNormal, htype]
      rw [hchanged]
      exact .normal rfl hdeflateData hfits

/-- The chunk with these parameters of `deflate`. -/
def ImageChunk.withParams (chunk : ImageChunk 32) (params : DeflateParams) : ImageChunk 32 :=
  { chunk with
    level := params.level, method := params.method, windowBits := params.windowBits,
    memLevel := params.memLevel, strategy := params.strategy }

theorem Sound.withParams
    {chunk : ImageChunk 32} (hsound : Sound lib bytes blocks chunk) (params : DeflateParams) :
    Sound lib bytes blocks (chunk.withParams params) := by
  cases hsound with
  | normal htype hdata hfits => exact .normal htype hdata hfits
  | deflate htype hdeflateData hdata hfits used hinflate hlen hsmall =>
      exact .deflate htype hdeflateData hdata hfits used hinflate hlen hsmall

/-! ## Recompression -/

theorem comparePieces_true
    {chunk : ImageChunk 32} (hholds : Holds blocks bytes)
    (hdeflateData : chunk.deflateData = ⟨0, chunk.start.toNat⟩)
    (hfits : chunk.start.toNat + chunk.deflateLen.toNat ≤ bytes.length) {outs : List Bytes} {p : Nat}
    (hequal : comparePieces blocks chunk outs p = .done true) :
    outs.flatten = (bytes.drop (chunk.start.toNat + p)).take (chunk.deflateLen.toNat - p) ∧
      p ≤ chunk.deflateLen.toNat := by
  induction outs generalizing p with
  | nil =>
      have hend : p = chunk.deflateLen.toNat := by
        simpa [comparePieces] using hequal
      simp [hend]
  | cons out outs ih =>
      unfold comparePieces at hequal
      obtain ⟨data, hdata, hequal⟩ := bind_eq_done.mp hequal
      split_ifs at hequal with hdiffers
      · simp at hequal
      · obtain ⟨hrest, hp⟩ := ih hequal
        rw [not_not] at hdiffers
        have hpointer : chunk.deflateData.add p = ⟨0, chunk.start.toNat + p⟩ := by
          rw [hdeflateData]
          rfl
        rw [hpointer, readBlock_file hholds (by omega)] at hdata
        injection hdata with hdata
        refine ⟨?_, by omega⟩
        rw [List.flatten_cons, hrest, ← Nat.add_assoc, ← List.drop_drop]
        have hsplit : chunk.deflateLen.toNat - p =
            out.length + (chunk.deflateLen.toNat - (p + out.length)) := by
          omega
        rw [hsplit, List.take_add, hdata, hdiffers]

/-- Data that can be compressed again. -/
def Recompresses (lib : Library) (bytes : Bytes) (blocks : Blocks) (chunk : ImageChunk 32) : Prop :=
  chunk.ParamsFit ∧
    lib.deflate chunk.params (blocks chunk.data.block) = some (chunk.bytesOf bytes)

theorem tryReconstruction_true
    {chunk : ImageChunk 32} (hholds : Holds blocks bytes)
    (hsound : Sound tools.library bytes blocks chunk) (htype : chunk.type = chunkDeflate)
    (htrue : tryReconstruction tools blocks chunk = .done true) :
    tools.library.deflate chunk.params (blocks chunk.data.block) = some (chunk.bytesOf bytes) := by
  obtain ⟨data, used, hread, hdata, -⟩ := hsound.readData_deflate htype
  unfold tryReconstruction at htrue
  rw [hread, done_bind, hdata] at htrue
  cases hdeflate : tools.library.deflate chunk.params (blocks chunk.data.block) with
  | none => simp [hdeflate] at htrue
  | some deflated =>
      simp only [hdeflate] at htrue
      cases hsound with
      | normal hnormal => exact absurd (hnormal.symm.trans htype) chunkNormal_ne_deflate
      | deflate _ hdeflateData _ hfits =>
          obtain ⟨hflatten, -⟩ := comparePieces_true hholds hdeflateData hfits htrue
          rw [pieces_flatten (by decide) (Nat.le_refl _)] at hflatten
          rw [hflatten, ImageChunk.bytesOf, span_deflate htype, Nat.add_zero, Nat.sub_zero]

theorem setLevel_eq (chunk : ImageChunk 32) (level : Int) :
    chunk.setLevel level = chunk.withParams ⟨level, 8, -15, 8, 0⟩ := rfl

theorem setLevel_fits
    {chunk : ImageChunk 32} {level : Int} (hlow : 0 ≤ level) (hhigh : level ≤ 9) :
    (chunk.setLevel level).ParamsFit := by
  constructor
  all_goals
    simp only [ImageChunk.setLevel]
    omega

/-- The levels are tried one after the other, and only the parameters change. -/
theorem tryLevels_done
    {levels : List Int} {chunk result : ImageChunk 32} {reconstructed : Bool}
    (hholds : Holds blocks bytes) (hsound : Sound tools.library bytes blocks chunk)
    (htype : chunk.type = chunkDeflate) (hlevels : ∀ level ∈ levels, 0 ≤ level ∧ level ≤ 9)
    (hdone : tryLevels tools blocks levels chunk = .done (reconstructed, result)) :
    (∃ params, result = chunk.withParams params) ∧
      (reconstructed = true → Recompresses tools.library bytes blocks result) := by
  induction levels generalizing chunk with
  | nil =>
      simp only [tryLevels, Outcome.done.injEq, Prod.mk.injEq] at hdone
      obtain ⟨hfalse, hresult⟩ := hdone
      refine ⟨⟨⟨12, chunk.method, chunk.windowBits, chunk.memLevel, chunk.strategy⟩, ?_⟩, ?_⟩
      · rw [← hresult]
        rfl
      · intro htrue
        simp [htrue] at hfalse
  | cons level levels ih =>
      have hset := hsound.withParams ⟨level, 8, -15, 8, 0⟩
      rw [← setLevel_eq] at hset
      have hlevel := hlevels level List.mem_cons_self
      unfold tryLevels at hdone
      obtain ⟨equal, htry, hdone⟩ := bind_eq_done.mp hdone
      cases equal with
      | true =>
          simp only [if_true, Outcome.done.injEq, Prod.mk.injEq] at hdone
          obtain ⟨-, hresult⟩ := hdone
          subst hresult
          refine ⟨⟨_, setLevel_eq chunk level⟩, ?_⟩
          intro _
          exact ⟨setLevel_fits hlevel.1 hlevel.2, tryReconstruction_true hholds hset htype htry⟩
      | false =>
          simp only [Bool.false_eq_true, if_false] at hdone
          obtain ⟨⟨params, hresult⟩, hrecompresses⟩ := ih hset htype
            (fun other hother => hlevels other (List.mem_cons_of_mem _ hother)) hdone
          exact ⟨⟨params, hresult⟩, hrecompresses⟩

/-! ## Checking the chunks -/

variable {mode : Mode} {srcBlocks tgtBlocks : Blocks}

/-- What checking a chunk can do: nothing to a normal chunk, and a deflate chunk is
changed together with its source unless it has one and can be compressed again. -/
theorem checkChunk_cases
    {sources sources' : List (ImageChunk 32)} {i : Nat} {chunk chunk' : ImageChunk 32}
    (hholds : Holds tgtBlocks bytes) (hsound : Sound tools.library bytes tgtBlocks chunk)
    (hdone : checkChunk tools mode srcBlocks tgtBlocks sources i chunk = .done (chunk', sources')) :
    (chunk.type = chunkNormal ∧ chunk' = chunk ∧ sources' = sources) ∨
      ∃ params source, chunk.type = chunkDeflate ∧
        mode.sourceOf sources i (chunk.withParams params) = .done source ∧
        ((chunk' = changeDeflateChunkToNormal (chunk.withParams params) ∧
            sources' = changeSource sources source) ∨
          (chunk' = chunk.withParams params ∧
            Recompresses tools.library bytes tgtBlocks chunk' ∧ sources' = sources ∧
            ∃ j, source = some j)) := by
  unfold checkChunk at hdone
  split_ifs at hdone with hother
  · simp only [Outcome.done.injEq, Prod.mk.injEq] at hdone
    refine .inl ⟨?_, hdone.1.symm, hdone.2.symm⟩
    cases hsound.type_cases with
    | inl hnormal => exact hnormal
    | inr hdeflate => exact absurd hdeflate hother
  · rw [not_not] at hother
    obtain ⟨⟨reconstructed, result⟩, hreconstruct, hdone⟩ := bind_eq_done.mp hdone
    unfold reconstructDeflateChunk at hreconstruct
    rw [if_neg (not_not.mpr hother)] at hreconstruct
    obtain ⟨⟨params, hresult⟩, hrecompresses⟩ :=
      tryLevels_done hholds hsound hother (by simp) hreconstruct
    subst hresult
    obtain ⟨source, hsource, hdone⟩ := bind_eq_done.mp hdone
    refine .inr ⟨params, source, hother, hsource, ?_⟩
    cases reconstructed with
    | false =>
        simp only [Bool.not_false, if_true, Outcome.done.injEq, Prod.mk.injEq] at hdone
        exact .inl ⟨hdone.1.symm, hdone.2.symm⟩
    | true =>
        simp only [Bool.not_true, Bool.false_eq_true, if_false] at hdone
        cases source with
        | none =>
            simp only [Outcome.done.injEq, Prod.mk.injEq] at hdone
            exact .inl ⟨hdone.1.symm, hdone.2.symm⟩
        | some j =>
            obtain ⟨equal, -, hdone⟩ := bind_eq_done.mp hdone
            cases equal with
            | true =>
                simp only [if_true, Outcome.done.injEq, Prod.mk.injEq] at hdone
                exact .inl ⟨hdone.1.symm, hdone.2.symm⟩
            | false =>
                simp only [Bool.false_eq_true, if_false, Outcome.done.injEq, Prod.mk.injEq] at hdone
                obtain ⟨hchunk, hsources⟩ := hdone
                subst hchunk
                exact .inr ⟨rfl, hrecompresses rfl, hsources.symm, j, rfl⟩

/-- The chunks of the target can be made from those of the source. -/
structure Parallel (lib : Library) (old new : Bytes) (srcBlocks tgtBlocks : Blocks)
    (sources targets : List (ImageChunk 32)) : Prop where
  types : sources.map ImageChunk.type = targets.map ImageChunk.type
  soundSources : ∀ chunk ∈ sources, Sound lib old srcBlocks chunk
  soundTargets : ∀ chunk ∈ targets, Sound lib new tgtBlocks chunk
  recompresses : ∀ chunk ∈ targets, chunk.type = chunkDeflate →
    Recompresses lib new tgtBlocks chunk

variable {old new : Bytes}

theorem Parallel.cons
    {source target : ImageChunk 32} {sources targets : List (ImageChunk 32)}
    (htype : source.type = target.type) (hsource : Sound lib old srcBlocks source)
    (htarget : Sound lib new tgtBlocks target)
    (hrecompresses : target.type = chunkDeflate → Recompresses lib new tgtBlocks target)
    (hparallel : Parallel lib old new srcBlocks tgtBlocks sources targets) :
    Parallel lib old new srcBlocks tgtBlocks (source :: sources) (target :: targets) := by
  constructor
  · simp [htype, hparallel.types]
  · intro chunk hchunk
    cases List.mem_cons.mp hchunk with
    | inl heq => rwa [heq]
    | inr hlater => exact hparallel.soundSources chunk hlater
  · intro chunk hchunk
    cases List.mem_cons.mp hchunk with
    | inl heq => rwa [heq]
    | inr hlater => exact hparallel.soundTargets chunk hlater
  · intro chunk hchunk
    cases List.mem_cons.mp hchunk with
    | inl heq => rwa [heq]
    | inr hlater => exact hparallel.recompresses chunk hlater

theorem modify_middle
    {front rest : List (ImageChunk 32)} {source : ImageChunk 32}
    (change : ImageChunk 32 → ImageChunk 32) :
    (front ++ source :: rest).modify front.length change = front ++ change source :: rest := by
  induction front with
  | nil => simp
  | cons first front ih =>
      rw [List.cons_append, List.length_cons, List.modify_succ_cons, ih, List.cons_append]

/-- One chunk is checked; `front` are the chunks of the source that are done. -/
theorem checkChunk_parallel
    {front rest sources' : List (ImageChunk 32)} {source target target' : ImageChunk 32}
    (hholds : Holds tgtBlocks new) (hsource : Sound tools.library old srcBlocks source)
    (htarget : Sound tools.library new tgtBlocks target) (htype : source.type = target.type)
    (hdone : checkChunk tools .image srcBlocks tgtBlocks (front ++ source :: rest) front.length
      target = .done (target', sources')) :
    ∃ source', sources' = front ++ source' :: rest ∧ source'.type = target'.type ∧
      Sound tools.library old srcBlocks source' ∧ Sound tools.library new tgtBlocks target' ∧
      (target'.type = chunkDeflate → Recompresses tools.library new tgtBlocks target') ∧
      source'.extent = source.extent ∧ target'.extent = target.extent := by
  rcases checkChunk_cases hholds htarget hdone with ⟨hnormal, htarget', hsources⟩ |
    ⟨params, found, hdeflate, hfound, ⟨htarget', hsources⟩ |
      ⟨htarget', hrecompresses, hsources, -⟩⟩
  · subst htarget'
    refine ⟨source, hsources, htype, hsource, htarget, ?_, rfl, rfl⟩
    intro hdeflate
    exact absurd (hnormal.symm.trans hdeflate) chunkNormal_ne_deflate
  · have hparams : (target.withParams params).type = chunkDeflate := hdeflate
    have hnormal : target'.type = chunkNormal := by
      rw [htarget']
      exact changeDeflateChunkToNormal_type hparams
    have hindex : found = some front.length := by
      simpa [Mode.sourceOf] using hfound.symm
    refine ⟨changeDeflateChunkToNormal source, ?_, ?_, hsource.changed, ?_, ?_, ?_, ?_⟩
    · rw [hsources, hindex, changeSource, modify_middle]
    · rw [hnormal]
      exact changeDeflateChunkToNormal_type (htype.trans hdeflate)
    · rw [htarget']
      exact (htarget.withParams params).changed
    · intro hother
      exact absurd (hnormal.symm.trans hother) chunkNormal_ne_deflate
    · exact changeDeflateChunkToNormal_extent source
    · rw [htarget']
      exact changeDeflateChunkToNormal_extent _
  · refine ⟨source, hsources, ?_, hsource, ?_, fun _ => hrecompresses, rfl, ?_⟩
    · rw [htarget']
      exact htype
    · rw [htarget']
      exact htarget.withParams params
    · rw [htarget']
      rfl

/-- All chunks are checked. -/
theorem checkChunks_parallel
    {front sources targets sources' targets' : List (ImageChunk 32)}
    (hholds : Holds tgtBlocks new)
    (hsources : ∀ chunk ∈ sources, Sound tools.library old srcBlocks chunk)
    (htargets : ∀ chunk ∈ targets, Sound tools.library new tgtBlocks chunk)
    (htypes : sources.map ImageChunk.type = targets.map ImageChunk.type)
    (hdone : checkChunks tools .image srcBlocks tgtBlocks front.length targets (front ++ sources) =
      .done (targets', sources')) :
    ∃ rest, sources' = front ++ rest ∧
      Parallel tools.library old new srcBlocks tgtBlocks rest targets' ∧
      rest.map ImageChunk.extent = sources.map ImageChunk.extent ∧
      targets'.map ImageChunk.extent = targets.map ImageChunk.extent := by
  induction targets generalizing front sources targets' sources' with
  | nil =>
      have hempty : sources = [] := by
        simpa using htypes
      simp only [checkChunks, Outcome.done.injEq, Prod.mk.injEq] at hdone
      obtain ⟨rfl, rfl⟩ := hdone
      subst hempty
      refine ⟨[], rfl, ?_, rfl, rfl⟩
      constructor <;> simp
  | cons target targets ih =>
      cases sources with
      | nil => simp at htypes
      | cons source sources =>
          simp only [List.map_cons, List.cons.injEq] at htypes
          obtain ⟨htype, htypes⟩ := htypes
          unfold checkChunks at hdone
          obtain ⟨⟨target', middle⟩, hcheck, hdone⟩ := bind_eq_done.mp hdone
          obtain ⟨source', hmiddle, htype', hsource', htarget', hrecompresses, hextent, hextent'⟩ :=
            checkChunk_parallel hholds (hsources source List.mem_cons_self)
              (htargets target List.mem_cons_self) htype hcheck
          have hfront : middle = (front ++ [source']) ++ sources := by
            rw [hmiddle, List.append_assoc, List.singleton_append]
          have hlength : front.length + 1 = (front ++ [source']).length := by
            simp
          obtain ⟨⟨rest, last⟩, hrest, hdone⟩ := bind_eq_done.mp hdone
          rw [hlength, hfront] at hrest
          simp only [Outcome.done.injEq, Prod.mk.injEq] at hdone
          obtain ⟨rfl, rfl⟩ := hdone
          obtain ⟨remaining, hlast, hparallel, hextents, hextents'⟩ := ih
            (fun chunk hchunk => hsources chunk (List.mem_cons_of_mem _ hchunk))
            (fun chunk hchunk => htargets chunk (List.mem_cons_of_mem _ hchunk)) htypes hrest
          refine ⟨source' :: remaining, ?_,
            hparallel.cons htype' hsource' htarget' hrecompresses, ?_, ?_⟩
          · rw [hlast, List.append_assoc, List.singleton_append]
          · simp [hextent, hextents]
          · simp [hextent', hextents']

/-- Merging the chunks on both sides keeps them parallel. -/
theorem Parallel.merged
    {sources targets : List (ImageChunk 32)}
    (hparallel : Parallel lib old new srcBlocks tgtBlocks sources targets)
    (hold : old.length < 2 ^ 32) (hnew : new.length < 2 ^ 32)
    (hsources : Tiles old.length sources 0) (htargets : Tiles new.length targets 0) :
    Parallel lib old new srcBlocks tgtBlocks (mergedChunks sources) (mergedChunks targets) ∧
      Tiles new.length (mergedChunks targets) 0 := by
  obtain ⟨hsources', -⟩ := mergedChunks_tiles hold hparallel.soundSources hsources
  obtain ⟨htargets', htiles⟩ := mergedChunks_tiles hnew hparallel.soundTargets htargets
  refine ⟨?_, htiles⟩
  constructor
  · rw [mergedChunks_types hparallel.soundSources hsources, hparallel.types,
      mergedChunks_types hparallel.soundTargets htargets]
  · exact hsources'
  · exact htargets'
  · intro chunk hchunk htype
    exact hparallel.recompresses chunk (mergedChunks_deflate hchunk htype) htype

/-! ## The patches -/

theorem bsdiff_patches
    {before after body : Bytes} (hreliable : tools.Reliable) (hbefore : before.length < 2 ^ 31)
    (hafter : after.length < 2 ^ 31)
    (hbody : BsDiff.bsdiff tools.bzip2 (tools.qsufsort before) before after tools.stale =
      .ok body) : Patches tools.library body before after := by
  intro view front back patch offset hshows hpatch hoffset hsmall
  exact BsDiff.bsdiff_embedded hreliable.lossless (hreliable.index before) hbody hbefore hafter
    hshows (hreliable.allocates _) hpatch hoffset hsmall

/-- The patch of a normal chunk is between the bytes of the two chunks, or it is the
target itself. -/
theorem makePatch_normal
    {source target : ImageChunk 32} {patched : ImageChunk 32 × Bytes} (hreliable : tools.Reliable)
    (hsrcHolds : Holds srcBlocks old) (htgtHolds : Holds tgtBlocks new)
    (hold : old.length < 2 ^ 31) (hnew : new.length < 2 ^ 31)
    (hsource : Sound tools.library old srcBlocks source)
    (htarget : Sound tools.library new tgtBlocks target) (hsourceType : source.type = chunkNormal)
    (htype : target.type = chunkNormal)
    (hdone : makePatch tools srcBlocks tgtBlocks source target = .done patched) :
    Produces tools.library old patched (target.bytesOf new) := by
  have hsourceFits := hsource.fits
  have htargetFits := htarget.fits
  have hsourceLength := hsource.bytesOf_length
  have htargetLength := htarget.bytesOf_length
  unfold makePatch at hdone
  rw [htarget.readData_normal htgtHolds htype, done_bind] at hdone
  split_ifs at hdone with hshort
  · injection hdone with hdone
    rw [← hdone]
    exact .raw rfl
  · rw [hsource.readData_normal hsrcHolds hsourceType, done_bind] at hdone
    split at hdone
    · cases hdone
    · rename_i body hbody
      split_ifs at hdone with hlong
      · injection hdone with hdone
        rw [← hdone]
        exact .raw rfl
      · injection hdone with hdone
        rw [← hdone]
        rw [span_normal hsourceType] at hsourceFits hsourceLength
        have hbytes : ImageChunk.sourceBytes
            { target with sourceStart := source.start, sourceLen := source.len } old =
            source.bytesOf old := by
          rw [ImageChunk.bytesOf, span_normal hsourceType]
          rfl
        refine .normal htype hsourceFits ?_
        rw [hbytes]
        exact bsdiff_patches hreliable (by omega) (by omega) hbody

/-- The patch of a deflate chunk is between the inflated data of the two chunks. -/
theorem makePatch_deflate
    {source target : ImageChunk 32} {patched : ImageChunk 32 × Bytes} (hreliable : tools.Reliable)
    (hsource : Sound tools.library old srcBlocks source)
    (htarget : Sound tools.library new tgtBlocks target) (hsourceType : source.type = chunkDeflate)
    (htype : target.type = chunkDeflate)
    (hrecompresses : Recompresses tools.library new tgtBlocks target)
    (hdone : makePatch tools srcBlocks tgtBlocks source target = .done patched) :
    Produces tools.library old patched (target.bytesOf new) := by
  have hnormal : target.type ≠ chunkNormal := by
    rw [htype]
    exact chunkNormal_ne_deflate.symm
  have hfits := hsource.fits
  rw [span_deflate hsourceType] at hfits
  obtain ⟨before, used, hread, -, hinflate, hlen, hbefore⟩ := hsource.readData_deflate hsourceType
  obtain ⟨after, used', hread', hdata, hinflate', hlen', hafter⟩ := htarget.readData_deflate htype
  obtain ⟨hparams, hdeflate⟩ := hrecompresses
  unfold makePatch at hdone
  rw [hread', done_bind, if_neg (not_and_of_not_left _ hnormal), hread, done_bind] at hdone
  split at hdone
  · cases hdone
  · rename_i body hbody
    rw [if_neg (not_and_of_not_left _ hnormal), if_neg hnormal, if_pos htype] at hdone
    injection hdone with hdone
    rw [← hdone]
    have hsourceBytes : tools.library.inflate (ImageChunk.sourceBytes
        { target with
          sourceStart := source.start, sourceLen := source.deflateLen,
          sourceUncompressedLen := source.len } old) = some (before, used) := by
      rw [← hinflate, ImageChunk.bytesOf, span_deflate hsourceType]
      rfl
    have hpatches := bsdiff_patches hreliable hbefore hafter hbody
    refine .deflate htype hfits hsourceBytes hlen hbefore hpatches ?_ ?_
    · constructor
      · exact hparams.level
      · exact hparams.method
      · exact hparams.windowBits
      · exact hparams.memLevel
      · exact hparams.strategy
    · rw [hdata]
      exact hdeflate

theorem makePatch_produces
    {source target : ImageChunk 32} {patched : ImageChunk 32 × Bytes} (hreliable : tools.Reliable)
    (hsrcHolds : Holds srcBlocks old) (htgtHolds : Holds tgtBlocks new)
    (hold : old.length < 2 ^ 31) (hnew : new.length < 2 ^ 31)
    (hsource : Sound tools.library old srcBlocks source)
    (htarget : Sound tools.library new tgtBlocks target) (htype : source.type = target.type)
    (hrecompresses : target.type = chunkDeflate → Recompresses tools.library new tgtBlocks target)
    (hdone : makePatch tools srcBlocks tgtBlocks source target = .done patched) :
    Produces tools.library old patched (target.bytesOf new) := by
  cases htarget.type_cases with
  | inl hnormal =>
      exact makePatch_normal hreliable hsrcHolds htgtHolds hold hnew hsource htarget
        (htype.trans hnormal) hnormal hdone
  | inr hdeflate =>
      exact makePatch_deflate hreliable hsource htarget (htype.trans hdeflate) hdeflate
        (hrecompresses hdeflate) hdone

theorem makePatches_produces
    {front sources targets : List (ImageChunk 32)} {patches : List (ImageChunk 32 × Bytes)}
    (hreliable : tools.Reliable) (hsrcHolds : Holds srcBlocks old) (htgtHolds : Holds tgtBlocks new)
    (hold : old.length < 2 ^ 31) (hnew : new.length < 2 ^ 31)
    (hparallel : Parallel tools.library old new srcBlocks tgtBlocks sources targets)
    (hdone : makePatches tools .image srcBlocks tgtBlocks (front ++ sources) front.length targets =
      .done patches) :
    List.Forall₂ (Produces tools.library old) patches
      (targets.map fun chunk => chunk.bytesOf new) := by
  induction targets generalizing front sources patches with
  | nil =>
      simp only [makePatches, Outcome.done.injEq] at hdone
      subst hdone
      simp
  | cons target targets ih =>
      have htypes := hparallel.types
      cases sources with
      | nil => simp at htypes
      | cons source sources =>
          simp only [List.map_cons, List.cons.injEq] at htypes
          obtain ⟨htype, htypes⟩ := htypes
          have hslot : slot (front ++ source :: sources) front.length = source := by
            simp [slot]
          unfold makePatches at hdone
          rw [Mode.patchSource, hslot, done_bind] at hdone
          obtain ⟨patched, hmake, hdone⟩ := bind_eq_done.mp hdone
          obtain ⟨rest, hrest, hdone⟩ := bind_eq_done.mp hdone
          injection hdone with hdone
          subst hdone
          have hfront : front ++ source :: sources = (front ++ [source]) ++ sources := by
            simp
          have hlength : front.length + 1 = (front ++ [source]).length := by
            simp
          rw [hfront, hlength] at hrest
          have hparallel' : Parallel tools.library old new srcBlocks tgtBlocks sources targets := by
            constructor
            · exact htypes
            · exact fun chunk hchunk => hparallel.soundSources chunk (List.mem_cons_of_mem _ hchunk)
            · exact fun chunk hchunk => hparallel.soundTargets chunk (List.mem_cons_of_mem _ hchunk)
            · exact fun chunk hchunk => hparallel.recompresses chunk (List.mem_cons_of_mem _ hchunk)
          have hproduces := makePatch_produces hreliable hsrcHolds htgtHolds hold hnew
            (hparallel.soundSources source List.mem_cons_self)
            (hparallel.soundTargets target List.mem_cons_self) htype
            (hparallel.recompresses target List.mem_cons_self) hmake
          exact .cons hproduces (ih hparallel' hrest)

end ImgDiff
end OpenRecovery
