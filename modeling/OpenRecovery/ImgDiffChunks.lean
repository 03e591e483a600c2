import OpenRecovery.ImgDiffMain
import OpenRecovery.ImgDiffMerge
import OpenRecovery.ImgDiffReading
import OpenRecovery.EmbeddedPatches
import Mathlib

/-!
# What the chunks of an image stay

Chunks that were read, changed to normal ones and merged still stand for the same
bytes of the file.  The chunks of both images keep their parallel structure.
-/

namespace OpenRecovery
namespace ImgDiff

variable {lib : Library} {bytes : Bytes} {blocks : Blocks}

theorem bind_eq_done
    {α β : Type} {outcome : Outcome α} {rest : α → Outcome β} {value : β} :
    (outcome >>= rest) = .done value ↔
      ∃ middle, outcome = .done middle ∧ rest middle = .done value := by
  cases outcome <;> simp

/-! ## Chunks of a file -/

/-- The bytes of the file that a chunk covers. -/
def ImageChunk.bytesOf (chunk : ImageChunk 32) (bytes : Bytes) : Bytes :=
  (bytes.drop chunk.start.toNat).take chunk.span

/-- Where a chunk starts and how much it covers. -/
def ImageChunk.extent (chunk : ImageChunk 32) : Nat × Nat :=
  (chunk.start.toNat, chunk.span)

/-- The data of a chunk is what its bytes in the file stand for. -/
inductive Sound (lib : Library) (bytes : Bytes) (blocks : Blocks) (chunk : ImageChunk 32) : Prop
  | normal (htype : chunk.type = chunkNormal) (hdata : chunk.data = ⟨0, chunk.start.toNat⟩)
      (hfits : chunk.start.toNat + chunk.len.toNat ≤ bytes.length)
  | deflate (htype : chunk.type = chunkDeflate)
      (hdeflateData : chunk.deflateData = ⟨0, chunk.start.toNat⟩) (hdata : chunk.data.offset = 0)
      (hfits : chunk.start.toNat + chunk.deflateLen.toNat ≤ bytes.length) (used : Nat)
      (hinflate : lib.inflate ((bytes.drop chunk.start.toNat).take chunk.deflateLen.toNat) =
        some (blocks chunk.data.block, used))
      (hlen : (blocks chunk.data.block).length = chunk.len.toNat)
      (hsmall : chunk.len.toNat < 2 ^ 31)

/-- The first block holds the file. -/
def Holds (blocks : Blocks) (bytes : Bytes) : Prop :=
  bytes <+: blocks 0

theorem chunkNormal_ne_deflate : chunkNormal ≠ chunkDeflate := by
  decide

theorem span_normal {chunk : ImageChunk 32} (htype : chunk.type = chunkNormal) :
    chunk.span = chunk.len.toNat := by
  simp [ImageChunk.span, htype, chunkNormal_ne_deflate]

theorem span_deflate {chunk : ImageChunk 32} (htype : chunk.type = chunkDeflate) :
    chunk.span = chunk.deflateLen.toNat := by
  simp [ImageChunk.span, htype]

theorem Sound.type_cases
    {chunk : ImageChunk 32} (hsound : Sound lib bytes blocks chunk) :
    chunk.type = chunkNormal ∨ chunk.type = chunkDeflate := by
  cases hsound with
  | normal htype => exact .inl htype
  | deflate htype => exact .inr htype

theorem Sound.fits
    {chunk : ImageChunk 32} (hsound : Sound lib bytes blocks chunk) :
    chunk.start.toNat + chunk.span ≤ bytes.length := by
  cases hsound with
  | normal htype hdata hfits => rwa [span_normal htype]
  | deflate htype hdeflateData hdata hfits used => rwa [span_deflate htype]

theorem Sound.bytesOf_length
    {chunk : ImageChunk 32} (hsound : Sound lib bytes blocks chunk) :
    (chunk.bytesOf bytes).length = chunk.span := by
  have hfits := hsound.fits
  unfold ImageChunk.bytesOf
  rw [List.length_take, List.length_drop]
  omega

theorem readBlock_file
    (hholds : Holds blocks bytes) {start len : Nat} (hfits : start + len ≤ bytes.length) :
    readBlock blocks ⟨0, start⟩ len = .done ((bytes.drop start).take len) := by
  obtain ⟨rest, hrest⟩ := hholds
  have hlength : start + len ≤ (blocks 0).length := by
    rw [← hrest, List.length_append]
    omega
  have hdrop : (bytes ++ rest).drop start = bytes.drop start ++ rest := by
    apply List.drop_append_of_le_length
    omega
  have htake : (bytes.drop start ++ rest).take len = (bytes.drop start).take len := by
    apply List.take_append_of_le_length
    rw [List.length_drop]
    omega
  unfold readBlock
  rw [if_pos hlength, ← hrest, hdrop, htake]

theorem Sound.readData_normal
    {chunk : ImageChunk 32} (hsound : Sound lib bytes blocks chunk) (hholds : Holds blocks bytes)
    (htype : chunk.type = chunkNormal) :
    chunk.readData blocks = .done (chunk.bytesOf bytes) := by
  cases hsound with
  | normal _ hdata hfits =>
      unfold ImageChunk.readData ImageChunk.bytesOf
      rw [hdata, readBlock_file hholds hfits, span_normal htype]
  | deflate hdeflate => exact absurd (htype.symm.trans hdeflate) chunkNormal_ne_deflate

/-- A deflate chunk has the inflated data, and its own bytes can be inflated. -/
theorem Sound.readData_deflate
    {chunk : ImageChunk 32} (hsound : Sound lib bytes blocks chunk)
    (htype : chunk.type = chunkDeflate) :
    ∃ data used, chunk.readData blocks = .done data ∧ data = blocks chunk.data.block ∧
      lib.inflate (chunk.bytesOf bytes) = some (data, used) ∧ data.length = chunk.len.toNat ∧
      data.length < 2 ^ 31 := by
  cases hsound with
  | normal hnormal => exact absurd (hnormal.symm.trans htype) chunkNormal_ne_deflate
  | deflate _ hdeflateData hdata hfits used hinflate hlen hsmall =>
      refine ⟨blocks chunk.data.block, used, ?_, rfl, ?_, hlen, by rwa [hlen]⟩
      · unfold ImageChunk.readData readBlock
        rw [hdata, Nat.zero_add, ← hlen, if_pos (Nat.le_refl _), List.drop_zero, List.take_length]
      · unfold ImageChunk.bytesOf
        rwa [span_deflate htype]

/-! ## Chunks that cover a file -/

theorem tiles_congr
    {size pos : Nat} {chunks others : List (ImageChunk 32)}
    (hextents : others.map ImageChunk.extent = chunks.map ImageChunk.extent)
    (htiles : Tiles size chunks pos) : Tiles size others pos := by
  induction chunks generalizing others pos with
  | nil =>
      rw [List.map_nil, List.map_eq_nil_iff] at hextents
      rwa [hextents]
  | cons chunk chunks ih =>
      cases others with
      | nil => simp at hextents
      | cons other others =>
          simp only [List.map_cons, List.cons.injEq, ImageChunk.extent, Prod.mk.injEq] at hextents
          obtain ⟨⟨hstart, hspan⟩, hrest⟩ := hextents
          obtain ⟨hpos, hfits, htiles⟩ := htiles
          refine ⟨hstart.trans hpos, ?_, ?_⟩
          · rwa [hspan]
          · rw [hspan]
            exact ih hrest htiles

theorem tiles_fits
    {size pos : Nat} {chunks : List (ImageChunk 32)} {chunk : ImageChunk 32}
    (htiles : Tiles size chunks pos) (hchunk : chunk ∈ chunks) :
    chunk.start.toNat + chunk.span ≤ size := by
  induction chunks generalizing pos with
  | nil => cases hchunk
  | cons first rest ih =>
      obtain ⟨hstart, hfits, hrest⟩ := htiles
      cases List.mem_cons.mp hchunk with
      | inl heq => rwa [heq, hstart]
      | inr hlater => exact ih hrest hlater

theorem tiles_bytes
    {pos : Nat} {chunks : List (ImageChunk 32)} (htiles : Tiles bytes.length chunks pos) :
    (chunks.map fun chunk => chunk.bytesOf bytes).flatten = bytes.drop pos := by
  induction chunks generalizing pos with
  | nil =>
      have hend : pos = bytes.length := htiles
      simp [hend]
  | cons chunk chunks ih =>
      obtain ⟨hstart, hfits, hrest⟩ := htiles
      rw [List.map_cons, List.flatten_cons, ih hrest, ImageChunk.bytesOf, hstart,
        ← List.drop_drop]
      exact List.take_append_drop _ _

/-- How much some chunks cover together. -/
def spans (chunks : List (ImageChunk 32)) : Nat :=
  (chunks.map ImageChunk.span).sum

theorem spans_append (left right : List (ImageChunk 32)) :
    spans (left ++ right) = spans left + spans right := by
  simp [spans]

theorem tiles_append
    {size pos : Nat} {left right : List (ImageChunk 32)} (htiles : Tiles size (left ++ right) pos) :
    Tiles size right (pos + spans left) := by
  induction left generalizing pos with
  | nil => simpa [spans] using htiles
  | cons chunk left ih =>
      obtain ⟨-, -, hrest⟩ := htiles
      have hright := ih hrest
      rwa [Nat.add_assoc] at hright

theorem Tiles.le
    {size pos : Nat} {chunks : List (ImageChunk 32)} (htiles : Tiles size chunks pos) :
    pos ≤ size := by
  cases chunks with
  | nil => exact Nat.le_of_eq htiles
  | cons chunk chunks =>
      obtain ⟨-, hfits, -⟩ := htiles
      omega

/-- Sound normal chunks that cover a file are contiguous. -/
theorem solid_of_tiles
    {pos : Nat} {chunks : List (ImageChunk 32)}
    (hsound : ∀ chunk ∈ chunks, Sound lib bytes blocks chunk)
    (htiles : Tiles bytes.length chunks pos) : Solid chunks := by
  induction chunks generalizing pos with
  | nil => exact List.isChain_nil
  | cons previous chunks ih =>
      obtain ⟨hprevious, hfits, hrest⟩ := htiles
      have htail := ih (fun chunk hchunk => hsound chunk (List.mem_cons_of_mem _ hchunk)) hrest
      cases chunks with
      | nil => exact List.isChain_singleton _
      | cons chunk chunks =>
          refine List.isChain_cons_cons.mpr ⟨?_, htail⟩
          intro hnormal hnormal'
          obtain ⟨hstart, -, -⟩ := hrest
          rw [span_normal hnormal] at hstart hfits
          have hdata : ∀ member ∈ previous :: chunk :: chunks, member.type = chunkNormal →
              member.data = ⟨0, member.start.toNat⟩ := by
            intro member hmember htype
            cases hsound member hmember with
            | normal _ hdata => exact hdata
            | deflate hdeflate => exact absurd (htype.symm.trans hdeflate) chunkNormal_ne_deflate
          refine ⟨hnormal', ?_, ?_⟩
          · apply BitVec.eq_of_toNat_eq
            rw [BitVec.toNat_add, hprevious, hstart, Nat.mod_eq_of_lt (by omega)]
          · rw [hdata chunk (by simp) hnormal', hdata previous (by simp) hnormal, hprevious, hstart]
            rfl

/-! ## Chunks that were read -/

/-- A chunk as `ReadImage` leaves it in a slot of its array. -/
def FreshAt (lib : Library) (bytes : Bytes) (i : Nat) (chunk : ImageChunk 32) : Prop :=
  (chunk.type = chunkNormal ∧ chunk.data = ⟨0, chunk.start.toNat⟩) ∨
    (chunk.type = chunkDeflate ∧ chunk.deflateData = ⟨0, chunk.start.toNat⟩ ∧
      chunk.data = ⟨i + 1, 0⟩ ∧ ∃ data,
        lib.inflate (bytes.drop chunk.start.toNat) = some (data, chunk.deflateLen.toNat) ∧
          data.length = chunk.len.toNat)

/-- All chunks are as `ReadImage` leaves them. -/
def Fresh (lib : Library) (bytes : Bytes) (chunks : List (ImageChunk 32)) : Prop :=
  ∀ i (hi : i < chunks.length), FreshAt lib bytes i chunks[i]

/-- What `imgdiff` relies on in the libraries: compression is lossless and ends where
its data ends, both programs inflate alike, and memory can be allocated. -/
structure Tools.Reliable (tools : Tools) : Prop where
  lossless : ∀ data, BsDiff.Decompresses tools.library (tools.bzip2 data) data
  index : ∀ old, BsDiff.IndexOf (tools.qsufsort old) old
  decodes : ∀ input, tools.zlib.decode input =
    (tools.library.inflate input).map fun inflated => (inflated.1.length, inflated.2)
  stops : ∀ input data used, tools.library.inflate input = some (data, used) →
    tools.library.inflate (input.take used) = some (data, used)
  allocates : ∀ size, tools.library.malloc size = true

variable {tools : Tools}

theorem fresh_append
    {left right : List (ImageChunk 32)} (hleft : Fresh lib bytes left)
    (hright : ∀ i (hi : i < right.length), FreshAt lib bytes (left.length + i) right[i]) :
    Fresh lib bytes (left ++ right) := by
  intro i hi
  rw [List.length_append] at hi
  rw [List.getElem_append]
  split_ifs with hinside
  · exact hleft i hinside
  · have hfresh := hright (i - left.length) (by omega)
    rwa [Nat.add_sub_cancel' (by omega)] at hfresh

theorem normalChunk_fresh
    {pos len i : Nat} (hpos : pos < 2 ^ 32) : FreshAt lib bytes i (normalChunk pos len) := by
  refine .inl ⟨rfl, ?_⟩
  change (⟨0, pos⟩ : Pointer) = ⟨0, (BitVec.ofNat 32 pos).toNat⟩
  rw [BitVec.toNat_ofNat, Nat.mod_eq_of_lt hpos]

theorem memberChunks_fresh
    {file : ImageFile} {pos total used numChunks : Nat} (hreliable : tools.Reliable)
    (hdecode : tools.zlib.decode (file.bytes.drop (pos + 10)) = some (total, used))
    (htotal : total ≤ 2 ^ 31) (hused : pos + 10 + used ≤ file.size) :
    ∀ i (hi : i < (memberChunks pos total used numChunks).length),
      FreshAt tools.library file.bytes (numChunks + i)
        (memberChunks pos total used numChunks)[i] := by
  have hsize := size_lt file
  rw [hreliable.decodes] at hdecode
  obtain ⟨inflated, hinflate, hboth⟩ := Option.map_eq_some_iff.mp hdecode
  simp only [Prod.mk.injEq] at hboth
  have hstart : (BitVec.ofNat 32 (pos + 10)).toNat = pos + 10 := by
    rw [BitVec.toNat_ofNat, Nat.mod_eq_of_lt (by omega)]
  have hlen : (BitVec.ofNat 32 total).toNat = total := by
    rw [BitVec.toNat_ofNat, Nat.mod_eq_of_lt (by omega)]
  have hdeflateLen : (BitVec.ofNat 32 used).toNat = used := by
    rw [BitVec.toNat_ofNat, Nat.mod_eq_of_lt (by omega)]
  have hdeflate : FreshAt tools.library file.bytes (numChunks + 1)
      (deflateChunk (numChunks + 2) (pos + 10) used total) := by
    refine .inr ⟨rfl, ?_, rfl, inflated.1, ?_, ?_⟩
    · change (⟨0, pos + 10⟩ : Pointer) = ⟨0, (BitVec.ofNat 32 (pos + 10)).toNat⟩
      rw [hstart]
    · change tools.library.inflate (file.bytes.drop (BitVec.ofNat 32 (pos + 10)).toNat) =
        some (inflated.1, (BitVec.ofNat 32 used).toNat)
      rw [hstart, hdeflateLen, hinflate, ← hboth.2]
    · change inflated.1.length = (BitVec.ofNat 32 total).toNat
      rw [hlen, hboth.1]
  intro i hi
  have hcases : i = 0 ∨ i = 1 ∨ i = 2 := by
    simp only [memberChunks, List.length_cons, List.length_nil] at hi
    omega
  rcases hcases with rfl | rfl | rfl
  · exact normalChunk_fresh (by omega)
  · exact hdeflate
  · exact normalChunk_fresh (by omega)

theorem readLoop_fresh
    {file : ImageFile} {fuel pos : Nat} {chunks result : List (ImageChunk 32)}
    (hreliable : tools.Reliable) (hdone : readLoop tools.zlib file fuel pos chunks = .done result)
    (hfresh : Fresh tools.library file.bytes chunks) : Fresh tools.library file.bytes result := by
  have hsize := size_lt file
  induction fuel generalizing pos chunks with
  | zero => cases hdone
  | succ fuel ih =>
      rw [readLoop_succ] at hdone
      split_ifs at hdone with hmore hmember
      · have hrunning : readMember tools.zlib file fuel pos chunks.length ≠ .running := by
          intro hrun
          rw [hrun] at hdone
          cases hdone
        have hstuck : ∀ reason, readMember tools.zlib file fuel pos chunks.length ≠
            .stuck reason := by
          intro reason hrun
          rw [hrun] at hdone
          cases hdone
        obtain ⟨hbody, total, used, hdecode, htotal, hfooter, heq⟩ :=
          readMember_returns hrunning hstuck
        rw [heq] at hdone
        split_ifs at hdone with hdiffers
        · cases hdone
        · rw [done_bind] at hdone
          exact ih hdone (fresh_append hfresh
            (memberChunks_fresh hreliable hdecode htotal (used_le hbody hdecode)))
      · refine ih hdone (fresh_append hfresh ?_)
        intro i hi
        have hzero : i = 0 := by
          simpa using hi
        subst hzero
        exact normalChunk_fresh (by omega)
      · injection hdone with hsame
        rwa [← hsame]

theorem blocksOf_deflate
    {img data : Bytes} {input : ImageChunk 32 → Bytes} {chunks : List (ImageChunk 32)} {i used : Nat}
    (htype : (slot chunks i).type = chunkDeflate)
    (hinflate : tools.library.inflate (input (slot chunks i)) = some (data, used)) :
    blocksOf tools img input chunks (i + 1) = data := by
  simp [blocksOf, htype, hinflate]

/-- The chunks that were read from a file are sound if they cover it. -/
theorem readImage_sound
    {file : ImageFile} {fuel : Nat} {chunks : List (ImageChunk 32)} (hreliable : tools.Reliable)
    (hdone : readImage tools.zlib file fuel = .done chunks)
    (htiles : Tiles file.size chunks 0) (hsmall : ∀ chunk ∈ chunks, chunk.len.toNat < 2 ^ 31) :
    ∀ chunk ∈ chunks, Sound tools.library file.bytes (file.blocks tools chunks) chunk := by
  have hempty : Fresh tools.library file.bytes [] := by
    intro i hi
    simp at hi
  have hfresh := readLoop_fresh hreliable hdone hempty
  intro chunk hchunk
  have hfits := tiles_fits htiles hchunk
  have hlenSmall := hsmall chunk hchunk
  obtain ⟨i, hi, rfl⟩ := List.getElem_of_mem hchunk
  cases hfresh i hi with
  | inl hnormal =>
      obtain ⟨htype, hdata⟩ := hnormal
      rw [span_normal htype] at hfits
      exact .normal htype hdata hfits
  | inr hdeflate =>
      obtain ⟨htype, hdeflateData, hdata, data, hinflate, hlen⟩ := hdeflate
      rw [span_deflate htype] at hfits
      have hblock : file.blocks tools chunks chunks[i].data.block = data := by
        have hslot : (slot chunks i).type = chunkDeflate := by
          rwa [slot_eq hi]
        rw [← slot_eq hi] at hinflate
        rw [hdata]
        exact blocksOf_deflate hslot hinflate
      have hstops := hreliable.stops _ _ _ hinflate
      refine .deflate htype hdeflateData ?_ hfits chunks[i].deflateLen.toNat ?_ ?_ hlenSmall
      · rw [hdata]
      · rw [hblock]
        exact hstops
      · rw [hblock]
        exact hlen

/-! ## Merging -/

/-- Merging keeps the place of a run and its soundness. -/
theorem Merged.tiles
    {pos : Nat} {run rest : List (ImageChunk 32)} {chunk : ImageChunk 32}
    (hmerged : Merged run chunk) (hbytes : bytes.length < 2 ^ 32)
    (hchain : run.IsChain fun previous chunk => adjoins previous chunk = true)
    (hsound : ∀ member ∈ run, Sound lib bytes blocks member)
    (htiles : Tiles bytes.length (run ++ rest) pos) :
    Sound lib bytes blocks chunk ∧ chunk.start.toNat = pos ∧ chunk.span = spans run := by
  cases hmerged with
  | single chunk =>
      obtain ⟨hstart, -, -⟩ := htiles
      exact ⟨hsound chunk List.mem_cons_self, hstart, by simp [spans]⟩
  | run first last chunk middle htype hstart hdata hlen =>
      have hnormal : ∀ member ∈ first :: (middle ++ [last]), member.type = chunkNormal := by
        cases middle with
        | nil => exact normal_of_chain hchain
        | cons second middle => exact normal_of_chain hchain
      have hfirst : first.start.toNat = pos := htiles.1
      have hwhole := (tiles_append htiles).le
      rw [← List.cons_append, List.append_assoc] at htiles
      obtain ⟨hlast, hfits, -⟩ := tiles_append htiles
      have hlastSpan := span_normal (hnormal last (by simp))
      have hspans : spans (first :: (middle ++ [last])) = spans (first :: middle) + last.span := by
        rw [← List.cons_append, spans_append]
        simp [spans]
      have hchunkLen : chunk.len.toNat = spans (first :: (middle ++ [last])) := by
        have hfirstLt := first.start.isLt
        rw [hspans, hlastSpan, hlen, BitVec.toNat_add, BitVec.toNat_sub, hfirst, hlast]
        rw [hspans] at hwhole
        omega
      have hspan : chunk.span = spans (first :: (middle ++ [last])) :=
        (span_normal htype).trans hchunkLen
      refine ⟨.normal htype ?_ ?_, ?_, hspan⟩
      · cases hsound first List.mem_cons_self with
        | normal _ hfirstData => rw [hdata, hfirstData, hstart]
        | deflate hdeflate =>
            exact absurd ((hnormal first List.mem_cons_self).symm.trans hdeflate)
              chunkNormal_ne_deflate
      · rw [hstart, hfirst, hchunkLen]
        exact hwhole
      · rw [hstart, hfirst]

theorem mergedChunks_runs (chunks : List (ImageChunk 32)) :
    List.Forall₂ Merged (chunks.splitBy adjoins) (mergedChunks chunks) := by
  have hruns := (mergeAdjacentNormalChunks_runs (Nat.le_refl chunks.length)).2.2
  rwa [List.take_length] at hruns

theorem tiles_of_runs
    {pos : Nat} {runs : List (List (ImageChunk 32))} {merged : List (ImageChunk 32)}
    (hbytes : bytes.length < 2 ^ 32) (hmerged : List.Forall₂ Merged runs merged)
    (hchain : ∀ run ∈ runs, run.IsChain fun previous chunk => adjoins previous chunk = true)
    (hsound : ∀ chunk ∈ runs.flatten, Sound lib bytes blocks chunk)
    (htiles : Tiles bytes.length runs.flatten pos) :
    (∀ chunk ∈ merged, Sound lib bytes blocks chunk) ∧ Tiles bytes.length merged pos := by
  induction hmerged generalizing pos with
  | nil => exact ⟨by simp, htiles⟩
  | @cons run chunk runs merged hhead htail ih =>
      rw [List.flatten_cons] at hsound htiles
      obtain ⟨hchunk, hstart, hspan⟩ := hhead.tiles hbytes (hchain run List.mem_cons_self)
        (fun member hmember => hsound member (List.mem_append_left _ hmember)) htiles
      have hrest := tiles_append htiles
      obtain ⟨hmerged, htiles'⟩ := ih
        (fun run hrun => hchain run (List.mem_cons_of_mem _ hrun))
        (fun member hmember => hsound member (List.mem_append_right _ hmember)) hrest
      constructor
      · intro member hmember
        cases List.mem_cons.mp hmember with
        | inl heq => rwa [heq]
        | inr hlater => exact hmerged member hlater
      · refine ⟨hstart, ?_, ?_⟩
        · rw [hspan]
          exact hrest.le
        · rwa [hspan]

/-- The merged chunks are sound and cover the file as the chunks did. -/
theorem mergedChunks_tiles
    {chunks : List (ImageChunk 32)} (hbytes : bytes.length < 2 ^ 32)
    (hsound : ∀ chunk ∈ chunks, Sound lib bytes blocks chunk)
    (htiles : Tiles bytes.length chunks 0) :
    (∀ chunk ∈ mergedChunks chunks, Sound lib bytes blocks chunk) ∧
      Tiles bytes.length (mergedChunks chunks) 0 := by
  have hflatten := List.flatten_splitBy adjoins chunks
  apply tiles_of_runs hbytes (mergedChunks_runs chunks)
  · intro run hrun
    exact List.isChain_of_mem_splitBy hrun
  · rwa [hflatten]
  · rwa [hflatten]

/-- The types of the merged chunks are determined by those of the chunks. -/
theorem mergedChunks_types
    {chunks : List (ImageChunk 32)} (hsound : ∀ chunk ∈ chunks, Sound lib bytes blocks chunk)
    (htiles : Tiles bytes.length chunks 0) :
    (mergedChunks chunks).map ImageChunk.type = collapse (chunks.map ImageChunk.type) := by
  have hsolid := solid_of_tiles hsound htiles
  have htypes := @merge_types 32 chunks chunks.length (Nat.le_refl _) (by rwa [List.take_length])
  rwa [List.take_length] at htypes

/-- A merged deflate chunk was one before. -/
theorem mergedChunks_deflate
    {chunks : List (ImageChunk 32)} {chunk : ImageChunk 32} (hmem : chunk ∈ mergedChunks chunks)
    (htype : chunk.type = chunkDeflate) : chunk ∈ chunks := by
  have hruns : ∀ runs merged, List.Forall₂ Merged runs merged → chunk ∈ merged →
      chunk ∈ runs.flatten := by
    intro runs merged hmerged hchunk
    induction hmerged with
    | nil => simp at hchunk
    | @cons run other runs merged hhead htail ih =>
        rw [List.flatten_cons, List.mem_append]
        cases List.mem_cons.mp hchunk with
        | inl heq =>
            subst heq
            cases hhead with
            | single chunk => exact .inl List.mem_cons_self
            | run first last chunk middle hnormal =>
                exact absurd (hnormal.symm.trans htype) chunkNormal_ne_deflate
        | inr hlater => exact .inr (ih hlater)
  have hflatten := hruns _ _ (mergedChunks_runs chunks) hmem
  rwa [List.flatten_splitBy] at hflatten

end ImgDiff
end OpenRecovery
