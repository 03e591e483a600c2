import OpenRecovery.ImgDiffMain
import OpenRecovery.ImgPatchOutput
import OpenRecovery.EmbeddedPatches
import Mathlib

/-!
# The layout of an image patch

A chunk of a patch is read at its place between what was written before it and what
was written behind it.  Its binary patch stands further behind, among those of the
other chunks.
-/

namespace OpenRecovery
namespace ImgDiff

open BsDiff Words

variable {lib : Library} {old patch : Bytes}

/-! ## Words -/

theorem write4_length (value : Int) : (write4 value).length = 4 := by
  simp [write4]

theorem write8_length (value : BitVec 32) : (write8 value).length = 8 := by
  simp [write8]

theorem read4_write4
    {value : Int} (hlow : -2 ^ 31 ≤ value) (hhigh : value < 2 ^ 31) (rest : Bytes) :
    read4 (write4 value ++ rest) = value := by
  have hword : leNat (write4 value) = (value % 2 ^ 32).toNat := by
    unfold write4
    apply leNat_leBytes_of_lt
    omega
  have hnonneg : ((value % 2 ^ 32).toNat : Int) = value % 2 ^ 32 := by
    omega
  have hwrap : wrap32 (value % 2 ^ 32) = wrap32 value := by
    unfold wrap32
    exact Int.emod_bmod value (2 ^ 32)
  unfold read4
  rw [List.take_left' (write4_length value), hword, hnonneg, hwrap]
  exact wrap32_of_range hlow hhigh

theorem read8_write8 (value : BitVec 32) (rest : Bytes) :
    read8 (write8 value ++ rest) = value.toNat := by
  have hvalue := value.isLt
  have hword : leNat (write8 value) = value.toNat := by
    unfold write8
    apply leNat_leBytes_of_lt
    omega
  unfold read8
  rw [List.take_left' (write8_length value), hword]
  exact Nat.mod_eq_of_lt hvalue

theorem drop_write4 (value : Int) (rest : Bytes) (count : Nat) :
    (write4 value ++ rest).drop (count + 4) = rest.drop count := by
  rw [Nat.add_comm, ← List.drop_drop, List.drop_left' (write4_length value)]

theorem drop_write8 (value : BitVec 32) (rest : Bytes) (count : Nat) :
    (write8 value ++ rest).drop (count + 8) = rest.drop count := by
  rw [Nat.add_comm, ← List.drop_drop, List.drop_left' (write8_length value)]

/-! ## What the patch of a chunk stands for -/

/-- Wherever it stands, the data is a binary patch from `old` to `new`. -/
def Patches (lib : Library) (data old new : Bytes) : Prop :=
  ∀ (view : OldData) (before after patch : Bytes) (offset : Int), view.Shows old →
    patch = before ++ (data ++ after) → offset = before.length → patch.length < 2 ^ 31 →
    applyBSDiffPatchMem lib view patch offset = .ok (some new)

/-- The deflate parameters are numbers that an `int` can hold. -/
structure ImageChunk.ParamsFit (chunk : ImageChunk 32) : Prop where
  level : -2 ^ 31 ≤ chunk.level ∧ chunk.level < 2 ^ 31
  method : -2 ^ 31 ≤ chunk.method ∧ chunk.method < 2 ^ 31
  windowBits : -2 ^ 31 ≤ chunk.windowBits ∧ chunk.windowBits < 2 ^ 31
  memLevel : -2 ^ 31 ≤ chunk.memLevel ∧ chunk.memLevel < 2 ^ 31
  strategy : -2 ^ 31 ≤ chunk.strategy ∧ chunk.strategy < 2 ^ 31

/-- The part of the source that a chunk is patched from. -/
def ImageChunk.sourceBytes (chunk : ImageChunk 32) (old : Bytes) : Bytes :=
  (old.drop chunk.sourceStart.toNat).take chunk.sourceLen.toNat

/-- A chunk with its patch data makes these bytes of the target out of the source. -/
inductive Produces (lib : Library) (old : Bytes) : ImageChunk 32 × Bytes → Bytes → Prop
  | normal {chunk : ImageChunk 32} {data out : Bytes} (htype : chunk.type = chunkNormal)
      (hfits : chunk.sourceStart.toNat + chunk.sourceLen.toNat ≤ old.length)
      (hpatches : Patches lib data (chunk.sourceBytes old) out) : Produces lib old (chunk, data) out
  | deflate {chunk : ImageChunk 32} {data expanded target out : Bytes} {used : Nat}
      (htype : chunk.type = chunkDeflate)
      (hfits : chunk.sourceStart.toNat + chunk.sourceLen.toNat ≤ old.length)
      (hinflate : lib.inflate (chunk.sourceBytes old) = some (expanded, used))
      (hexpanded : expanded.length = chunk.sourceUncompressedLen.toNat)
      (hsmall : expanded.length < 2 ^ 31) (hpatches : Patches lib data expanded target)
      (hparams : chunk.ParamsFit) (hdeflate : lib.deflate chunk.params target = some out) :
      Produces lib old (chunk, data) out
  | raw {chunk : ImageChunk 32} {data : Bytes} (htype : chunk.type = chunkRaw) :
      Produces lib old (chunk, data) data

/-! ## One chunk -/

theorem readHeader_middle
    {before header after : Bytes} {start : Int} {len : Nat}
    {read : Bytes → Except Stuck (Option (Chunk × Int))}
    (hpatch : patch = before ++ (header ++ after)) (hstart : start = before.length)
    (hlen : len = header.length) (hsmall : patch.length < 2 ^ 31) :
    readHeader patch start len read = read header := by
  have hlength : patch.length = before.length + header.length + after.length := by
    simp [hpatch, Nat.add_assoc]
  have hwrap : wrap32 (start + len) = start + len := by
    apply wrap32_of_range <;> omega
  have hslice : slice patch start len = .ok header := by
    rw [hpatch]
    apply slice_middle hstart
    omega
  unfold readHeader
  rw [hwrap, if_neg (by omega), hslice]

theorem pieces_flatten
    {size : Nat} (hsize : 0 < size) {fuel : Nat} {data : Bytes} (hfuel : data.length ≤ fuel) :
    (pieces size fuel data).flatten = data := by
  induction fuel generalizing data with
  | zero =>
      have hempty : data = [] := List.length_eq_zero_iff.mp (Nat.le_zero.mp hfuel)
      simp [pieces, hempty]
  | succ fuel ih =>
      unfold pieces
      split_ifs with hempty
      · simp [List.length_eq_zero_iff.mp hempty]
      · have hrest : (data.drop size).length ≤ fuel := by
          rw [List.length_drop]
          omega
        rw [List.flatten_cons, ih hrest]
        exact List.take_append_drop size data

theorem tempSize_pos (expandedLen : Nat) : 0 < tempSize expandedLen := by
  unfold tempSize
  split_ifs with hshort
  · decide
  · by_contra hzero
    have hempty : expandedLen = 0 := by omega
    subst hempty
    exact hshort (by rw [Nat.cast_zero, wrap32_of_range (by omega) (by omega)]; omega)

/-- The output of `deflate` in pieces. -/
theorem compressTarget_output
    {header : DeflateHeader} {target out : Bytes} (hmalloc : ∀ size, lib.malloc size = true)
    (hdeflate : lib.deflate header.params target = some out) :
    ∃ output, compressTarget lib header target = .ok output ∧ output.flatten = out := by
  refine ⟨pieces (tempSize header.expandedLen) out.length out, ?_, ?_⟩
  · unfold compressTarget
    rw [if_neg (by simp [hmalloc]), hdeflate]
  · exact pieces_flatten (tempSize_pos header.expandedLen) (Nat.le_refl _)

/-- The fields of a deflate chunk behind its type. -/
def deflateFields (chunk : ImageChunk 32) (offset : BitVec 32) : Bytes :=
  write8 chunk.sourceStart ++ (write8 chunk.sourceLen ++ (write8 offset ++
    (write8 chunk.sourceUncompressedLen ++ (write8 chunk.len ++ (write4 chunk.level ++
      (write4 chunk.method ++ (write4 chunk.windowBits ++ (write4 chunk.memLevel ++
        (write4 chunk.strategy ++ [])))))))))

theorem deflateFields_length (chunk : ImageChunk 32) (offset : BitVec 32) :
    (deflateFields chunk offset).length = 60 := by
  simp [deflateFields, write4_length, write8_length]

theorem deflateHeader_fields
    {chunk : ImageChunk 32} (hparams : chunk.ParamsFit) (offset : BitVec 32) :
    deflateHeader (deflateFields chunk offset) =
      { srcStart := chunk.sourceStart.toNat
        srcLen := chunk.sourceLen.toNat
        patchOffset := offset.toNat
        expandedLen := chunk.sourceUncompressedLen.toNat
        params := chunk.params } := by
  have hlevel := read4_write4 hparams.level.1 hparams.level.2
  have hmethod := read4_write4 hparams.method.1 hparams.method.2
  have hwindowBits := read4_write4 hparams.windowBits.1 hparams.windowBits.2
  have hmemLevel := read4_write4 hparams.memLevel.1 hparams.memLevel.2
  have hstrategy := read4_write4 hparams.strategy.1 hparams.strategy.2
  unfold deflateHeader deflateFields ImageChunk.params
  simp only [drop_write8 _ _ 0, drop_write8 _ _ 4, drop_write8 _ _ 8, drop_write8 _ _ 12,
    drop_write8 _ _ 16, drop_write8 _ _ 20, drop_write8 _ _ 24, drop_write8 _ _ 28,
    drop_write8 _ _ 32, drop_write8 _ _ 36, drop_write8 _ _ 40, drop_write8 _ _ 44,
    drop_write8 _ _ 48, drop_write4 _ _ 0, drop_write4 _ _ 4, drop_write4 _ _ 8,
    drop_write4 _ _ 12, List.drop_zero, read8_write8, hlevel, hmethod, hwindowBits, hmemLevel,
    hstrategy]

/-- The part of a chunk behind its type. -/
theorem readChunk_type
    {before fields after : Bytes} {type : Int}
    (hpatch : patch = before ++ (write4 type ++ (fields ++ after)))
    (hsmall : patch.length < 2 ^ 31) (hlow : -2 ^ 31 ≤ type) (hhigh : type < 2 ^ 31) :
    readChunk lib patch old before.length =
      if type = OpenRecovery.chunkNormal then
        readNormalChunk lib patch old ((before ++ write4 type).length : Int)
      else if type = chunkRaw then readRawChunk patch ((before ++ write4 type).length : Int)
      else if type = OpenRecovery.chunkDeflate then
        readDeflateChunk lib patch old ((before ++ write4 type).length : Int)
      else .ok none := by
  have hlength : patch.length = before.length + 4 + (fields ++ after).length := by
    simp [hpatch, write4_length, Nat.add_assoc]
  have hstart : wrap32 ((before.length : Int) + 4) = ((before ++ write4 type).length : Int) := by
    rw [wrap32_of_range (by omega) (by omega)]
    simp [write4_length]
  have htype : read4 (write4 type) = type := by
    have hread := read4_write4 hlow hhigh []
    rwa [List.append_nil] at hread
  unfold readChunk
  rw [readHeader_middle hpatch rfl (write4_length type).symm hsmall]
  simp only [hstart, htype]

/-- The place of a binary patch, once it was written and read again. -/
theorem patchOffset_eq
    {ahead data behind : Bytes} (hbody : patch = ahead ++ (data ++ behind))
    (hsmall : patch.length < 2 ^ 31) :
    wrap32 (((BitVec.ofNat 32 ahead.length).toNat : Nat) : Int) = ahead.length := by
  have hlength : patch.length = ahead.length + (data ++ behind).length := by
    simp [hbody]
  rw [BitVec.toNat_ofNat, Nat.mod_eq_of_lt (by omega)]
  apply wrap32_of_range <;> omega

theorem readNormalChunk_produces
    {chunk : ImageChunk 32} {front after ahead data behind out : Bytes}
    (hold : old.length < 2 ^ 31) (hsmall : patch.length < 2 ^ 31)
    (hfits : chunk.sourceStart.toNat + chunk.sourceLen.toNat ≤ old.length)
    (hpatches : Patches lib data (chunk.sourceBytes old) out)
    (hpatch : patch = front ++ ((write8 chunk.sourceStart ++ write8 chunk.sourceLen ++
      write8 (BitVec.ofNat 32 ahead.length)) ++ after))
    (hbody : patch = ahead ++ (data ++ behind)) :
    readNormalChunk lib patch old front.length =
      .ok (some (.normal (some out), ((front.length + 24 : Nat) : Int))) := by
  have hlength : patch.length = front.length + 24 + after.length := by
    simp only [hpatch, List.length_append, write8_length]
    omega
  have hnext : wrap32 ((front.length : Int) + 24) = ((front.length + 24 : Nat) : Int) := by
    rw [wrap32_of_range (by omega) (by omega)]
    simp
  have hview := OldData.shows_slice hold hfits
  have happlied := hpatches _ ahead behind patch _ hview hbody rfl hsmall
  unfold readNormalChunk
  rw [readHeader_middle hpatch rfl (by simp [write8_length]) hsmall]
  simp only [List.append_assoc, drop_write8 _ _ 0, drop_write8 _ _ 8, List.drop_zero, read8_write8]
  have hoffset : read8 (write8 (BitVec.ofNat 32 ahead.length)) =
      (BitVec.ofNat 32 ahead.length).toNat := by
    have hread := read8_write8 (BitVec.ofNat 32 ahead.length) []
    rwa [List.append_nil] at hread
  rw [hoffset, patchOffset_eq hbody hsmall, happlied, hnext]

theorem readRawChunk_data
    {front after data : Bytes} (hsmall : patch.length < 2 ^ 31)
    (hpatch : patch = front ++ ((write4 data.length ++ data) ++ after)) :
    readRawChunk patch front.length =
      .ok (some (.raw data, ((front.length + (4 + data.length) : Nat) : Int))) := by
  rw [List.append_assoc] at hpatch
  have hlength : patch.length = front.length + 4 + data.length + after.length := by
    simp [hpatch, write4_length, Nat.add_assoc]
  have hlen : read4 (write4 data.length) = data.length := by
    have hread := @read4_write4 (data.length : Int) (by omega) (by omega) []
    rwa [List.append_nil] at hread
  have hpos : wrap32 ((front.length : Int) + 4) = ((front ++ write4 data.length).length : Int) := by
    rw [wrap32_of_range (by omega) (by omega)]
    simp [write4_length]
  have hnext : wrap32 (((front ++ write4 data.length).length : Int) + data.length) =
      ((front.length + (4 + data.length) : Nat) : Int) := by
    rw [List.length_append, write4_length, wrap32_of_range (by omega) (by omega)]
    omega
  have hdata : slice patch ((front ++ write4 data.length).length : Int) data.length = .ok data := by
    rw [hpatch, ← List.append_assoc]
    exact slice_middle rfl rfl
  unfold readRawChunk
  rw [readHeader_middle hpatch rfl (write4_length _).symm hsmall]
  simp only [hpos, hlen, hnext, hdata]
  rw [if_neg (by omega)]

theorem expandSource_inflates
    {chunk : ImageChunk 32} {header : DeflateHeader} {expanded : Bytes} {used : Nat}
    (hmalloc : ∀ size, lib.malloc size = true) (hold : old.length < 2 ^ 31)
    (hfits : chunk.sourceStart.toNat + chunk.sourceLen.toNat ≤ old.length)
    (hstart : header.srcStart = chunk.sourceStart.toNat)
    (hlen : header.srcLen = chunk.sourceLen.toNat)
    (hinflate : lib.inflate (chunk.sourceBytes old) = some (expanded, used))
    (hexpanded : expanded.length = header.expandedLen) :
    expandSource lib old header = .ok (some expanded) := by
  have hwrap : wrap32 (header.srcStart : Int) = header.srcStart := by
    apply wrap32_of_range <;> omega
  have hslice : slice old header.srcStart header.srcLen = .ok (chunk.sourceBytes old) := by
    unfold slice
    rw [if_pos ⟨by omega, by omega, by omega⟩, hstart, hlen]
    rfl
  unfold expandSource
  rw [if_pos (hmalloc _), hwrap, hslice, ok_bind, hinflate]
  exact if_pos hexpanded

theorem readDeflateChunk_produces
    {chunk : ImageChunk 32} {front after ahead data behind expanded target out : Bytes} {used : Nat}
    (hmalloc : ∀ size, lib.malloc size = true) (hold : old.length < 2 ^ 31)
    (hsmall : patch.length < 2 ^ 31)
    (hfits : chunk.sourceStart.toNat + chunk.sourceLen.toNat ≤ old.length)
    (hinflate : lib.inflate (chunk.sourceBytes old) = some (expanded, used))
    (hexpanded : expanded.length = chunk.sourceUncompressedLen.toNat)
    (hexpandedSmall : expanded.length < 2 ^ 31) (hpatches : Patches lib data expanded target)
    (hparams : chunk.ParamsFit) (hdeflate : lib.deflate chunk.params target = some out)
    (hpatch : patch =
      front ++ (deflateFields chunk (BitVec.ofNat 32 ahead.length) ++ after))
    (hbody : patch = ahead ++ (data ++ behind)) :
    ∃ output, readDeflateChunk lib patch old front.length =
      .ok (some (.deflate output, ((front.length + 60 : Nat) : Int))) ∧ output.flatten = out := by
  have hlength : patch.length = front.length + 60 + after.length := by
    simp only [hpatch, List.length_append, deflateFields_length]
    omega
  have hnext : wrap32 ((front.length : Int) + 60) = ((front.length + 60 : Nat) : Int) := by
    rw [wrap32_of_range (by omega) (by omega)]
    simp
  have hview : (OldData.mk expanded 0 (wrap32 chunk.sourceUncompressedLen.toNat)).Shows expanded := by
    rw [← hexpanded]
    exact OldData.shows_whole hexpandedSmall
  have happlied := hpatches _ ahead behind patch _ hview hbody rfl hsmall
  obtain ⟨header, hheader⟩ :
    ∃ header, header = deflateHeader (deflateFields chunk (BitVec.ofNat 32 ahead.length)) :=
      ⟨_, rfl⟩
  have hfields := hheader.trans (deflateHeader_fields hparams (BitVec.ofNat 32 ahead.length))
  have hexpand : expandSource lib old header = .ok (some expanded) := by
    apply expandSource_inflates hmalloc hold hfits _ _ hinflate
    · simp [hfields, hexpanded]
    · simp [hfields]
    · simp [hfields]
  have hoffset : wrap32 (header.patchOffset : Int) = ahead.length := by
    rw [hfields]
    exact patchOffset_eq hbody hsmall
  have hcompressed : lib.deflate header.params target = some out := by
    rw [hfields]
    exact hdeflate
  obtain ⟨output, hcompress, hflatten⟩ := compressTarget_output hmalloc hcompressed
  have hlen : header.expandedLen = chunk.sourceUncompressedLen.toNat := by
    rw [hfields]
  have hpatched : patchExpanded lib patch header expanded = .ok (some output) := by
    unfold patchExpanded
    rw [hlen, hoffset, happlied, ok_bind]
    dsimp only
    rw [hcompress, ok_bind]
  have hchunk : OpenRecovery.deflateChunk lib patch old header = .ok (some output) := by
    unfold OpenRecovery.deflateChunk
    rw [hexpand, ok_bind]
    exact hpatched
  refine ⟨output, ?_, hflatten⟩
  unfold readDeflateChunk
  rw [readHeader_middle hpatch rfl (by rw [deflateFields_length]) hsmall, ← hheader, hchunk]
  dsimp only
  rw [hnext]

theorem chunkHeader_length (chunk : ImageChunk 32) (data : Bytes) (offset : BitVec 32) :
    (chunkHeader chunk data offset).length = headerSize chunk data := by
  unfold chunkHeader headerSize
  split_ifs <;> simp [write4_length, write8_length]

theorem chunkHeader_normal
    {chunk : ImageChunk 32} (htype : chunk.type = chunkNormal) (data : Bytes) (offset : BitVec 32) :
    chunkHeader chunk data offset = write4 chunkNormal ++
      (write8 chunk.sourceStart ++ write8 chunk.sourceLen ++ write8 offset) := by
  unfold chunkHeader
  rw [if_pos htype, htype]

theorem chunkHeader_deflate
    {chunk : ImageChunk 32} (htype : chunk.type = chunkDeflate) (data : Bytes)
    (offset : BitVec 32) :
    chunkHeader chunk data offset = write4 chunkDeflate ++ deflateFields chunk offset := by
  have hnormal : chunkDeflate ≠ chunkNormal := by decide
  unfold chunkHeader deflateFields
  rw [htype, if_neg hnormal, if_pos rfl]
  simp only [List.append_assoc, List.append_nil]

theorem chunkHeader_raw
    {chunk : ImageChunk 32} (htype : chunk.type = chunkRaw) (data : Bytes) (offset : BitVec 32) :
    chunkHeader chunk data offset = write4 chunkRaw ++ (write4 data.length ++ data) := by
  have hnormal : chunkRaw ≠ chunkNormal := by decide
  have hdeflate : chunkRaw ≠ chunkDeflate := by decide
  unfold chunkHeader
  rw [htype, if_neg hnormal, if_neg hdeflate, if_pos rfl]

theorem bodyOf_eq
    {chunk : ImageChunk 32} {data : Bytes} (htype : chunk.type ≠ chunkRaw) :
    bodyOf (chunk, data) = data := by
  simp [bodyOf, htype]

/-- A chunk is read at its place, when its binary patch stands at its own. -/
theorem Produces.reads
    {patched : ImageChunk 32 × Bytes} {before after ahead behind out : Bytes}
    (hproduces : Produces lib old patched out) (hmalloc : ∀ size, lib.malloc size = true)
    (hold : old.length < 2 ^ 31) (hsmall : patch.length < 2 ^ 31)
    (hpatch : patch = before ++
      (chunkHeader patched.1 patched.2 (BitVec.ofNat 32 ahead.length) ++ after))
    (hbody : patch = ahead ++ (bodyOf patched ++ behind)) :
    ∃ chunk, readChunk lib patch old before.length =
        .ok (some (chunk, ((before.length + headerSize patched.1 patched.2 : Nat) : Int))) ∧
      chunk.output = some out := by
  rw [← chunkHeader_length patched.1 patched.2 (BitVec.ofNat 32 ahead.length)]
  cases hproduces with
  | @normal chunk data out htype hfits hpatches =>
      have hraw : chunk.type ≠ chunkRaw := by
        rw [htype]
        decide
      rw [bodyOf_eq hraw] at hbody
      dsimp only at hpatch ⊢
      rw [chunkHeader_normal htype] at hpatch ⊢
      rw [List.append_assoc] at hpatch
      have hchunk := @readChunk_type lib old patch _ _ _ _ hpatch hsmall (by decide) (by decide)
      rw [if_pos (by decide)] at hchunk
      rw [← List.append_assoc] at hpatch
      rw [hchunk, readNormalChunk_produces hold hsmall hfits hpatches hpatch hbody]
      refine ⟨.normal (some out), ?_, rfl⟩
      simp [write4_length, write8_length, Nat.add_assoc]
  | @deflate chunk data expanded target out used htype hfits hinflate hexpanded hexpandedSmall
      hpatches hparams hdeflate =>
      have hraw : chunk.type ≠ chunkRaw := by
        rw [htype]
        decide
      rw [bodyOf_eq hraw] at hbody
      dsimp only at hpatch ⊢
      rw [chunkHeader_deflate htype] at hpatch ⊢
      rw [List.append_assoc] at hpatch
      have hchunk := @readChunk_type lib old patch _ _ _ _ hpatch hsmall (by decide) (by decide)
      rw [if_neg (by decide), if_neg (by decide), if_pos (by decide)] at hchunk
      rw [← List.append_assoc] at hpatch
      obtain ⟨output, hread, hflatten⟩ := readDeflateChunk_produces hmalloc hold hsmall hfits hinflate
        hexpanded hexpandedSmall hpatches hparams hdeflate hpatch hbody
      rw [hchunk, hread]
      refine ⟨.deflate output, ?_, congrArg some hflatten⟩
      simp [write4_length, deflateFields_length, Nat.add_assoc]
  | @raw chunk data htype =>
      dsimp only at hpatch ⊢
      rw [chunkHeader_raw htype] at hpatch ⊢
      rw [List.append_assoc] at hpatch
      have hchunk := @readChunk_type lib old patch _ _ _ _ hpatch hsmall (by decide) (by decide)
      rw [if_neg (by decide), if_pos (by decide)] at hchunk
      rw [← List.append_assoc] at hpatch
      rw [hchunk, readRawChunk_data hsmall hpatch]
      refine ⟨.raw out, ?_, rfl⟩
      simp [write4_length, Nat.add_assoc]

/-! ## The whole patch -/

theorem writeHeaders_length (offset : BitVec 32) (patches : List (ImageChunk 32 × Bytes)) :
    (writeHeaders offset patches).length =
      (patches.map fun patched => headerSize patched.1 patched.2).sum := by
  induction patches generalizing offset with
  | nil => simp [writeHeaders]
  | cons patched rest ih =>
      simp [writeHeaders, chunkHeader_length, ih]

/-- The chunks from some place on: `middle` are the binary patches of the chunks that
stand before it. -/
theorem chunksOutput_produces
    {patches : List (ImageChunk 32 × Bytes)} {outs : List Bytes}
    (hproduces : List.Forall₂ (Produces lib old) patches outs)
    (hmalloc : ∀ size, lib.malloc size = true) (hold : old.length < 2 ^ 31)
    (hsmall : patch.length < 2 ^ 31) {before middle : Bytes} {offset : BitVec 32}
    (hpatch : patch = before ++ (writeHeaders offset patches ++ (middle ++ patches.flatMap bodyOf)))
    (hoffset : offset =
      BitVec.ofNat 32 (before.length + ((writeHeaders offset patches).length + middle.length))) :
    chunksOutput lib patch old patches.length before.length = some outs.flatten := by
  induction hproduces generalizing before middle offset with
  | nil => simp [chunksOutput]
  | @cons patched out patches outs hhead htail ih =>
      obtain ⟨header, hheader⟩ : ∃ header, header = chunkHeader patched.1 patched.2 offset := ⟨_, rfl⟩
      obtain ⟨headers, hheaders⟩ : ∃ headers, headers =
          writeHeaders (offset + BitVec.ofNat 32 (bodyOf patched).length) patches := ⟨_, rfl⟩
      have hwritten : writeHeaders offset (patched :: patches) = header ++ headers := by
        rw [hheader, hheaders, writeHeaders]
      rw [hwritten] at hpatch hoffset
      rw [List.flatMap_cons] at hpatch
      have hahead : offset = BitVec.ofNat 32 (before ++ (header ++ (headers ++ middle))).length := by
        rw [hoffset]
        simp [Nat.add_assoc]
      have hread := @Produces.reads lib old patch patched before
        (headers ++ (middle ++ (bodyOf patched ++ patches.flatMap bodyOf)))
        (before ++ (header ++ (headers ++ middle))) (patches.flatMap bodyOf) out hhead hmalloc hold
        hsmall (by rw [← hahead, ← hheader]; simp only [hpatch, List.append_assoc])
        (by simp only [hpatch, List.append_assoc])
      obtain ⟨chunk, hchunk, houtput⟩ := hread
      have hbefore : before.length + headerSize patched.1 patched.2 = (before ++ header).length := by
        rw [List.length_append, hheader, chunkHeader_length]
      have hrest := @ih (before ++ header) (middle ++ bodyOf patched)
        (offset + BitVec.ofNat 32 (bodyOf patched).length)
        (by rw [← hheaders]; simp only [hpatch, List.append_assoc])
        (by
          rw [← hheaders, hahead, ← BitVec.ofNat_add]
          simp [Nat.add_assoc])
      rw [List.length_cons, chunksOutput, hchunk]
      simp only [houtput, hbefore, hrest, List.flatten_cons]

theorem headerSize_ge (chunk : ImageChunk 32) (data : Bytes) : 4 ≤ headerSize chunk data := by
  simp [headerSize]

theorem four_mul_length_le (patches : List (ImageChunk 32 × Bytes)) :
    4 * patches.length ≤ (patches.map fun patched => headerSize patched.1 patched.2).sum := by
  induction patches with
  | nil => simp
  | cons patched rest ih =>
      have hsize := headerSize_ge patched.1 patched.2
      simp only [List.length_cons, List.map_cons, List.sum_cons]
      omega

/-- The output of the patch file is what its chunks produce. -/
theorem imageOutput_patchFile
    {patches : List (ImageChunk 32 × Bytes)} {outs : List Bytes}
    (hproduces : List.Forall₂ (Produces lib old) patches outs)
    (hmalloc : ∀ size, lib.malloc size = true) (hold : old.length < 2 ^ 31)
    (hsmall : (patchFile patches).length < 2 ^ 31) :
    imageOutput lib (patchFile patches) old = some outs.flatten := by
  have hmagic : imgdiffMagic.length = 8 := by decide
  have hheaders := writeHeaders_length (totalHeaderSize patches) patches
  have hfile : patchFile patches = (imgdiffMagic ++ write4 patches.length) ++
      (writeHeaders (totalHeaderSize patches) patches ++ ([] ++ patches.flatMap bodyOf)) := by
    simp [patchFile]
  have hlength : (patchFile patches).length = 12 +
      ((patches.map fun patched => headerSize patched.1 patched.2).sum +
        (patches.flatMap bodyOf).length) := by
    simp only [hfile, List.length_append, hmagic, write4_length, hheaders, List.length_nil]
    omega
  have hcount := four_mul_length_le patches
  have hdrop : (patchFile patches).drop 8 = write4 patches.length ++
      (writeHeaders (totalHeaderSize patches) patches ++ patches.flatMap bodyOf) := by
    simp only [patchFile, List.append_assoc]
    exact List.drop_left' hmagic
  have hread : (read4 ((patchFile patches).drop 8)).toNat = patches.length := by
    rw [hdrop, read4_write4 (by omega) (by omega)]
    simp
  have htake : (patchFile patches).take 8 = imgdiffMagic := by
    simp only [patchFile, List.append_assoc]
    exact List.take_left' hmagic
  have htwelve : (imgdiffMagic ++ write4 patches.length).length = 12 := by
    simp [hmagic, write4_length]
  have hchunks := chunksOutput_produces hproduces hmalloc hold hsmall hfile (by
    rw [hheaders, htwelve, List.length_nil, Nat.add_zero, totalHeaderSize])
  rw [htwelve, Nat.cast_ofNat] at hchunks
  unfold imageOutput
  rw [if_pos ⟨by omega, htake⟩, hread, hchunks]

end ImgDiff
end OpenRecovery
