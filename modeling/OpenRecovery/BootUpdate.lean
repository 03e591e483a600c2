import OpenRecovery.Bootloader
import OpenRecovery.MtdOffsets
import OpenRecovery.RootFrames
import Mathlib

/-!
# The firmware update of `bootloader.c`

`write_update_for_bootloader` writes a header of zeros, the update image and two
bitmaps to the cache partition, each from the beginning of a block, and puts the
header in place last.  The header names the offsets of the sections, which are
worked out afterwards from the blocks that the writer has passed over.  Messages
to the log are left out.
-/

namespace OpenRecovery

open Effects Mtd Words

/-- A routine of `mtdutils.c` together with memory accesses of its caller. -/
abbrev MtdChecked (α : Type) := ExceptT Stuck (Prog MtdOp MtdOp.Reply) α

/-- Conversion to `unsigned`. -/
def unsigned (value : Int) : Nat :=
  (value % 2 ^ 32).toNat

/-- `struct update_header`. -/
structure UpdateHeader where
  magic : List.Vector UInt8 16
  version : Nat
  size : Nat
  imageOffset : Nat
  imageLength : Nat
  bitmapWidth : Nat
  bitmapHeight : Nat
  bitmapBpp : Nat
  busyBitmapOffset : Nat
  busyBitmapLength : Nat
  failBitmapOffset : Nat
  failBitmapLength : Nat

namespace UpdateHeader

/-- A structure after `memset` with zero. -/
def zero : UpdateHeader :=
  ⟨List.Vector.replicate 16 0, 0, 0, 0, 0, 0, 0, 0, 0, 0, 0, 0⟩

/-- The memory that a header occupies. -/
def bytes (header : UpdateHeader) : Bytes :=
  header.magic.toList ++ (leBytes 4 header.version ++ (leBytes 4 header.size ++
    (leBytes 4 header.imageOffset ++ (leBytes 4 header.imageLength ++
      (leBytes 4 header.bitmapWidth ++ (leBytes 4 header.bitmapHeight ++
        (leBytes 4 header.bitmapBpp ++ (leBytes 4 header.busyBitmapOffset ++
          (leBytes 4 header.busyBitmapLength ++ (leBytes 4 header.failBitmapOffset ++
            leBytes 4 header.failBitmapLength))))))))))

theorem bytes_length (header : UpdateHeader) : header.bytes.length = 60 := by
  simp only [bytes, List.length_append, leBytes_length, List.Vector.toList_length]

end UpdateHeader

def updateMagic : Bytes := ascii "MSM-RADIO-UPDATE"

def updateVersion : Nat := 0x00010000

/-- `sizeof(struct update_header)`. -/
def updateHeaderSize : Nat := 60

/-- `bitmap_length`. -/
def bitmapLength (width height bpp : Int) : Int :=
  wrap32 (wrap32 ((wrap32 (bpp + 7)).tdiv 8 * width) * height)

/-- The memory from a pointer on that `mtd_write_data` reads. -/
def memoryAt (pointer : Option Bytes) (length : Int) : Option Bytes :=
  if length = 0 then some []
  else
    match pointer with
    | none => none
    | some data =>
        if 0 < length ∧ length ≤ data.length then some (data.take length.toNat) else none

/-- Write a section and go on to the next block; `offset` is the field of the
header that is compared with -1 before.  On an error the partition is closed. -/
def writeSection (partition : MtdPartition) (ctx : MtdWriteContext) (offset : Nat)
    (pointer : Option Bytes) (length : Int) : MtdChecked (Option (Int × MtdWriteContext)) :=
  if offset = 2 ^ 32 - 1 then do
    let _ ← ExceptT.lift (mtdWriteClose partition ctx)
    pure none
  else
    match memoryAt pointer length with
    | none => throw .outOfBounds
    | some data => do
        let (wrote, ctx) ← ExceptT.lift (mtdWriteData partition ctx data)
        if wrote ≠ length then
          let _ ← ExceptT.lift (mtdWriteClose partition ctx)
          pure none
        else
          let next ← ExceptT.lift (mtdEraseBlocks partition ctx 0)
          pure (some next)

section Update

variable (partition : MtdPartition)
variable (update : Option Bytes) (updateLength bitmapWidth bitmapHeight bitmapBpp : Int)
variable (busyBitmap failBitmap : Option Bytes)

/-- The first pass of `write_update_for_bootloader`: the header to be written,
the offset behind its own blocks, and the context that is to be closed. -/
def writeSections : MtdChecked (Option (UpdateHeader × Int × MtdWriteContext)) := do
  let header := UpdateHeader.zero
  match ← writeSection partition mtdWritePartition 0 (some header.bytes) updateHeaderSize with
  | none => pure none
  | some (imageStart, ctx) =>
      let header := { header with
        magic := fieldOf 16 updateMagic
        version := updateVersion
        size := updateHeaderSize
        imageLength := unsigned updateLength }
      match ← writeSection partition ctx header.imageOffset update updateLength with
      | none => pure none
      | some (busyStart, ctx) =>
          let length := bitmapLength bitmapWidth bitmapHeight bitmapBpp
          let header := { header with
            imageOffset := unsigned (mtdFindWriteStart partition ctx imageStart)
            bitmapWidth := unsigned bitmapWidth
            bitmapHeight := unsigned bitmapHeight
            bitmapBpp := unsigned bitmapBpp
            busyBitmapLength := if busyBitmap.isSome then unsigned length else 0 }
          match ← writeSection partition ctx header.busyBitmapOffset busyBitmap length with
          | none => pure none
          | some (failStart, ctx) =>
              let header := { header with
                busyBitmapOffset := unsigned (mtdFindWriteStart partition ctx busyStart)
                failBitmapLength := if failBitmap.isSome then unsigned length else 0 }
              match ← writeSection partition ctx header.failBitmapOffset failBitmap length with
              | none => pure none
              | some (_, ctx) =>
                  pure (some ({ header with
                    failBitmapOffset := unsigned (mtdFindWriteStart partition ctx failStart) },
                    imageStart, ctx))

/-- The second pass up to the check of the alignment; the context is to be
closed. -/
def rewriteUpdateHeader (header : UpdateHeader) (imageStart : Int) :
    MtdProg (Option MtdWriteContext) := do
  let (wrote, ctx) ← mtdWriteData partition mtdWritePartition header.bytes
  if wrote ≠ updateHeaderSize then
    let _ ← mtdWriteClose partition ctx
    pure none
  else
    let (pos, ctx) ← mtdEraseBlocks partition ctx 0
    if pos ≠ imageStart then
      let _ ← mtdWriteClose partition ctx
      pure none
    else pure (some ctx)

/-- Install the header after everything that it refers to. -/
def installHeader (header : UpdateHeader) (imageStart : Int) : MtdProg Int := do
  match ← rewriteUpdateHeader partition header imageStart with
  | none => pure (-1)
  | some ctx =>
      if (← mtdWriteClose partition ctx) ≠ 0 then pure (-1) else pure 0

variable (build : Build)

/-- `write_update_for_bootloader`. -/
def writeUpdateForBootloader : Checked Int := do
  if (← ensureRootPathUnmounted build "CACHE:".toList) ≠ 0 then pure (-1)
  else
    match ← ExceptT.lift (getRootMtdPartition build "CACHE:".toList) with
    | none => pure (-1)
    | some (name, partition) =>
        if ← call (.openPartition name) then
          match ← ExceptT.mk (onPartition name (writeSections partition update updateLength
              bitmapWidth bitmapHeight bitmapBpp busyBitmap failBitmap).run) with
          | none => pure (-1)
          | some (header, imageStart, ctx) =>
              if (← ExceptT.lift (onPartition name (mtdWriteClose partition ctx))) ≠ 0 then
                pure (-1)
              else if ← call (.openPartition name) then
                ExceptT.lift (onPartition name (installHeader partition header imageStart))
              else pure (-1)
        else pure (-1)

end Update

/-! ## What the sections occupy -/

section Sections

variable {partition : MtdPartition} {start flash : Flash partition}
variable {done chunks : List (Block partition)} {ctx : MtdWriteContext}

/-- The session has completed `done` and stands at the offset `next`. -/
structure Finished
    (start : Flash partition) (done : List (Block partition)) (next : Int)
    (ctx : MtdWriteContext) (flash : Flash partition) : Prop where
  stored_eq : ctx.stored = []
  next_eq : next = (ctx.pos * partition.eraseSize : Nat)
  tracked : Tracked start done ctx flash

theorem finished_start (start : Flash partition) :
    Finished start [] 0 mtdWritePartition start := by
  refine ⟨rfl, ?_, tracked_start start⟩
  rw [mtdWritePartition, Nat.zero_mul]
  rfl

theorem memoryAt_length
    {pointer : Option Bytes} {length : Int} {data : Bytes}
    (hdata : memoryAt pointer length = some data) : (data.length : Int) = length := by
  unfold memoryAt at hdata
  split at hdata
  next hzero =>
    obtain rfl := Option.some.inj hdata
    rw [hzero]
    rfl
  next =>
    cases pointer with
    | none => cases hdata
    | some memory =>
        simp only at hdata
        split at hdata
        next hrange =>
          obtain rfl := Option.some.inj hdata
          rw [List.length_take_of_le (by omega)]
          omega
        next => cases hdata

theorem memoryAt_ne_nil
    {pointer : Option Bytes} {length : Int} {data : Bytes}
    (hdata : memoryAt pointer length = some data) (hpos : 0 < length) : data ≠ [] := by
  rintro rfl
  have hlength := memoryAt_length hdata
  rw [List.length_nil] at hlength
  omega

/-- Closing after an error ends the function. -/
theorem close_none_safe {α : Type} {post : α → Flash partition → Prop} :
    Prog.SafeOk (Machine.atomic Flash.handle)
      (do
        let _ ← ExceptT.lift (mtdWriteClose partition ctx)
        pure none : MtdChecked (Option α))
      (fun result after => ∀ value, result = some value → post value after)
      (fun _ => True) flash := by
  rw [Prog.safeOk_bind, Prog.safeOk_lift]
  apply Prog.safe_of_run
  rw [Prog.safeOk_pure]
  refine ⟨?_, trivial⟩
  intro value hvalue
  cases hvalue

/-- A section, from what its two parts do. -/
theorem writeSection_safe
    {offset : Nat} {pointer : Option Bytes} {length : Int}
    {took : Bytes → MtdWriteContext → Flash partition → Prop}
    {post : Bytes → Int × MtdWriteContext → Flash partition → Prop}
    (hwrite : ∀ data, (mtdWriteData partition ctx data).Safe (Machine.atomic Flash.handle)
      (fun result after => result.1 = data.length → took data result.2 after)
      (fun _ => True) flash)
    (herase : ∀ data ctx' after, took data ctx' after → ∃ value after',
      (mtdEraseBlocks partition ctx' 0).run Flash.handle after = (value, after') ∧
        post data value after') :
    Prog.SafeOk (Machine.atomic Flash.handle)
      (writeSection partition ctx offset pointer length)
      (fun result after => ∀ value, result = some value →
        ∃ data, memoryAt pointer length = some data ∧ post data value after)
      (fun _ => True) flash := by
  unfold writeSection
  split
  next => exact close_none_safe
  next =>
    cases hdata : memoryAt pointer length with
    | none =>
        simp only
        rw [Prog.safeOk_throw]
        trivial
    | some data =>
        have hlength := memoryAt_length hdata
        simp only
        rw [Prog.safeOk_bind, Prog.safeOk_lift]
        apply (hwrite data).mono _ (fun _ h => h)
        rintro ⟨wrote, ctx'⟩ after htook
        simp only at htook ⊢
        by_cases hwrote : wrote = length
        · obtain ⟨next, after', hrun, hpost⟩ :=
            herase data ctx' after (htook (hwrote.trans hlength.symm))
          rw [if_neg (by simp [hwrote]), Prog.safeOk_bind, Prog.safeOk_lift]
          apply Prog.safe_of_run
          rw [hrun, Prog.safeOk_pure]
          refine ⟨?_, trivial⟩
          intro value hvalue
          obtain rfl := Option.some.inj hvalue
          exact ⟨data, rfl, hpost⟩
        · rw [if_pos hwrote]
          exact close_none_safe

/-- Padding brings a session from its bytes to its chunks. -/
theorem erase_run
    {written : List (Block partition)} {data : Bytes}
    (htracked : Tracked start written ctx flash)
    (hshort : ctx.stored.length < partition.eraseSize)
    (hbytes : blockBytes done ++ data = blockBytes written ++ ctx.stored)
    (hchunked : Chunked data chunks) :
    ∃ next ctx' after,
      (mtdEraseBlocks partition ctx 0).run Flash.handle flash = ((next, ctx'), after) ∧
        (Finished start (done ++ chunks) next ctx' after ∨ next = -1 ∧ Full ctx' after) := by
  obtain ⟨pad, hpad, hchunks⟩ := hchunked
  have hpadded : blockBytes (done ++ chunks) =
      blockBytes written ++ ctx.stored ++ List.replicate pad 0 := by
    rw [blockBytes_append, hchunks, ← List.append_assoc, hbytes]
  have hcomplete := append_pendingBlock hshort hpadded hpad
  obtain ⟨next, ctx', after, hrun, hcases⟩ := htracked.erase hshort
  refine ⟨next, ctx', after, hrun, ?_⟩
  rcases hcases with ⟨hstored, hnext, hdone⟩ | hfull
  · rw [hcomplete] at hdone
    exact .inl ⟨hstored, hnext, hdone⟩
  · exact .inr hfull

/-- A section adds its chunks to a session that has not failed before. -/
theorem writeSection_settled
    {prev : Int} {offset : Nat} {pointer : Option Bytes} {length : Int}
    (hsettled : Finished start done prev ctx flash ∨ Full ctx flash) :
    Prog.SafeOk (Machine.atomic Flash.handle)
      (writeSection partition ctx offset pointer length)
      (fun result after => ∀ value, result = some value →
        ∃ data, memoryAt pointer length = some data ∧ ∃ chunks, Chunked data chunks ∧
          (Finished start done prev ctx flash ∧
              Finished start (done ++ chunks) value.1 value.2 after ∨
            Full value.2 after))
      (fun _ => True) flash := by
  rcases hsettled with hfinished | hfull
  · apply @writeSection_safe _ _ _ _ _ _ (fun data ctx' after => ∃ written,
      Tracked start written ctx' after ∧ ctx'.stored.length < partition.eraseSize ∧
        blockBytes done ++ data = blockBytes written ++ ctx'.stored)
    · intro data
      obtain ⟨chunks, hchunked⟩ := exists_chunked partition data
      exact hfinished.tracked.writeData hfinished.stored_eq hchunked
    · rintro data ctx' after ⟨written, htracked, hshort, hbytes⟩
      obtain ⟨chunks, hchunked⟩ := exists_chunked partition data
      obtain ⟨next, ctx'', after', hrun, hcases⟩ := erase_run htracked hshort hbytes hchunked
      exact ⟨(next, ctx''), after', hrun, chunks, hchunked,
        hcases.imp (fun hlater => ⟨hfinished, hlater⟩) And.right⟩
  · apply writeSection_safe hfull.writeData
    intro data ctx' after hfull'
    obtain ⟨chunks, hchunked⟩ := exists_chunked partition data
    obtain ⟨ctx'', hrun, hfull''⟩ := hfull'.erase
    exact ⟨(-1, ctx''), after, hrun, chunks, hchunked, .inr hfull''⟩

theorem finished_not_full
    {next : Int} (hfinished : Finished start done next ctx flash) : ¬ Full ctx flash :=
  fun hfull => hfull.pending hfinished.stored_eq

/-- An offset inside of the partition is not changed by the conversion. -/
theorem unsigned_offset
    {first : Nat} {rest : List Nat} {pos : Nat} (hgood : start.goodFrom pos = first :: rest) :
    unsigned (first * partition.eraseSize : Nat) = first * partition.eraseSize := by
  have hlt := (goodFrom_cons hgood).2.1
  have hle := Nat.mul_le_mul_right partition.eraseSize hlt.le
  have hsize : partition.blockCount * partition.eraseSize ≤ partition.size :=
    Nat.div_mul_le_self _ _
  have hsmall := partition.size_lt
  have hmod : first * partition.eraseSize % 2 ^ 32 = first * partition.eraseSize :=
    Nat.mod_eq_of_lt (by omega)
  rw [unsigned]
  norm_cast

/-- The offset that the header gets for a section is that of its first block. -/
theorem Finished.section_offset
    {prev next : Int} {ctx' : MtdWriteContext} {after : Flash partition}
    (hbefore : Finished start done prev ctx flash)
    (hafter : Finished start (done ++ chunks) next ctx' after) (hne : chunks ≠ []) :
    ((start.goodFrom 0)[done.length]?).map (· * partition.eraseSize) =
      some (unsigned (mtdFindWriteStart partition ctx' prev)) := by
  have hpos := List.length_pos_iff.mpr hne
  have hcount : done.length < (done ++ chunks).length := by
    rw [List.length_append]
    omega
  obtain ⟨first, hfirst, hfind⟩ := hafter.tracked.findWriteStart_eq hcount
  have hgood := goodFrom_behind hbefore.tracked.behind.room
  have hdrop : (start.goodFrom 0).drop done.length =
      first :: (start.goodFrom 0).drop (done.length + 1) := by
    obtain ⟨hlt, hget⟩ := List.getElem?_eq_some_iff.mp hfirst
    rw [List.drop_eq_getElem_cons hlt, hget]
  rw [hdrop] at hgood
  rw [hbefore.next_eq, hbefore.tracked.behind.pos_eq, hfind, unsigned_offset hgood, hfirst]
  rfl

/-- Bytes have at least one chunk. -/
theorem chunks_ne_nil
    {data : Bytes} (hchunked : Chunked data chunks) (hdata : data ≠ []) : chunks ≠ [] := by
  rintro rfl
  obtain ⟨pad, -, hbytes⟩ := hchunked
  rw [blockBytes_nil, eq_comm, List.append_eq_nil_iff] at hbytes
  exact hdata hbytes.1

/-- What the first pass has written, and what it puts into the header. -/
structure Written
    (start : Flash partition) (header : UpdateHeader) (imageStart : Int)
    (ctx : MtdWriteContext) (flash : Flash partition)
    (zeros image busy fail : List (Block partition)) : Prop where
  zeros_chunked : Chunked UpdateHeader.zero.bytes zeros
  imageStart_eq : imageStart = (start.behind zeros.length * partition.eraseSize : Nat)
  image_offset : ((start.goodFrom 0)[zeros.length]?).map (· * partition.eraseSize) =
    some header.imageOffset
  busy_offset : ((start.goodFrom 0)[(zeros ++ image).length]?).map (· * partition.eraseSize) =
    some header.busyBitmapOffset
  fail_offset : ((start.goodFrom 0)[(zeros ++ image ++ busy).length]?).map
    (· * partition.eraseSize) = some header.failBitmapOffset
  stored_eq : ctx.stored = []
  tracked : Tracked start (zeros ++ image ++ busy ++ fail) ctx flash

/-- The first pass fails, or it writes the sections one behind the other. -/
theorem writeSections_safe
    {update busyBitmap failBitmap : Option Bytes}
    {updateLength bitmapWidth bitmapHeight bitmapBpp : Int}
    (hupdate : 0 < updateLength) (hbitmap : 0 < bitmapLength bitmapWidth bitmapHeight bitmapBpp) :
    Prog.SafeOk (Machine.atomic Flash.handle)
      (writeSections partition update updateLength bitmapWidth bitmapHeight bitmapBpp
        busyBitmap failBitmap)
      (fun result after => ∀ header imageStart ctx, result = some (header, imageStart, ctx) →
        Full ctx after ∨ ∃ imageData busyData failData zeros image busy fail,
          memoryAt update updateLength = some imageData ∧ Chunked imageData image ∧
          memoryAt busyBitmap (bitmapLength bitmapWidth bitmapHeight bitmapBpp) = some busyData ∧
          Chunked busyData busy ∧
          memoryAt failBitmap (bitmapLength bitmapWidth bitmapHeight bitmapBpp) = some failData ∧
          Chunked failData fail ∧
          Written start header imageStart ctx after zeros image busy fail)
      (fun _ => True) start := by
  unfold writeSections
  simp only
  rw [Prog.safeOk_bind]
  apply (writeSection_settled (.inl (finished_start start))).mono _ (fun _ h => h)
  rintro (_ | ⟨imageStart, ctx⟩) first hzeroSection
  · rw [Prog.safeOk_pure]
    exact ⟨fun _ _ _ hresult => (nomatch hresult), trivial⟩
  obtain ⟨zeroData, hzeroData, zeros, hzeros, hfirst⟩ := hzeroSection _ rfl
  simp only
  rw [Prog.safeOk_bind]
  apply (writeSection_settled (hfirst.imp_left And.right)).mono _ (fun _ h => h)
  rintro (_ | ⟨busyStart, ctx'⟩) second himageSection
  · rw [Prog.safeOk_pure]
    exact ⟨fun _ _ _ hresult => (nomatch hresult), trivial⟩
  obtain ⟨imageData, himageData, image, himage, hsecond⟩ := himageSection _ rfl
  simp only
  rw [Prog.safeOk_bind]
  apply (writeSection_settled (hsecond.imp_left And.right)).mono _ (fun _ h => h)
  rintro (_ | ⟨failStart, ctx''⟩) third hbusySection
  · rw [Prog.safeOk_pure]
    exact ⟨fun _ _ _ hresult => (nomatch hresult), trivial⟩
  obtain ⟨busyData, hbusyData, busy, hbusy, hthird⟩ := hbusySection _ rfl
  simp only
  rw [Prog.safeOk_bind]
  apply (writeSection_settled (hthird.imp_left And.right)).mono _ (fun _ h => h)
  rintro (_ | ⟨finish, last⟩) fourth hfailSection
  · rw [Prog.safeOk_pure]
    exact ⟨fun _ _ _ hresult => (nomatch hresult), trivial⟩
  obtain ⟨failData, hfailData, fail, hfail, hfourth⟩ := hfailSection _ rfl
  simp only
  rw [Prog.safeOk_pure]
  refine ⟨?_, trivial⟩
  intro header imageStart' final hresult
  rw [Option.some.injEq, Prod.mk.injEq, Prod.mk.injEq] at hresult
  obtain ⟨rfl, rfl, rfl⟩ := hresult
  rcases hfourth with ⟨hafterBusy, hafterFail⟩ | hfull
  · refine .inr ⟨imageData, busyData, failData, zeros, image, busy, fail, himageData, himage,
      hbusyData, hbusy, hfailData, hfail, ?_⟩
    obtain ⟨hafterImage, -⟩ := hthird.resolve_right (finished_not_full hafterBusy)
    obtain ⟨hafterZeros, -⟩ := hsecond.resolve_right (finished_not_full hafterImage)
    have himageNe := chunks_ne_nil himage (memoryAt_ne_nil himageData hupdate)
    have hbusyNe := chunks_ne_nil hbusy (memoryAt_ne_nil hbusyData hbitmap)
    have hfailNe := chunks_ne_nil hfail (memoryAt_ne_nil hfailData hbitmap)
    have hzeroBytes : zeroData = UpdateHeader.zero.bytes := by
      have hmemory : memoryAt (some UpdateHeader.zero.bytes) updateHeaderSize =
          some UpdateHeader.zero.bytes := by decide
      rw [hmemory] at hzeroData
      exact (Option.some.inj hzeroData).symm
    rw [List.nil_append] at hafterZeros hafterImage hafterBusy hafterFail
    constructor
    · exact hzeroBytes ▸ hzeros
    · have hnext : imageStart = (ctx.pos * partition.eraseSize : Nat) := hafterZeros.next_eq
      have hpos : ctx.pos = start.behind zeros.length := hafterZeros.tracked.behind.pos_eq
      rw [hnext, hpos]
    · exact hafterZeros.section_offset hafterImage himageNe
    · exact hafterImage.section_offset hafterBusy hbusyNe
    · exact hafterBusy.section_offset hafterFail hfailNe
    · exact hafterFail.stored_eq
    · exact hafterFail.tracked
  · exact .inl hfull

end Sections

/-! ## The second pass -/

section Rewriting

variable {partition : MtdPartition} {start flash : Flash partition}
variable {ctx : MtdWriteContext} {header : UpdateHeader} {imageStart : Int}

theorem Finished.close
    {done : List (Block partition)} {next : Int} (hfinished : Finished start done next ctx flash) :
    (mtdWriteClose partition ctx).run Flash.handle flash = (0, flash) := by
  have hshort : ctx.stored.length < partition.eraseSize := by
    rw [hfinished.stored_eq]
    exact partition.eraseSize_pos
  obtain ⟨stored, pos, offsets⟩ := ctx
  obtain rfl : stored = [] := hfinished.stored_eq
  have hnonneg : ¬ ((pos * partition.eraseSize : Nat) : Int) = -1 := by omega
  rw [mtdWriteClose, mtdEraseBlocks, flushPending, if_neg (by simp)]
  simp only [Prog.pure_eq, Prog.pure_bind_eq, ne_eq, not_true_eq_false, if_false,
    lt_self_iff_false, Int.toNat_zero, eraseLoop]
  rw [if_neg (not_lt.mpr (Int.natCast_nonneg _))]
  simp only [Prog.pure_bind_eq, hnonneg, if_false, Prog.run_pure]

/-- The header goes to the first blocks again. -/
theorem rewriteUpdateHeader_safe (himageStart : 0 ≤ imageStart) :
    (rewriteUpdateHeader partition header imageStart).Safe (Machine.atomic Flash.handle)
      (fun result after => ∀ ctx, result = some ctx →
        ∃ headers, Chunked header.bytes headers ∧ Finished start headers imageStart ctx after)
      (fun _ => True) start := by
  obtain ⟨headers, hchunked⟩ := exists_chunked partition header.bytes
  have hfinished := finished_start start
  have hsize : (header.bytes.length : Int) = updateHeaderSize := by
    rw [header.bytes_length]
    rfl
  rw [rewriteUpdateHeader, Prog.safe_bind]
  apply (hfinished.tracked.writeData hfinished.stored_eq hchunked).mono _ (fun _ h => h)
  rintro ⟨wrote, ctx⟩ after hwritten
  simp only at hwritten ⊢
  apply Prog.safe_of_run
  by_cases hwrote : wrote = updateHeaderSize
  · obtain ⟨written, htracked, hshort, hbytes⟩ := hwritten (hwrote.trans hsize.symm)
    obtain ⟨next, ctx', after', hrun, hcases⟩ := erase_run htracked hshort hbytes hchunked
    rw [if_neg (by simp [hwrote])]
    simp only [Prog.run_bind, hrun]
    by_cases hnext : next = imageStart
    · rw [if_neg (by simp [hnext])]
      intro ctx'' hresult
      obtain rfl := Option.some.inj hresult
      rcases hcases with hlater | ⟨hfailed, -⟩
      · rw [hnext, List.nil_append] at hlater
        exact ⟨headers, hchunked, hlater⟩
      · omega
    · rw [if_pos hnext]
      intro ctx'' hresult
      simp only [Prog.run_bind, Prog.pure_eq, Prog.run_pure] at hresult
      cases hresult
  · rw [if_pos hwrote]
    intro ctx' hresult
    simp only [Prog.run_bind, Prog.pure_eq, Prog.run_pure] at hresult
    cases hresult

/-- A run that installs the header has written it. -/
theorem installHeader_run
    {final : Flash partition} (himageStart : 0 ≤ imageStart)
    (hrun : (installHeader partition header imageStart).run Flash.handle start = (0, final)) :
    ∃ ctx headers,
      (rewriteUpdateHeader partition header imageStart).run Flash.handle start =
          (some ctx, final) ∧
        Chunked header.bytes headers ∧ Finished start headers imageStart ctx final := by
  have hrewrite := (@rewriteUpdateHeader_safe partition start header _ himageStart).run_post
  rw [installHeader, Prog.run_bind] at hrun
  generalize (rewriteUpdateHeader partition header imageStart).run Flash.handle start =
    result at hrun hrewrite ⊢
  obtain ⟨_ | ctx, after⟩ := result
  · simp at hrun
  · obtain ⟨headers, hchunked, hfinished⟩ := hrewrite ctx rfl
    simp only [Prog.run_bind, hfinished.close, ne_eq, not_true_eq_false, if_false,
      Prog.pure_eq, Prog.run_pure, Prod.mk.injEq, true_and] at hrun
    rw [← hrun]
    exact ⟨ctx, headers, rfl, hchunked, hfinished⟩

end Rewriting

/-! ## The partition in the end -/

section Layout

variable {partition : MtdPartition} {start final : Flash partition}

/-- The blocks at these positions hold the data, padded with zeros. -/
def Occupies (flash : Flash partition) (positions : List Nat) (data : Bytes) : Prop :=
  Chunked data (positions.map flash.block)

/-- The header and the sections lie on consecutive good blocks, without
overlapping, and the header gives the offset of each section's first block. -/
structure UpdateLayout
    (start final : Flash partition) (header : UpdateHeader) (image busy fail : Bytes)
    (headerAt imageAt busyAt failAt : List Nat) : Prop where
  consecutive : headerAt ++ imageAt ++ busyAt ++ failAt <+: start.goodFrom 0
  disjoint : (headerAt ++ imageAt ++ busyAt ++ failAt).Nodup
  header_holds : Occupies final headerAt header.bytes
  image_holds : Occupies final imageAt image
  busy_holds : Occupies final busyAt busy
  fail_holds : Occupies final failAt fail
  image_offset : imageAt.head?.map (· * partition.eraseSize) = some header.imageOffset
  busy_offset : busyAt.head?.map (· * partition.eraseSize) = some header.busyBitmapOffset
  fail_offset : failAt.head?.map (· * partition.eraseSize) = some header.failBitmapOffset

/-- What holds of all positions in their order holds of both parts. -/
theorem map_take_append
    {β : Type} {f : Nat → β} {good : List Nat} {first second : List β}
    (hmap : (good.take (first ++ second).length).map f = first ++ second) :
    (good.take first.length).map f = first ∧
      ((good.drop first.length).take second.length).map f = second := by
  have hlength := congrArg List.length hmap
  rw [List.length_map, List.length_take, List.length_append] at hlength
  rw [List.length_append, List.take_add, List.map_append] at hmap
  apply List.append_inj hmap
  rw [List.length_map, List.length_take]
  omega

/-- As many chunks as for other data of the same length. -/
theorem chunked_length
    {first second : Bytes} {chunks chunks' : List (Block partition)}
    (hfirst : Chunked first chunks) (hsecond : Chunked second chunks')
    (hlength : first.length = second.length) : chunks.length = chunks'.length := by
  have hfits : ∀ {data : Bytes} {chunks : List (Block partition)}, Chunked data chunks →
      data.length ≤ chunks.length * partition.eraseSize := by
    rintro data chunks ⟨pad, -, hbytes⟩
    have hbytesLength := congrArg List.length hbytes
    rw [blockBytes_length, List.length_append] at hbytesLength
    omega
  exact le_antisymm (hfirst.fits (hlength ▸ hfits hsecond))
    (hsecond.fits (hlength ▸ hfits hfirst))

theorem head?_section
    {good : List Nat} {count : Nat} {chunks : List (Block partition)} (hne : chunks ≠ []) :
    ((good.drop count).take chunks.length).head? = good[count]? := by
  have hpos := List.length_pos_iff.mpr hne
  rw [List.head?_take, if_neg (by omega), List.head?_drop]

/-- Both passes together. -/
theorem updateLayout_of_passes
    {middle : Flash partition} {header : UpdateHeader} {imageStart : Int}
    {ctx ctx' : MtdWriteContext} {imageData busyData failData : Bytes}
    {zeros image busy fail headers : List (Block partition)}
    (hwritten : Written start header imageStart ctx middle zeros image busy fail)
    (himage : Chunked imageData image) (hbusy : Chunked busyData busy)
    (hfail : Chunked failData fail) (himageNe : image ≠ []) (hbusyNe : busy ≠ [])
    (hfailNe : fail ≠ []) (hheaders : Chunked header.bytes headers)
    (hfinished : Finished middle headers imageStart ctx' final) :
    UpdateLayout start final header imageData busyData failData
      ((start.goodFrom 0).take headers.length)
      (((start.goodFrom 0).drop headers.length).take image.length)
      (((start.goodFrom 0).drop (headers ++ image).length).take busy.length)
      (((start.goodFrom 0).drop (headers ++ image ++ busy).length).take fail.length) := by
  have hsame : headers.length = zeros.length := by
    apply chunked_length hheaders hwritten.zeros_chunked
    rw [header.bytes_length, UpdateHeader.zero.bytes_length]
  have hmiddle := hwritten.tracked.behind.placed.flash_eq
  have hbad := hwritten.tracked.behind.bad_eq
  have hroom := hwritten.tracked.behind.room
  have hnodup := goodFrom_nodup start 0
  have hfinal : final =
      start.place (start.goodFrom 0) (headers ++ image ++ busy ++ fail) := by
    rw [hfinished.tracked.behind.placed.flash_eq, goodFrom_congr hbad, hmiddle,
      place_place _ hnodup (by simp only [List.length_append]; omega)]
    congr 1
    simp only [List.append_assoc]
    rw [hsame, List.drop_left]
  have htotal : (headers ++ image ++ busy ++ fail).length ≤ (start.goodFrom 0).length := by
    simp only [List.length_append] at hroom ⊢
    omega
  have hmap := place_map_block start hnodup htotal
  rw [← hfinal] at hmap
  obtain ⟨hbusyMap, hfailAt⟩ := map_take_append hmap
  obtain ⟨himageMap, hbusyAt⟩ := map_take_append hbusyMap
  obtain ⟨hheaderAt, himageAt⟩ := map_take_append himageMap
  have hall : (start.goodFrom 0).take headers.length ++
      ((start.goodFrom 0).drop headers.length).take image.length ++
      ((start.goodFrom 0).drop (headers ++ image).length).take busy.length ++
      ((start.goodFrom 0).drop (headers ++ image ++ busy).length).take fail.length =
        (start.goodFrom 0).take (headers ++ image ++ busy ++ fail).length := by
    have hsplit : ∀ first second : List (Block partition),
        (start.goodFrom 0).take first.length ++
            ((start.goodFrom 0).drop first.length).take second.length =
          (start.goodFrom 0).take (first ++ second).length := by
      intro first second
      rw [List.length_append, List.take_add]
    rw [hsplit, hsplit, hsplit]
  constructor
  · rw [hall]
    exact List.take_prefix _ _
  · rw [hall]
    exact hnodup.sublist (List.take_sublist _ _)
  · rw [Occupies, hheaderAt]
    exact hheaders
  · rw [Occupies, himageAt]
    exact himage
  · rw [Occupies, hbusyAt]
    exact hbusy
  · rw [Occupies, hfailAt]
    exact hfail
  · rw [head?_section himageNe, hsame]
    exact hwritten.image_offset
  · rw [head?_section hbusyNe, List.length_append, hsame, ← List.length_append]
    exact hwritten.busy_offset
  · rw [head?_section hfailNe, List.length_append, List.length_append, hsame,
      ← List.length_append, ← List.length_append]
    exact hwritten.fail_offset

end Layout

/-! ## The whole function -/

section Whole

variable {build : Build} {env : Env} {world after : World}
variable {update busyBitmap failBitmap : Option Bytes}
variable {updateLength bitmapWidth bitmapHeight bitmapBpp : Int}

theorem getRootMtdPartition_cache (build : Build) (env : Env) (world : World) :
    (getRootMtdPartition build "CACHE:".toList).run (World.handle env) world =
      ((world.partitions "cache".toList).map fun entry => ("cache".toList, entry.1), world) := by
  rw [getRootMtdPartition, getRootInfoForPath_cache]
  simp only [yaffsRoot, Prog.ask_bind_eq, Prog.run_request, World.handle]
  cases world.partitions "cache".toList with
  | none => rfl
  | some entry => rfl

theorem openPartition_exec (name : CString) :
    Prog.exec (World.handle env) (call (.openPartition name)) world =
      (.ok (world.partitions name).isSome, world) := rfl

theorem onPartition_exec
    {α ε : Type} {name : CString} {partition : MtdPartition} {flash : Flash partition}
    (program : ExceptT ε (Prog MtdOp MtdOp.Reply) α)
    (hflash : world.partitions name = some ⟨partition, flash⟩) :
    Prog.exec (World.handle env) (ExceptT.mk (onPartition name program.run)) world =
      ((Prog.exec Flash.handle program flash).1,
        world.setFlash name (Prog.exec Flash.handle program flash).2) :=
  onPartition_run env program.run hflash

/-- A run that succeeds goes through both passes and both closes. -/
theorem writeUpdateForBootloader_passes
    (hreturns : Prog.exec (World.handle env) (writeUpdateForBootloader update updateLength
      bitmapWidth bitmapHeight bitmapBpp busyBitmap failBitmap build) world = (.ok 0, after)) :
    ∃ (partition : MtdPartition) (start middle closed final : Flash partition)
      (header : UpdateHeader) (imageStart : Int) (ctx : MtdWriteContext),
      world.partitions "cache".toList = some ⟨partition, start⟩ ∧
      Prog.exec Flash.handle (writeSections partition update updateLength bitmapWidth
          bitmapHeight bitmapBpp busyBitmap failBitmap) start =
        (.ok (some (header, imageStart, ctx)), middle) ∧
      (mtdWriteClose partition ctx).run Flash.handle middle = (0, closed) ∧
      (installHeader partition header imageStart).run Flash.handle closed = (0, final) ∧
      after.partitions "cache".toList = some ⟨partition, final⟩ := by
  unfold writeUpdateForBootloader at hreturns
  obtain ⟨unmounted, world', hunmount, hreturns⟩ := Prog.exec_bind_eq_ok hreturns
  have hremounted : World.Remounted world world' := by
    have hframe := @run_remounted env world _ _
      (@ensureRootPathUnmounted_mounts build "CACHE:".toList)
    rw [← Prog.exec, hunmount] at hframe
    exact hframe
  by_cases hfailed : unmounted ≠ 0
  · simp [hfailed] at hreturns
  rw [if_neg hfailed] at hreturns
  obtain ⟨root, world'', hroot, hreturns⟩ := Prog.exec_bind_eq_ok hreturns
  rw [Prog.exec_lift, getRootMtdPartition_cache, Prod.mk.injEq] at hroot
  obtain ⟨hroot, rfl⟩ := hroot
  rw [← hremounted.partitions]
  cases hcache : world'.partitions "cache".toList with
  | none =>
      rw [hcache] at hroot
      obtain rfl := Except.ok.inj hroot
      simp at hreturns
  | some entry =>
      obtain ⟨partition, start⟩ := entry
      rw [hcache] at hroot
      obtain rfl := Except.ok.inj hroot
      simp only [Option.map_some] at hreturns
      rw [Prog.exec_bind_ok (openPartition_exec _), hcache, Option.isSome_some,
        if_pos rfl] at hreturns
      obtain ⟨sections, world'', hsections, hreturns⟩ := Prog.exec_bind_eq_ok hreturns
      rw [onPartition_exec _ hcache] at hsections
      generalize hpass : Prog.exec Flash.handle (writeSections partition update updateLength
        bitmapWidth bitmapHeight bitmapBpp busyBitmap failBitmap) start = pass at hsections ⊢
      obtain ⟨result, middle⟩ := pass
      rw [Prod.mk.injEq] at hsections
      obtain ⟨rfl, rfl⟩ := hsections
      obtain _ | ⟨header, imageStart, ctx⟩ := sections
      · simp at hreturns
      have hmiddle := world'.setFlash_partitions_self "cache".toList middle
      simp only at hreturns
      obtain ⟨wrong, world'', hclose, hreturns⟩ := Prog.exec_bind_eq_ok hreturns
      rw [Prog.exec_lift, onPartition_run env _ hmiddle, World.setFlash_setFlash,
        Prod.mk.injEq] at hclose
      obtain ⟨hclose, rfl⟩ := hclose
      by_cases hwrong : wrong ≠ 0
      · simp [hwrong] at hreturns
      rw [if_neg hwrong] at hreturns
      generalize hclosed : (mtdWriteClose partition ctx).run Flash.handle middle = closing at *
      obtain ⟨result, closed⟩ := closing
      have hpartition := world'.setFlash_partitions_self "cache".toList closed
      rw [Prog.exec_bind_ok (openPartition_exec _), hpartition, Option.isSome_some, if_pos rfl,
        Prog.exec_lift, onPartition_run env _ hpartition, World.setFlash_setFlash,
        Prod.mk.injEq] at hreturns
      obtain ⟨hinstall, rfl⟩ := hreturns
      refine ⟨partition, start, middle, closed, _, header, imageStart, ctx, rfl, hpass, ?_, ?_,
        world'.setFlash_partitions_self _ _⟩
      · obtain rfl : result = wrong := Except.ok.inj hclose
        rw [hclosed, not_not.mp hwrong]
      · exact Prod.ext (Except.ok.inj hinstall) rfl

/-- The update lies on the cache partition with the right offsets in its header,
and the contexts of the two sessions have kept their lists in order. -/
def UpdateInstalled
    (update : Option Bytes) (updateLength bitmapWidth bitmapHeight bitmapBpp : Int)
    (busyBitmap failBitmap : Option Bytes) (world after : World) : Prop :=
  ∃ (partition : MtdPartition) (start middle final : Flash partition)
    (header : UpdateHeader) (imageStart : Int) (first second : MtdWriteContext),
    world.partitions "cache".toList = some ⟨partition, start⟩ ∧
    Prog.exec Flash.handle (writeSections partition update updateLength bitmapWidth
        bitmapHeight bitmapBpp busyBitmap failBitmap) start =
      (.ok (some (header, imageStart, first)), middle) ∧
    (rewriteUpdateHeader partition header imageStart).run Flash.handle middle =
      (some second, final) ∧
    after.partitions "cache".toList = some ⟨partition, final⟩ ∧
    first.badBlockOffsets.Pairwise (· < ·) ∧ second.badBlockOffsets.Pairwise (· < ·) ∧
    ∃ image busy fail headerAt imageAt busyAt failAt,
      memoryAt update updateLength = some image ∧
      memoryAt busyBitmap (bitmapLength bitmapWidth bitmapHeight bitmapBpp) = some busy ∧
      memoryAt failBitmap (bitmapLength bitmapWidth bitmapHeight bitmapBpp) = some fail ∧
      UpdateLayout start final header image busy fail headerAt imageAt busyAt failAt

/-- Whatever blocks are bad, a run that succeeds installs the update. -/
theorem writeUpdateForBootloader_layout
    (hupdate : 0 < updateLength)
    (hbitmap : 0 < bitmapLength bitmapWidth bitmapHeight bitmapBpp)
    (hreturns : Prog.exec (World.handle env) (writeUpdateForBootloader update updateLength
      bitmapWidth bitmapHeight bitmapBpp busyBitmap failBitmap build) world = (.ok 0, after)) :
    UpdateInstalled update updateLength bitmapWidth bitmapHeight bitmapBpp busyBitmap failBitmap
      world after := by
  obtain ⟨partition, start, middle, closed, final, header, imageStart, ctx, hbefore, hpass,
    hclose, hinstall, hafter⟩ := writeUpdateForBootloader_passes hreturns
  have hsections := Prog.Safe.run_post (@writeSections_safe partition start update busyBitmap
    failBitmap _ _ _ _ hupdate hbitmap)
  rw [← Prog.exec, hpass] at hsections
  rcases hsections _ rfl header imageStart ctx rfl with hfull | ⟨image, busy, fail, zeros,
    imageChunks, busyChunks, failChunks, himage, himageChunks, hbusy, hbusyChunks, hfail,
    hfailChunks, hwritten⟩
  · rw [hfull.close, Prod.mk.injEq] at hclose
    omega
  · have hfinished : Finished start (zeros ++ imageChunks ++ busyChunks ++ failChunks)
        (ctx.pos * partition.eraseSize : Nat) ctx middle :=
      ⟨hwritten.stored_eq, rfl, hwritten.tracked⟩
    rw [hfinished.close, Prod.mk.injEq] at hclose
    obtain ⟨-, rfl⟩ := hclose
    have himageStart : 0 ≤ imageStart := by
      rw [hwritten.imageStart_eq]
      exact Int.natCast_nonneg _
    obtain ⟨ctx', headers, hrewrite, hheaders, hlast⟩ := installHeader_run himageStart hinstall
    exact ⟨partition, start, middle, final, header, imageStart, ctx, ctx', hbefore, hpass,
      hrewrite, hafter, hwritten.tracked.remembers.sorted, hlast.tracked.remembers.sorted,
      image, busy, fail, _, _, _, _, himage, hbusy, hfail,
      updateLayout_of_passes hwritten himageChunks hbusyChunks hfailChunks
        (chunks_ne_nil himageChunks (memoryAt_ne_nil himage hupdate))
        (chunks_ne_nil hbusyChunks (memoryAt_ne_nil hbusy hbitmap))
        (chunks_ne_nil hfailChunks (memoryAt_ne_nil hfail hbitmap)) hheaders hlast⟩

end Whole

def patchyPartition : MtdPartition where
  size := 320
  eraseSize := 16
  eraseSize_pos := by decide
  size_lt := by decide

/-- Bad blocks at the beginning and on both sides of the first boundary. -/
def patchyWorld : World where
  files _ := none
  partitions name :=
    if name = "cache".toList then
      some ⟨patchyPartition, fun _ => erasedBlock patchyPartition,
        fun block => [0, 5, 6].contains block⟩
    else none
  stdout := []

theorem writeUpdateForBootloader_layout_patchy :
    ∃ after, UpdateInstalled (some [1]) 1 1 1 8 (some [2]) (some [3]) patchyWorld after := by
  have hreturns : (Prog.exec (World.handle sampleEnv) (writeUpdateForBootloader (some [1]) 1 1 1 8
      (some [2]) (some [3]) ⟨false, false⟩) patchyWorld).1 = .ok 0 := by
    with_unfolding_all decide
  exact ⟨_, writeUpdateForBootloader_layout (by decide) (by with_unfolding_all decide)
    (Prod.ext hreturns rfl)⟩

end OpenRecovery
