import OpenRecovery.System
import Mathlib

/-!
# `flash_image` and `dump_image`

`flash_image` compares the beginning of the image with the beginning of the
partition and stops if they agree.  Otherwise it writes the image with a
header of zeros and then writes the first block again with the real header.
`dump_image` copies what the reader delivers to a file.
-/

namespace OpenRecovery

open Effects Mtd

/-- Size of the header to compare for equality. -/
def headerSize : Nat := 2048

/-- How a copy loop came to its end: normally, by a failed call, or not within
the given number of rounds. -/
inductive CopyResult where
  | done (ctx : MtdWriteContext)
  | died
  | running

/-- The first part of the image is already at the beginning of the partition. -/
def checkHeader (name : CString) (partition : MtdPartition) (header : Bytes) :
    SysProg Bool := do
  if ← Prog.ask (SysOp.openPartition name) then
    let (check, _) ← onPartition name
      (mtdReadData partition (mtdReadPartition partition) headerSize)
    match check with
    | none => pure false
    | some check => pure (decide (0 < check.length ∧ check = header))
  else
    pure false

/-- `while ((len = read(fd, buf, sizeof(buf))) > 0)`. -/
def copyRest (name image : CString) (partition : MtdPartition) :
    (fuel offset : Nat) → MtdWriteContext → SysProg CopyResult
  | 0, _, _ => pure .running
  | fuel + 1, offset, out => do
      match ← Prog.ask (SysOp.read image offset headerSize) with
      | none => pure .died
      | some buf =>
          if buf.length = 0 then
            pure (.done out)
          else
            let (wrote, out) ← onPartition name (mtdWriteData partition out buf)
            if wrote ≠ buf.length then pure .died
            else copyRest name image partition fuel (offset + buf.length) out

/-- `while (left > 0)`; every round takes at least one byte. -/
def copyLeft (name image : CString) (partition : MtdPartition) :
    (fuel left offset : Nat) → MtdWriteContext → SysProg CopyResult
  | 0, left, _, out => pure (if 0 < left then .running else .done out)
  | fuel + 1, left, offset, out => do
      if 0 < left then
        match ← Prog.ask (SysOp.read image offset (min left headerSize)) with
        | none => pure .died
        | some buf =>
            if buf.length = 0 then
              pure .died
            else
              let (wrote, out) ← onPartition name (mtdWriteData partition out buf)
              if wrote ≠ buf.length then pure .died
              else
                copyLeft name image partition fuel (left - buf.length)
                  (offset + buf.length) out
      else
        pure (.done out)

/-- Come back and write the header last, with the rest of its last block.  The
result is the exit status. -/
def rewriteHeader (name image : CString) (partition : MtdPartition) (header : Bytes) :
    SysProg (Option Int) := do
  if ← Prog.ask (SysOp.openPartition name) then
    let (wrote, out) ← onPartition name (mtdWriteData partition mtdWritePartition header)
    if wrote ≠ header.length then pure (some 1)
    else
      match ← Prog.ask (SysOp.partitionInfo name) with
      | none => pure (some 1)
      | some (_, blockSize) =>
          let left := (((blockSize : Int) - header.length) % blockSize).toNat
          match ← copyLeft name image partition left left header.length out with
          | .running => pure none
          | .died => pure (some 1)
          | .done out =>
              let failed ← onPartition name (mtdWriteClose partition out)
              pure (some (if failed ≠ 0 then 1 else 0))
  else
    pure (some 1)

/-- Skip the header, write everything else. -/
def writeImage (name image : CString) (partition : MtdPartition) (header : Bytes)
    (fuel : Nat) : SysProg (Option Int) := do
  if ← Prog.ask (SysOp.openPartition name) then
    let (wrote, out) ← onPartition name
      (mtdWriteData partition mtdWritePartition (List.replicate header.length 0))
    if wrote ≠ header.length then pure (some 1)
    else
      match ← copyRest name image partition fuel header.length out with
      | .running => pure none
      | .died => pure (some 1)
      | .done out =>
          let failed ← onPartition name (mtdWriteClose partition out)
          if failed ≠ 0 then pure (some 1)
          else rewriteHeader name image partition header
  else
    pure (some 1)

/-- `main` of `flash_image`; `none` if the image was not read to its end within
`fuel` rounds. -/
def flashImage (name image : CString) (fuel : Nat) : SysProg (Option Int) := do
  if (← Prog.ask SysOp.scanPartitions) ≤ 0 then pure (some 1)
  else
    match ← Prog.ask (SysOp.findPartition name) with
    | none => pure (some 1)
    | some partition =>
        if ← Prog.ask (SysOp.openRead image) then
          match ← Prog.ask (SysOp.read image 0 headerSize) with
          | none => pure (some 1)
          | some header =>
              if header.length = 0 then pure (some 1)
              else if ← checkHeader name partition header then pure (some 0)
              else writeImage name image partition header fuel
        else
          pure (some 1)

/-- Read the partition in pieces and write them to the image file; `none` if
the partition was not read to its end within `fuel` rounds. -/
def dumpLoop (name : CString) (partition : MtdPartition) (fd : Descriptor) :
    (fuel : Nat) → MtdReadContext → SysProg (Option Bool)
  | 0, _ => pure none
  | fuel + 1, input => do
      let (buf, input) ← onPartition name (mtdReadData partition input headerSize)
      match buf with
      | none => pure (some true)
      | some buf =>
          if buf.length = 0 then pure (some true)
          else if (← Prog.ask (SysOp.write fd buf)) ≠ buf.length then pure (some false)
          else dumpLoop name partition fd fuel input

/-- The error exit of `dump_image` once the image file is open. -/
def dumpFail (out : CString) (fd : Descriptor) : SysProg (Option Int) := do
  let _ ← Prog.ask (SysOp.close fd)
  let _ ← Prog.ask (SysOp.unlink out)
  pure (some 1)

/-- `main` of `dump_image`. -/
def dumpImage (name out : CString) (fuel : Nat) : SysProg (Option Int) := do
  if (← Prog.ask SysOp.scanPartitions) ≤ 0 then pure (some 1)
  else
    match ← Prog.ask (SysOp.findPartition name) with
    | none => pure (some 1)
    | some partition =>
        match ← Prog.ask (SysOp.partitionInfo name) with
        | none => pure (some 1)
        | some _ =>
            let fd := if out = "-".toList then .stdout else .file out
            let opened ←
              if out = "-".toList then pure true else Prog.ask (SysOp.create out)
            if !opened then pure (some 1)
            else if ← Prog.ask (SysOp.openPartition name) then
              match ← dumpLoop name partition fd fuel (mtdReadPartition partition) with
              | none => pure none
              | some false => dumpFail out fd
              | some true =>
                  if ← Prog.ask (SysOp.close fd) then pure (some 0)
                  else
                    let _ ← Prog.ask (SysOp.unlink out)
                    pure (some 1)
            else
              dumpFail out fd

/-! ## What `flash_image` leaves -/

section Flashing

variable {env : Env} {name image : CString} {partition : MtdPartition}
variable {start flash : Flash partition} {world : World} {file : File}
variable {blocks : List (Block partition)} {crash : World → Prop}

theorem onPartition_write_safe
    {ctx : MtdWriteContext} {taken data : Bytes}
    {post : Int × MtdWriteContext → World → Prop}
    (hstreamed : Streamed (Placed start) blocks taken ctx flash)
    (hdata : taken ++ data <+: blockBytes blocks)
    (hroom : blocks.length ≤ (start.goodFrom 0).length)
    (hcrash : ∀ after, Interrupted start blocks after → crash (world.setFlash name after))
    (hpost : ∀ ctx' after, Streamed (Placed start) blocks (taken ++ data) ctx' after →
      post (data.length, ctx') (world.setFlash name after)) :
    (onPartition name (mtdWriteData partition ctx data)).Safe
      (Machine.atomic (World.handle env)) post crash (world.setFlash name flash) :=
  onPartition_safe ((writesBlocks_placed hroom hcrash).mtdWriteData_safe hstreamed hdata
    hpost (fun _ _ hfalse => hfalse.elim))

theorem onPartition_close_safe
    {ctx : MtdWriteContext} {taken : Bytes} {pad : Nat} {post : Int → World → Prop}
    (hstreamed : Streamed (Placed start) blocks taken ctx flash)
    (hpadded : blockBytes blocks = taken ++ List.replicate pad 0)
    (hpad : pad < partition.eraseSize)
    (hroom : blocks.length ≤ (start.goodFrom 0).length)
    (hcrash : ∀ after, Interrupted start blocks after → crash (world.setFlash name after))
    (hpost : post 0 (world.setFlash name (start.place (start.goodFrom 0) blocks))) :
    (onPartition name (mtdWriteClose partition ctx)).Safe
      (Machine.atomic (World.handle env)) post crash (world.setFlash name flash) := by
  apply onPartition_safe
  apply (writesBlocks_placed hroom hcrash).mtdWriteClose_safe hstreamed hpadded hpad
  · intro pos after hafter
    rw [hafter.flash_eq]
    exact hpost
  · intro after hfalse
    exact hfalse.elim

theorem crash_of_streamed
    {ctx : MtdWriteContext} {taken : Bytes}
    (hstreamed : Streamed (Placed start) blocks taken ctx flash)
    (hcrash : ∀ after, Interrupted start blocks after → crash (world.setFlash name after)) :
    crash (world.setFlash name flash) := by
  obtain ⟨done, hplaced, hbegins, -, -⟩ := hstreamed
  exact hcrash _ (hplaced.interrupted hbegins)

/-- The reply to reading the image file. -/
theorem handle_read_image
    (hfile : world.files image = some file) (flash : Flash partition) (offset len : Nat) :
    World.handle env (.read image offset len) (world.setFlash name flash) =
      (some ((file.data.drop offset).take len), world.setFlash name flash) := by
  simp [World.handle, hfile]

theorem copyRest_safe
    {fuel offset : Nat} {ctx : MtdWriteContext} {taken : Bytes}
    {post : CopyResult → World → Prop}
    (hfile : world.files image = some file)
    (hfuel : (file.data.drop offset).length < fuel)
    (hstreamed : Streamed (Placed start) blocks taken ctx flash)
    (hdata : taken ++ file.data.drop offset <+: blockBytes blocks)
    (hroom : blocks.length ≤ (start.goodFrom 0).length)
    (hcrash : ∀ after, Interrupted start blocks after → crash (world.setFlash name after))
    (hpost : ∀ ctx' after, Streamed (Placed start) blocks (taken ++ file.data.drop offset) ctx' after →
      post (.done ctx') (world.setFlash name after)) :
    (copyRest name image partition fuel offset ctx).Safe
      (Machine.atomic (World.handle env)) post crash (world.setFlash name flash) := by
  induction fuel generalizing offset ctx taken flash with
  | zero => omega
  | succ fuel ih =>
      have hnow := crash_of_streamed hstreamed hcrash
      rw [copyRest, Prog.ask_bind_eq, Prog.safe_request_atomic, handle_read_image hfile]
      refine ⟨hnow, ?_⟩
      obtain ⟨buf, hbuf⟩ : ∃ buf, buf = (file.data.drop offset).take headerSize := ⟨_, rfl⟩
      have hrest : file.data.drop offset = buf ++ file.data.drop (offset + buf.length) := by
        rw [← List.drop_drop]
        exact (List.prefix_iff_eq_append.mp (hbuf ▸ List.take_prefix _ _)).symm
      simp only [← hbuf]
      by_cases hempty : buf.length = 0
      · have hnil : file.data.drop offset = [] := by
          have hlength := congrArg List.length hbuf
          rw [List.length_take, hempty, headerSize] at hlength
          exact List.length_eq_zero_iff.mp (by omega)
        rw [if_pos hempty]
        refine ⟨hpost ctx flash ?_, hnow⟩
        rw [hnil, List.append_nil]
        exact hstreamed
      · have hlength := congrArg List.length hrest
        rw [List.length_append] at hlength
        rw [hrest, ← List.append_assoc] at hdata hpost
        rw [if_neg hempty, Prog.safe_bind]
        apply onPartition_write_safe hstreamed ((List.prefix_append _ _).trans hdata) hroom hcrash
        intro ctx' after hafter
        simp only [ne_eq, not_true_eq_false, if_false]
        exact ih (by omega) hafter hdata hpost

theorem copyLeft_safe
    {fuel left offset : Nat} {ctx : MtdWriteContext} {taken : Bytes}
    {post : CopyResult → World → Prop}
    (hfile : world.files image = some file)
    (hfuel : left ≤ fuel) (hleft : left ≤ (file.data.drop offset).length)
    (hstreamed : Streamed (Placed start) blocks taken ctx flash)
    (hdata : taken ++ (file.data.drop offset).take left <+: blockBytes blocks)
    (hroom : blocks.length ≤ (start.goodFrom 0).length)
    (hcrash : ∀ after, Interrupted start blocks after → crash (world.setFlash name after))
    (hpost : ∀ ctx' after,
      Streamed (Placed start) blocks (taken ++ (file.data.drop offset).take left) ctx' after →
        post (.done ctx') (world.setFlash name after)) :
    (copyLeft name image partition fuel left offset ctx).Safe
      (Machine.atomic (World.handle env)) post crash (world.setFlash name flash) := by
  have hdone : left = 0 → post (.done ctx) (world.setFlash name flash) ∧
      crash (world.setFlash name flash) := by
    rintro rfl
    refine ⟨hpost ctx flash ?_, crash_of_streamed hstreamed hcrash⟩
    rw [List.take_zero, List.append_nil]
    exact hstreamed
  induction fuel generalizing left offset ctx taken flash with
  | zero =>
      obtain rfl : left = 0 := by omega
      exact hdone rfl
  | succ fuel ih =>
      rw [copyLeft]
      by_cases hzero : left = 0
      · rw [if_neg (by omega)]
        exact hdone hzero
      · rw [if_pos (by omega), Prog.ask_bind_eq, Prog.safe_request_atomic,
          handle_read_image hfile]
        refine ⟨crash_of_streamed hstreamed hcrash, ?_⟩
        obtain ⟨buf, hbuf⟩ : ∃ buf,
            buf = (file.data.drop offset).take (min left headerSize) := ⟨_, rfl⟩
        have hlength : buf.length = min left headerSize := by
          rw [hbuf, List.length_take]
          omega
        have hrest : (file.data.drop offset).take left =
            buf ++ (file.data.drop (offset + buf.length)).take (left - buf.length) := by
          rw [← List.drop_drop, hlength, hbuf, ← List.take_add]
          congr 1
          omega
        have hpos : buf.length ≠ 0 := by
          rw [hlength, headerSize]
          omega
        have hnext : left - buf.length ≤ (file.data.drop (offset + buf.length)).length := by
          rw [List.length_drop] at hleft ⊢
          omega
        simp only [← hbuf]
        rw [hrest, ← List.append_assoc] at hdata hpost
        rw [if_neg hpos, Prog.safe_bind]
        apply onPartition_write_safe hstreamed ((List.prefix_append _ _).trans hdata) hroom hcrash
        intro ctx' after hafter
        simp only [ne_eq, not_true_eq_false, if_false]
        refine ih (by omega) hnext hafter hdata hpost ?_
        intro hfinished
        refine ⟨hpost ctx' after ?_, crash_of_streamed hafter hcrash⟩
        rw [hfinished, List.take_zero, List.append_nil]
        exact hafter

/-- The number of bytes that complete the last block of the header. -/
theorem left_eq
    {size length count : Nat} (hle : length ≤ count * size) (hlt : count * size < length + size) :
    (((size : Int) - length) % size).toNat = count * size - length := by
  have hcast : ((size : Int) - length) =
      ((count * size - length : Nat) : Int) + (1 - (count : Int)) * size := by
    push_cast [hle]
    ring
  rw [hcast, Int.add_mul_emod_self_right, Int.emod_eq_of_lt (by omega) (by omega),
    Int.toNat_natCast]

/-- The second pass writes the blocks that the header touches. -/
theorem rewriteHeader_safe
    {header : Bytes} {post : Option Int → World → Prop}
    (hfile : world.files image = some file)
    (hheader : header <+: file.data)
    (hle : header.length ≤ blocks.length * partition.eraseSize)
    (hlt : blocks.length * partition.eraseSize < header.length + partition.eraseSize)
    (hblocks : blockBytes blocks <+: file.data)
    (hroom : blocks.length ≤ (start.goodFrom 0).length)
    (hcrash : ∀ after, Interrupted start blocks after → crash (world.setFlash name after))
    (hpost : post (some 0)
      (world.setFlash name (start.place (start.goodFrom 0) blocks))) :
    (rewriteHeader name image partition header).Safe
      (Machine.atomic (World.handle env)) post crash (world.setFlash name start) := by
  have hstart := @streamed_start _ _ blocks _ _ (placed_start start)
  have hnow := crash_of_streamed hstart hcrash
  have hlength := hblocks.length_le
  rw [blockBytes_length] at hlength
  have hbytes : blockBytes blocks = header ++ (file.data.drop header.length).take
      (blocks.length * partition.eraseSize - header.length) := by
    rw [List.prefix_iff_eq_take.mp hblocks, blockBytes_length]
    conv_lhs => rw [← List.prefix_iff_eq_append.mp hheader]
    rw [List.take_append, List.take_of_length_le hle]
  rw [rewriteHeader, Prog.ask_bind_eq, Prog.safe_request_atomic]
  refine ⟨hnow, ?_⟩
  simp only [World.handle, World.setFlash_partitions_self, Option.isSome_some, if_true]
  rw [Prog.safe_bind]
  apply onPartition_write_safe hstart
    (by rw [List.nil_append, hbytes]; exact List.prefix_append _ _) hroom hcrash
  intro ctx after hafter
  rw [List.nil_append] at hafter
  simp only [ne_eq, not_true_eq_false, if_false]
  rw [Prog.ask_bind_eq, Prog.safe_request_atomic]
  refine ⟨crash_of_streamed hafter hcrash, ?_⟩
  simp only [World.handle, World.setFlash_partitions_self, Option.map_some]
  rw [left_eq hle hlt, Prog.safe_bind]
  apply copyLeft_safe hfile le_rfl (by rw [List.length_drop]; omega) hafter
    (by rw [hbytes]) hroom hcrash
  intro ctx' after' hafter'
  rw [← hbytes] at hafter'
  rw [Prog.safe_bind]
  apply @onPartition_close_safe _ _ _ _ _ _ _ _ _ _ 0 _ hafter' (by simp) partition.eraseSize_pos
      hroom hcrash
  exact ⟨hpost, hcrash _ ⟨blocks, List.prefix_refl _, .inl rfl⟩⟩

/-- The two passes write equally many blocks. -/
theorem length_zeroed
    {zeroed : List (Block partition)} {header : Bytes} {pad : Nat}
    (hheader : header <+: file.data)
    (hzeroed : blockBytes zeroed = List.replicate header.length 0 ++
      file.data.drop header.length ++ List.replicate pad 0)
    (hblocks : blockBytes blocks = file.data ++ List.replicate pad 0) :
    zeroed.length = blocks.length := by
  have hheaderLength := hheader.length_le
  have hlength : (blockBytes zeroed).length = (blockBytes blocks).length := by
    rw [hzeroed, hblocks]
    simp only [List.length_append, List.length_replicate, List.length_drop]
    omega
  rw [blockBytes_length, blockBytes_length] at hlength
  exact Nat.eq_of_mul_eq_mul_right partition.eraseSize_pos hlength

/-- The first pass, with a header of zeros; what follows is the second. -/
theorem writeImage_safe_of_rewrite
    {zeroed : List (Block partition)} {header : Bytes} {fuel pad : Nat}
    {post : Option Int → World → Prop}
    (hfile : world.files image = some file) (hfuel : file.data.length < fuel)
    (hpad : pad < partition.eraseSize)
    (hzeroed : blockBytes zeroed = List.replicate header.length 0 ++
      file.data.drop header.length ++ List.replicate pad 0)
    (hroom : zeroed.length ≤ (start.goodFrom 0).length)
    (hfirst : ∀ after, Interrupted start zeroed after → crash (world.setFlash name after))
    (hrewrite : (rewriteHeader name image partition header).Safe
      (Machine.atomic (World.handle env)) post crash
        (world.setFlash name (start.place (start.goodFrom 0) zeroed))) :
    (writeImage name image partition header fuel).Safe
      (Machine.atomic (World.handle env)) post crash (world.setFlash name start) := by
  have hstart := @streamed_start _ _ zeroed _ _ (placed_start start)
  rw [writeImage, Prog.ask_bind_eq, Prog.safe_request_atomic]
  refine ⟨crash_of_streamed hstart hfirst, ?_⟩
  simp only [World.handle, World.setFlash_partitions_self, Option.isSome_some, if_true]
  rw [Prog.safe_bind]
  apply onPartition_write_safe hstart
    (by rw [List.nil_append, hzeroed, List.append_assoc]; exact List.prefix_append _ _)
    hroom hfirst
  intro ctx after hafter
  rw [List.nil_append] at hafter
  simp only [List.length_replicate, ne_eq, not_true_eq_false, if_false]
  rw [Prog.safe_bind]
  apply copyRest_safe hfile (by rw [List.length_drop]; omega) hafter
    (by rw [hzeroed]; exact List.prefix_append _ _) hroom hfirst
  intro ctx' after' hafter'
  rw [Prog.safe_bind]
  apply onPartition_close_safe hafter' hzeroed hpad hroom hfirst
  simp only [not_true_eq_false, if_false]
  exact hrewrite

/-- The first pass, with a header of zeros, and then the second. -/
theorem writeImage_safe
    {zeroed : List (Block partition)} {header : Bytes} {fuel pad count : Nat}
    {post : Option Int → World → Prop}
    (hfile : world.files image = some file) (hfuel : file.data.length < fuel)
    (hheader : header <+: file.data)
    (hle : header.length ≤ count * partition.eraseSize)
    (hlt : count * partition.eraseSize < header.length + partition.eraseSize)
    (hlong : count * partition.eraseSize ≤ file.data.length)
    (hpad : pad < partition.eraseSize)
    (hzeroed : blockBytes zeroed = List.replicate header.length 0 ++
      file.data.drop header.length ++ List.replicate pad 0)
    (hblocks : blockBytes blocks = file.data ++ List.replicate pad 0)
    (hroom : blocks.length ≤ (start.goodFrom 0).length)
    (hfirst : ∀ after, Interrupted start zeroed after → crash (world.setFlash name after))
    (hsecond : ∀ after,
      Interrupted (start.place (start.goodFrom 0) zeroed) (blocks.take count) after →
        crash (world.setFlash name after))
    (hpost : post (some 0)
      (world.setFlash name (start.place (start.goodFrom 0) blocks))) :
    (writeImage name image partition header fuel).Safe
      (Machine.atomic (World.handle env)) post crash (world.setFlash name start) := by
  have hsame := length_zeroed hheader hzeroed hblocks
  have hcount : count ≤ blocks.length := by
    have hlength := congrArg List.length hblocks
    rw [blockBytes_length, List.length_append] at hlength
    exact Nat.le_of_mul_le_mul_right (by omega) partition.eraseSize_pos
  have htakeLength : (blocks.take count).length = count := List.length_take_of_le hcount
  have htail : zeroed.drop count = blocks.drop count := by
    apply blockBytes_injective
    have hzeros : (List.replicate header.length (0 : UInt8)).length ≤
        count * partition.eraseSize := by simpa using hle
    rw [blockBytes_drop, blockBytes_drop, hzeroed, hblocks, List.append_assoc,
      List.drop_append, List.drop_of_length_le hzeros, List.nil_append,
      List.length_replicate, List.drop_append_of_le_length (by rw [List.length_drop]; omega),
      List.drop_drop, List.drop_append_of_le_length hlong, Nat.add_sub_cancel' hle]
  apply writeImage_safe_of_rewrite hfile hfuel hpad hzeroed (by omega) hfirst
  have hgood : (start.place (start.goodFrom 0) zeroed).goodFrom 0 = start.goodFrom 0 :=
    goodFrom_congr (place_bad ..) 0
  apply @rewriteHeader_safe _ _ _ _ _ _ _ (blocks.take count) _ _ _ hfile hheader
      (by rwa [htakeLength]) (by rwa [htakeLength])
  · rw [blockBytes_take, hblocks, List.take_append_of_le_length hlong]
    exact List.take_prefix _ _
  · rw [hgood, htakeLength]
    omega
  · exact hsecond
  · rw [hgood, place_place _ (goodFrom_nodup ..) (by omega), htakeLength, htail,
      List.take_append_drop]
    exact hpost

/-- What the header check reads. -/
theorem checkHeader_safe
    {header : Bytes} {post : Bool → World → Prop}
    (hcrash : crash (world.setFlash name start))
    (hpost : post (decide (headerSize ≤ (start.streamFrom 0).length ∧
      (start.streamFrom 0).take headerSize = header)) (world.setFlash name start)) :
    (checkHeader name partition header).Safe (Machine.atomic (World.handle env))
      post crash (world.setFlash name start) := by
  obtain ⟨ctx, hrun, -⟩ := @mtdReadData_run _ start _ headerSize
      (mtdReadPartition_valid partition) (by decide)
  rw [mtdReadPartition_remaining] at hrun
  rw [checkHeader, Prog.ask_bind_eq, Prog.safe_request_atomic]
  refine ⟨hcrash, ?_⟩
  simp only [World.handle, World.setFlash_partitions_self, Option.isSome_some, if_true]
  rw [Prog.safe_bind]
  apply onPartition_safe_run (mtdReadData_reads ..) hrun _ hcrash
  by_cases hlong : headerSize ≤ (start.streamFrom 0).length
  · have hlength : 0 < ((start.streamFrom 0).take headerSize).length := by
      rw [List.length_take_of_le hlong]
      decide
    simp only [if_pos hlong, hlength, true_and]
    simp only [hlong, true_and] at hpost
    exact ⟨hpost, hcrash⟩
  · simp only [if_neg hlong]
    simp only [hlong, false_and, decide_false] at hpost
    exact ⟨hpost, hcrash⟩

section Image

variable {fuel : Nat} {post : Option Int → World → Prop}

/-- `flash_image` up to the header check. -/
theorem flashImage_safe_of_check
    (hfile : world.files image = some file) (hnonempty : file.data ≠ [])
    (hcrash : crash (world.setFlash name start))
    (hsame : headerSize ≤ (start.streamFrom 0).length →
      (start.streamFrom 0).take headerSize = file.data.take headerSize →
        post (some 0) (world.setFlash name start))
    (hdiffers : ¬ (headerSize ≤ (start.streamFrom 0).length ∧
        (start.streamFrom 0).take headerSize = file.data.take headerSize) →
      (writeImage name image partition (file.data.take headerSize) fuel).Safe
        (Machine.atomic (World.handle env)) post crash (world.setFlash name start)) :
    (flashImage name image fuel).Safe (Machine.atomic (World.handle env))
      post crash (world.setFlash name start) := by
  have hlength : (file.data.take headerSize).length ≠ 0 := by
    have hpos := List.length_pos_iff.mpr hnonempty
    rw [List.length_take, headerSize]
    omega
  rw [flashImage]
  simp only [Prog.ask_bind_eq, Prog.safe_request_atomic, World.handle]
  refine ⟨hcrash, ?_⟩
  simp only [Int.reduceLE, if_false, Prog.safe_request_atomic, World.handle,
    World.setFlash_partitions_self, Option.map_some, World.setFlash_files, hfile,
    Option.isSome_some, if_true, List.drop_zero]
  refine ⟨hcrash, hcrash, hcrash, ?_⟩
  rw [if_neg hlength, Prog.safe_bind]
  apply checkHeader_safe hcrash
  by_cases hheader : headerSize ≤ (start.streamFrom 0).length ∧
      (start.streamFrom 0).take headerSize = file.data.take headerSize
  · simp only [hheader, decide_true, and_self, if_true]
    exact ⟨hsame hheader.1 hheader.2, hcrash⟩
  · simp only [hheader, decide_false, Bool.false_eq_true, if_false]
    exact hdiffers hheader

end Image

end Flashing

end OpenRecovery
