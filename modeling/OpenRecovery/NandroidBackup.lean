import OpenRecovery.FlashImageRestart
import Mathlib

/-!
# Backup and restore of a raw partition

`dump_image` writes what the block reader delivers, in pieces of 2048 bytes.
Bad blocks are left out, but so is every good block that holds only zeros, and
a last piece that is not full is lost.  The backup is exact when neither
happens, and then `flash_image` brings back every good block.
-/

namespace OpenRecovery

open Effects Mtd

variable {partition : MtdPartition}

/-- The contents of the good blocks in order. -/
def Mtd.Flash.goodBytes (flash : Flash partition) : Bytes :=
  ((flash.goodFrom 0).map fun pos => (flash.block pos).val).flatten

theorem goodBytes_eq (flash : Flash partition) :
    flash.goodBytes = blockBytes ((flash.goodFrom 0).map flash.block) := by
  rw [Flash.goodBytes, blockBytes, List.map_map]
  rfl

theorem goodBytes_length (flash : Flash partition) :
    flash.goodBytes.length = (flash.goodFrom 0).length * partition.eraseSize := by
  rw [goodBytes_eq, blockBytes_length, List.length_map]

/-- The reader delivers all good blocks if none of them holds only zeros. -/
theorem streamFrom_eq_goodBytes
    {flash : Flash partition}
    (hnonzero : ∀ pos ∈ flash.goodFrom 0, anyNonZero (flash.block pos).val = true) :
    flash.streamFrom 0 = flash.goodBytes := by
  rw [Flash.streamFrom, accepted_eq_filter, List.filter_eq_self.mpr hnonzero]
  rfl

/-- A good block of zeros makes the stream shorter. -/
theorem streamFrom_length_lt
    {flash : Flash partition} {pos : Nat} (hpos : pos ∈ flash.goodFrom 0)
    (hzero : anyNonZero (flash.block pos).val = false) :
    (flash.streamFrom 0).length < flash.goodBytes.length := by
  rw [streamFrom_length, goodBytes_length, accepted_eq_filter]
  apply Nat.mul_lt_mul_of_pos_right _ partition.eraseSize_pos
  rw [List.length_filter_lt_length_iff_exists]
  exact ⟨pos, hpos, by simp [hzero]⟩

/-- A byte string without its last, incomplete piece. -/
def wholePieces (data : Bytes) : Bytes :=
  data.take (data.length / headerSize * headerSize)

theorem wholePieces_length (data : Bytes) :
    (wholePieces data).length = data.length / headerSize * headerSize :=
  List.length_take_of_le (Nat.div_mul_le_self _ _)

theorem wholePieces_of_dvd {data : Bytes} (hdvd : headerSize ∣ data.length) :
    wholePieces data = data := by
  rw [wholePieces, Nat.div_mul_cancel hdvd, List.take_length]

theorem wholePieces_short {data : Bytes} (hshort : data.length < headerSize) :
    wholePieces data = [] := by
  rw [wholePieces, Nat.div_eq_of_lt hshort, Nat.zero_mul, List.take_zero]

theorem wholePieces_cons {data : Bytes} (hlong : headerSize ≤ data.length) :
    wholePieces data = data.take headerSize ++ wholePieces (data.drop headerSize) := by
  have hpos : 0 < headerSize := by decide
  have hcount : data.length / headerSize * headerSize =
      headerSize + (data.length - headerSize) / headerSize * headerSize := by
    rw [Nat.div_eq_sub_div hpos hlong, Nat.succ_mul, Nat.add_comm]
  rw [wholePieces, wholePieces, List.length_drop, hcount, List.take_add]

/-! ## `dump_image` -/

section Dump

variable {env : Env} {name out : CString} {world : World} {flash : Flash partition}
variable {file : File} {fuel : Nat}

theorem dumpLoop_run
    {input : MtdReadContext}
    (hflash : world.partitions name = some ⟨partition, flash⟩)
    (hfile : world.files out = some file) (hvalid : input.Valid partition)
    (hfuel : (input.remaining flash).length < fuel) :
    (dumpLoop name partition (.file out) fuel input).run (World.handle env) world =
      (some true, world.setFile out (some
        { file with data := file.data ++ wholePieces (input.remaining flash) })) := by
  induction fuel generalizing world file input with
  | zero => omega
  | succ fuel ih =>
      obtain ⟨input', hread, hnext⟩ := @mtdReadData_run _ flash _ headerSize hvalid (by decide)
      rw [dumpLoop, Prog.run_bind, onPartition_run env _ hflash, hread,
        World.setFlash_eq_self hflash]
      by_cases hlong : headerSize ≤ (input.remaining flash).length
      · obtain ⟨hvalid', hremaining⟩ := hnext hlong
        have hlength := List.length_take_of_le hlong
        have hpos : headerSize ≠ 0 := by decide
        have happend : world.append (.file out) ((input.remaining flash).take headerSize) =
            world.setFile out (some
              { file with data := file.data ++ (input.remaining flash).take headerSize }) := by
          simp [World.append, hfile]
        have hshorter : (input'.remaining flash).length < fuel := by
          rw [hremaining, List.length_drop]
          omega
        have hrest := @ih (world.setFile out (some
            { file with data := file.data ++ (input.remaining flash).take headerSize })) _ _
          (by rw [World.setFile_partitions, hflash]) (World.setFile_files_self ..)
          hvalid' hshorter
        rw [World.setFile_setFile, hremaining, List.append_assoc, ← wholePieces_cons hlong]
          at hrest
        simpa [hlong, hlength, hpos, World.handle, happend] using hrest
      · simp only [hlong, if_false]
        rw [wholePieces_short (by omega), List.append_nil, World.setFile_eq_self hfile]
        rfl

/-- `dump_image` writes the whole pieces of the stream. -/
theorem dumpImage_run
    (hflash : world.partitions name = some ⟨partition, flash⟩)
    (hout : out ≠ "-".toList) (hfuel : partition.size < fuel) :
    ∃ file : File,
      (dumpImage name out fuel).run (World.handle env) world =
          (some 0, world.setFile out (some file)) ∧
        file.data = wholePieces (flash.streamFrom 0) := by
  have hlength : (flash.streamFrom 0).length < fuel := by
    have hfilter : (flash.accepted 0).length ≤ partition.blockCount := by
      have hle := List.length_filter_le flash.accepts
        (List.range' 0 (partition.blockCount - 0))
      rwa [List.length_range'] at hle
    have hmul := Nat.mul_le_mul_right partition.eraseSize hfilter
    have hsize : partition.blockCount * partition.eraseSize ≤ partition.size :=
      Nat.div_mul_le_self _ _
    rw [streamFrom_length]
    omega
  have hflash' : (world.setFile out (some (world.truncated out))).partitions name =
      some ⟨partition, flash⟩ := hflash
  have hloop := @dumpLoop_run _ env _ _ _ _ _ fuel _ hflash' (World.setFile_files_self ..)
      (mtdReadPartition_valid partition) (by rwa [mtdReadPartition_remaining])
  rw [World.setFile_setFile, mtdReadPartition_remaining, World.truncated_data,
    List.nil_append] at hloop
  refine ⟨{ world.truncated out with data := wholePieces (flash.streamFrom 0) }, ?_, rfl⟩
  simp only [dumpImage, Prog.ask_bind_eq, Prog.run_request]
  simp only [World.handle, hflash, Int.reduceLE, if_false, Option.map_some, hout,
    Prog.run_request, Bool.not_true, Bool.false_eq_true, hflash', Option.isSome_some, if_true,
    Prog.run_bind, hloop, Prog.pure_eq, Prog.run_pure]

end Dump

/-! ## Backup and restore -/

section Restore

variable (env : Env) (name out : CString) (fuel : Nat) (world : World)
variable (flash : Flash partition)

/-- `dump_image` succeeds and writes the contents of all good blocks. -/
def BackedUp : Prop :=
  ∃ file : File,
    (dumpImage name out fuel).run (World.handle env) world =
        (some 0, world.setFile out (some file)) ∧
      file.data = flash.goodBytes

/-- Flashing the dumped file onto any content of the partition that begins
differently leaves every good block as it was dumped. -/
def Restored : Prop :=
  ∀ (file : File) (other : Flash partition),
    ((dumpImage name out fuel).run (World.handle env) world).2.files out = some file →
    other.bad = flash.bad →
    ((mtdReadData partition (mtdReadPartition partition) headerSize).run
      Flash.handle other).1.1 ≠ some (file.data.take headerSize) →
    ∃ (result : Option Int) (final : Flash partition),
      (flashImage name out fuel).run (World.handle env)
          (((dumpImage name out fuel).run (World.handle env) world).2.setFlash name other) =
          (result, ((dumpImage name out fuel).run (World.handle env) world).2.setFlash
            name final) ∧
        ∀ pos ∈ flash.goodFrom 0, final.block pos = flash.block pos

variable {env name out fuel world flash}

/-- An image of whole blocks that fills the good blocks is written as it is. -/
theorem flashImage_goodBytes_safe
    {base : World} {file : File} {other : Flash partition} {crash : World → Prop}
    {post : Option Int → World → Prop}
    (hfile : base.files out = some file) (hdata : file.data = flash.goodBytes)
    (hbad : other.bad = flash.bad) (hfuel : file.data.length < fuel)
    (hlong : headerSize ≤ file.data.length)
    (hdiffers : ¬ (headerSize ≤ (other.streamFrom 0).length ∧
      (other.streamFrom 0).take headerSize = file.data.take headerSize))
    (hcrash : ∀ after, crash after)
    (hpost : post (some 0) (base.setFlash name
      (other.place (flash.goodFrom 0) ((flash.goodFrom 0).map flash.block)))) :
    (flashImage name out fuel).Safe (Machine.atomic (World.handle env))
      post crash (base.setFlash name other) := by
  have hsize := partition.eraseSize_pos
  have hgood := goodFrom_congr hbad 0
  have hlength := goodBytes_length flash
  rw [← hdata] at hlength
  have hheader : (file.data.take headerSize).length = headerSize :=
    List.length_take_of_le hlong
  obtain ⟨count, hcount⟩ : ∃ count, count = (headerSize + (partition.eraseSize - 1)) /
    partition.eraseSize := ⟨_, rfl⟩
  have hle : headerSize ≤ count * partition.eraseSize := by
    have hlt := Nat.lt_div_mul_add (a := headerSize + (partition.eraseSize - 1)) hsize
    rw [hcount]
    omega
  have hlt : count * partition.eraseSize < headerSize + partition.eraseSize := by
    have hmul := Nat.div_mul_le_self (headerSize + (partition.eraseSize - 1))
      partition.eraseSize
    rw [hcount]
    omega
  have hcountLe : count * partition.eraseSize ≤ file.data.length := by
    rw [hlength] at hlong ⊢
    apply Nat.mul_le_mul_right
    rw [hcount, Nat.div_le_iff_le_mul_add_pred hsize, Nat.mul_comm]
    omega
  obtain ⟨zeroed, hzeroed⟩ := @exists_blockBytes partition
      (List.replicate headerSize 0 ++ file.data.drop headerSize) (by
      rw [List.length_append, List.length_replicate, List.length_drop,
        Nat.add_sub_cancel' hlong, hlength]
      exact Nat.dvd_mul_left _ _)
  have hnonempty : file.data ≠ [] := by
    rw [← List.length_pos_iff, ← Nat.ne_zero_iff_zero_lt]
    rintro hzero
    rw [hzero] at hlong
    exact absurd hlong (by decide)
  apply flashImage_safe_of_check hfile hnonempty (hcrash _)
  · intro hstream hsame
    exact absurd ⟨hstream, hsame⟩ hdiffers
  · intro _
    refine @writeImage_safe _ _ _ _ _ _ _ ((flash.goodFrom 0).map flash.block) _ zeroed _ _ 0
        count _ hfile hfuel (List.take_prefix _ _) (by rwa [hheader]) (by rwa [hheader]) hcountLe
        hsize ?_ ?_ ?_ (fun _ _ => hcrash _) (fun _ _ => hcrash _) ?_
    · rw [hheader, hzeroed, List.replicate_zero, List.append_nil]
    · rw [List.replicate_zero, List.append_nil, hdata, goodBytes_eq]
    · rw [hgood, List.length_map]
    · rw [hgood]
      exact hpost

/-- An empty image is refused, and nothing is written. -/
theorem flashImage_empty_run
    {base : World} {file : File} {other : Flash partition}
    (hfile : base.files out = some file) (hempty : file.data = []) :
    (flashImage name out fuel).run (World.handle env) (base.setFlash name other) =
      (some 1, base.setFlash name other) := by
  simp [flashImage, World.handle, hfile, hempty]

theorem restored_of_backedUp
    (hbacked : BackedUp env name out fuel world flash)
    (hdvd : headerSize ∣ flash.goodBytes.length)
    (hfuel : flash.goodBytes.length < fuel) :
    Restored env name out fuel world flash := by
  obtain ⟨file, hrun, hdata⟩ := hbacked
  intro file' other hfile' hbad hdiffers
  rw [hrun] at hfile' ⊢
  rw [World.setFile_files_self, Option.some.injEq] at hfile'
  subst hfile'
  have hfile : (world.setFile out (some file)).files out = some file :=
    World.setFile_files_self ..
  rcases Nat.eq_zero_or_pos file.data.length with hzero | hpos
  · refine ⟨_, other, flashImage_empty_run hfile (List.length_eq_zero_iff.mp hzero), ?_⟩
    intro pos hmem
    have hgood := goodBytes_length flash
    rw [← hdata, hzero, eq_comm, Nat.mul_eq_zero, List.length_eq_zero_iff] at hgood
    rw [hgood.resolve_right partition.eraseSize_pos.ne'] at hmem
    exact absurd hmem List.not_mem_nil
  · have hlong : headerSize ≤ file.data.length := by
      rw [← hdata] at hdvd
      exact Nat.le_of_dvd hpos hdvd
    obtain ⟨ctx, hread, -⟩ := @mtdReadData_run _ other _ headerSize
        (mtdReadPartition_valid partition) (by decide)
    rw [hread, mtdReadPartition_remaining] at hdiffers
    have hsafe := @flashImage_goodBytes_safe _ env name _ _ _ (world.setFile out (some file)) _ _
        (fun _ => True) (fun result after => (result, after) = (some 0,
        (world.setFile out (some file)).setFlash name
          (other.place (flash.goodFrom 0) ((flash.goodFrom 0).map flash.block)))) hfile hdata
        hbad (by rwa [hdata]) hlong (by
        rintro ⟨hstream, hsame⟩
        rw [if_pos hstream, hsame] at hdiffers
        exact hdiffers rfl) (fun _ => trivial) rfl
    refine ⟨_, _, hsafe.run_post, ?_⟩
    have hplaced := @place_map_block _ _ ((flash.goodFrom 0).map flash.block) other
        (goodFrom_nodup flash 0) (by rw [List.length_map])
    rw [List.length_map, List.take_length] at hplaced
    exact List.map_inj_left.mp hplaced

/-- The backup is exact when no good block holds only zeros and the good blocks
divide into whole pieces, and only then. -/
theorem backedUp_iff
    (hflash : world.partitions name = some ⟨partition, flash⟩)
    (hout : out ≠ "-".toList) (hfuel : partition.size < fuel) :
    BackedUp env name out fuel world flash ↔
      (∀ pos ∈ flash.goodFrom 0, anyNonZero (flash.block pos).val = true) ∧
        headerSize ∣ flash.goodBytes.length := by
  obtain ⟨file, hrun, hdata⟩ := @dumpImage_run _ env _ _ _ _ _ hflash hout hfuel
  constructor
  · rintro ⟨file', hrun', hdata'⟩
    have hsame : file = file' := by
      rw [hrun, Prod.mk.injEq] at hrun'
      have hfiles := congrArg (fun after => after.files out) hrun'.2
      simpa using hfiles
    rw [← hsame, hdata] at hdata'
    have hlength := congrArg List.length hdata'
    rw [wholePieces_length] at hlength
    refine ⟨?_, hlength ▸ Nat.dvd_mul_left _ _⟩
    intro pos hpos
    by_contra hzero
    have hshort := streamFrom_length_lt hpos (Bool.eq_false_iff.mpr hzero)
    have hle := Nat.div_mul_le_self (flash.streamFrom 0).length headerSize
    omega
  · rintro ⟨hnonzero, hdvd⟩
    refine ⟨file, hrun, ?_⟩
    rw [hdata, streamFrom_eq_goodBytes hnonzero, wholePieces_of_dvd hdvd]

theorem goodBytes_length_le (flash : Flash partition) :
    flash.goodBytes.length ≤ partition.size := by
  have hfilter : (flash.goodFrom 0).length ≤ partition.blockCount := by
    have hle := List.length_filter_le (fun block => !flash.bad block)
      (List.range' 0 (partition.blockCount - 0))
    rwa [List.length_range'] at hle
  calc
    flash.goodBytes.length = (flash.goodFrom 0).length * partition.eraseSize :=
      goodBytes_length flash
    _ ≤ partition.blockCount * partition.eraseSize := Nat.mul_le_mul_right _ hfilter
    _ ≤ partition.size := Nat.div_mul_le_self _ _

/-- Backup and restore are exact when no good block holds only zeros and the
good blocks divide into whole pieces, and only then. -/
theorem dumpImage_flashImage_exact_iff
    (hflash : world.partitions name = some ⟨partition, flash⟩)
    (hout : out ≠ "-".toList) (hfuel : partition.size < fuel) :
    BackedUp env name out fuel world flash ∧ Restored env name out fuel world flash ↔
      (∀ pos ∈ flash.goodFrom 0, anyNonZero (flash.block pos).val = true) ∧
        headerSize ∣ (flash.goodFrom 0).length * partition.eraseSize := by
  have hiff := @backedUp_iff _ env _ _ _ _ _ hflash hout hfuel
  rw [goodBytes_length] at hiff
  constructor
  · rintro ⟨hbacked, -⟩
    exact hiff.mp hbacked
  · intro hexact
    have hbacked := hiff.mpr hexact
    refine ⟨hbacked, restored_of_backedUp hbacked ?_ ?_⟩
    · rw [goodBytes_length]
      exact hexact.2
    · exact (goodBytes_length_le flash).trans_lt hfuel

end Restore

/-- The erased sample partition is backed up and restored exactly. -/
theorem dumpImage_flashImage_exact_sample :
    BackedUp sampleEnv "boot".toList
        "backup.img".toList 0x40001 sampleWorld sampleFlash ∧
      Restored sampleEnv "boot".toList
        "backup.img".toList 0x40001 sampleWorld sampleFlash := by
  refine (dumpImage_flashImage_exact_iff rfl (by decide) (by decide)).mpr ⟨?_, ?_⟩
  · intro pos _
    exact anyNonZero_replicate (by decide)
  · rw [sampleFlash_goodFrom]
    decide

/-- The sample partition with a first block of zeros. -/
def blankFlash : Flash samplePartition :=
  sampleFlash.setBlock 0 ⟨List.replicate samplePartition.eraseSize 0, List.length_replicate⟩

/-- A good block of zeros is missing from the backup. -/
theorem dumpImage_drops_zero_block :
    ¬ (BackedUp sampleEnv "boot".toList
          "backup.img".toList 0x40001 (sampleWorld.setFlash "boot".toList blankFlash)
          blankFlash ∧
        Restored sampleEnv "boot".toList
          "backup.img".toList 0x40001 (sampleWorld.setFlash "boot".toList blankFlash)
          blankFlash) := by
  rintro ⟨hbacked, -⟩
  have hiff := @backedUp_iff _ sampleEnv "boot".toList "backup.img".toList 0x40001 _ _
      (World.setFlash_partitions_self sampleWorld "boot".toList blankFlash) (by decide)
      (by decide)
  have hmem : 0 ∈ blankFlash.goodFrom 0 := by
    rw [blankFlash, goodFrom_congr (setBlock_bad ..), sampleFlash_goodFrom]
    exact List.mem_cons_self
  have hnonzero := (hiff.mp hbacked).1 0 hmem
  rw [blankFlash, setBlock_block_self,
    anyNonZero_eq_false.mpr (by rw [List.length_replicate])] at hnonzero
  exact Bool.false_ne_true hnonzero

end OpenRecovery
