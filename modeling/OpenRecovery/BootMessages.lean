import OpenRecovery.Bootloader
import OpenRecovery.FlashImageRestart
import OpenRecovery.RootFrames
import Mathlib

/-!
# Setting and getting the bootloader message on flash

The three pages are written as one block, padded with zeros, and a block of
zeros is skipped by the reader.  A message is therefore read back unless the
whole block is zero; then the pages come from the next block that is not.
-/

namespace OpenRecovery

open Effects Mtd

variable {partition : MtdPartition}

/-! ## Three pages on a partition -/

/-- What reading the first three pages gives. -/
def readPages (flash : Flash partition) (writeSize : Nat) : Option Bytes :=
  ((mtdReadData partition (mtdReadPartition partition) (writeSize * miscPages)).run
    Flash.handle flash).1.1

theorem readPages_eq
    (flash : Flash partition) {writeSize : Nat} (hsize : writeSize * miscPages < 2 ^ 31) :
    readPages flash writeSize =
      if writeSize * miscPages ≤ (flash.streamFrom 0).length then
        some ((flash.streamFrom 0).take (writeSize * miscPages))
      else none := by
  obtain ⟨ctx, hrun, -⟩ := mtdReadData_run flash (mtdReadPartition_valid partition) hsize
  rw [readPages, hrun, mtdReadPartition_remaining]

theorem length_padded
    (data : Bytes) (hlength : data.length ≤ partition.eraseSize) :
    (data ++ List.replicate (partition.eraseSize - data.length) 0).length =
      partition.eraseSize := by
  rw [List.length_append, List.length_replicate]
  omega

/-- Data padded with zeros to a block. -/
def paddedBlock (data : Bytes) (hlength : data.length ≤ partition.eraseSize) : Block partition :=
  ⟨data ++ List.replicate (partition.eraseSize - data.length) 0, length_padded data hlength⟩

/-- The pages are written to the first good block. -/
theorem writeMisc_run
    {flash : Flash partition} {first : Nat} {rest : List Nat} {data : Bytes}
    (hgood : flash.goodFrom 0 = first :: rest) (hsome : data ≠ [])
    (hlength : data.length ≤ partition.eraseSize) :
    (writeMisc partition data).run Flash.handle flash =
      (0, flash.setBlock first (paddedBlock data hlength)) := by
  have hpos : 0 < data.length := List.length_pos_of_ne_nil hsome
  have hpadded : blockBytes [paddedBlock data hlength] =
      data ++ List.replicate (partition.eraseSize - data.length) 0 := by
    rw [blockBytes_cons, blockBytes_nil, List.append_nil, paddedBlock]
  have hwrites := @writesBlocks_placed _ flash [paddedBlock data hlength] (fun _ => True)
      (by rw [hgood]; simp) (fun _ _ => trivial)
  have hplace : flash.place (flash.goodFrom 0) [paddedBlock data hlength] =
      flash.setBlock first (paddedBlock data hlength) := by
    rw [hgood, Flash.place, place_nil]
  have hsafe : (writeMisc partition data).Safe (Machine.atomic Flash.handle)
      (fun result after => (result, after) =
        (0, flash.setBlock first (paddedBlock data hlength))) (fun _ => True) flash := by
    rw [writeMisc, Prog.safe_bind]
    apply @WritesBlocks.mtdWriteData_safe _ _ _ _ _ _ _ _ _ [] _ _ hwrites
        (streamed_start (placed_start flash))
    · rw [hpadded]
      exact List.prefix_append _ _
    · intro ctx after hstreamed
      simp only [ne_eq, not_true_eq_false, if_false]
      rw [Prog.safe_bind]
      apply hwrites.mtdWriteClose_safe hstreamed hpadded (by omega)
      · intro pos after' hafter
        rw [hafter.flash_eq, hplace]
        exact ⟨rfl, trivial⟩
      · intro after' hfalse
        exact hfalse.elim
    · intro ctx after hfalse
      exact hfalse.elim
  exact hsafe.run_post

theorem goodFrom_setBlock
    {flash : Flash partition} {first : Nat} {rest : List Nat}
    (hgood : flash.goodFrom 0 = first :: rest) (data : Block partition) :
    (flash.setBlock first data).goodFrom 0 = first :: rest := by
  rw [← hgood]
  exact goodFrom_congr (setBlock_bad ..) 0

/-- The rest of the stream does not depend on the first good block. -/
theorem streamFrom_setBlock_tail
    {flash : Flash partition} {first : Nat} {rest : List Nat}
    (hgood : flash.goodFrom 0 = first :: rest) (data : Block partition) :
    (flash.setBlock first data).streamFrom (first + 1) = flash.streamFrom (first + 1) := by
  have hblocks : ∀ block ∈ rest, (flash.setBlock first data).block block = flash.block block := by
    intro block hblock
    apply setBlock_block_ne
    rintro rfl
    have hnodup := goodFrom_nodup flash 0
    rw [hgood, List.nodup_cons] at hnodup
    exact hnodup.1 hblock
  have haccepted : (flash.setBlock first data).accepted (first + 1) =
      flash.accepted (first + 1) := by
    rw [accepted_eq_filter, accepted_eq_filter,
      (goodFrom_cons (goodFrom_setBlock hgood data)).2.2.2, (goodFrom_cons hgood).2.2.2]
    apply List.filter_congr
    intro block hblock
    rw [hblocks block hblock]
  rw [Flash.streamFrom, Flash.streamFrom, haccepted]
  congr 1
  apply List.map_congr_left
  intro block hblock
  rw [accepted_eq_filter, (goodFrom_cons hgood).2.2.2] at hblock
  rw [hblocks block (List.mem_of_mem_filter hblock)]

/-- A written block comes first in the stream, unless it is zero. -/
theorem streamFrom_setBlock
    {flash : Flash partition} {first : Nat} {rest : List Nat}
    (hgood : flash.goodFrom 0 = first :: rest) (data : Block partition) :
    (flash.setBlock first data).streamFrom 0 =
      (if anyNonZero data.val then data.val else []) ++ flash.streamFrom (first + 1) := by
  have hgood' := goodFrom_setBlock hgood data
  have htail := streamFrom_setBlock_tail hgood data
  by_cases hnonzero : anyNonZero data.val = true
  · rw [if_pos hnonzero, streamFrom_first hgood' (by rw [setBlock_block_self]; exact hnonzero),
      setBlock_block_self, htail]
  · rw [if_neg hnonzero, List.nil_append, ← htail, Flash.streamFrom, Flash.streamFrom,
      accepted_eq_filter, accepted_eq_filter, hgood', (goodFrom_cons hgood').2.2.2,
      List.filter_cons_of_neg (by rw [setBlock_block_self]; exact hnonzero)]

/-! ## Messages in pages -/

theorem fieldOf_append
    {count : Nat} (field : List.Vector UInt8 count) (data : Bytes) :
    fieldOf count (field.toList ++ data) = field := by
  apply List.Vector.eq
  change ((field.toList ++ data) ++ List.replicate count 0).take count = field.toList
  rw [List.append_assoc, List.take_left' field.toList_length]

theorem BootloaderMessage.bytes_length (message : BootloaderMessage) :
    message.bytes.length = size := by
  simp [bytes, size]

theorem BootloaderMessage.ofBytes_bytes (message : BootloaderMessage) (rest : Bytes) :
    ofBytes (message.bytes ++ rest) = message := by
  have hstatus : (message.bytes ++ rest).drop 32 =
      message.status.toList ++ (message.recovery.toList ++ rest) := by
    rw [bytes, List.append_assoc, List.append_assoc, List.drop_left' message.command.toList_length]
  have hrecovery : (message.bytes ++ rest).drop 64 = message.recovery.toList ++ rest := by
    rw [← List.drop_drop (i := 32) (j := 32), hstatus,
      List.drop_left' message.status.toList_length]
  rw [ofBytes, hstatus, hrecovery, fieldOf_append, fieldOf_append, bytes, List.append_assoc,
    fieldOf_append]

theorem anyNonZero_append (first second : Bytes) :
    anyNonZero (first ++ second) = (anyNonZero first || anyNonZero second) := by
  rw [anyNonZero, List.any_append, anyNonZero, anyNonZero]

theorem anyNonZero_drop {data : Bytes} (count : Nat) (hzero : anyNonZero data = false) :
    anyNonZero (data.drop count) = false := by
  rw [← List.take_append_drop count data, anyNonZero_append, Bool.or_eq_false_iff] at hzero
  exact hzero.2

theorem anyNonZero_paddedBlock
    {data : Bytes} (hlength : data.length ≤ partition.eraseSize) :
    anyNonZero (paddedBlock data hlength).val = anyNonZero data := by
  have hzeros : anyNonZero (List.replicate (partition.eraseSize - data.length) 0) = false := by
    rw [anyNonZero_eq_false, List.length_replicate]
  rw [paddedBlock, anyNonZero_append, hzeros, Bool.or_false]

theorem BootloaderMessage.anyNonZero_zero : anyNonZero zero.bytes = false := by
  decide +kernel

/-- The message that some pages hold. -/
def messageIn (writeSize : Nat) (data : Bytes) : BootloaderMessage :=
  .ofBytes (data.drop writeSize)

/-- The bytes of the pages that do not belong to the message. -/
def outside (writeSize : Nat) (data : Bytes) : Bytes :=
  data.take writeSize ++ data.drop (writeSize + BootloaderMessage.size)

section Splice

variable {writeSize : Nat} {data : Bytes} (message : BootloaderMessage)

theorem take_splice (hlength : writeSize ≤ data.length) :
    (splice writeSize data message).take writeSize = data.take writeSize := by
  rw [splice, List.take_left' (List.length_take_of_le hlength)]

theorem drop_splice (hlength : writeSize ≤ data.length) :
    (splice writeSize data message).drop writeSize =
      message.bytes ++ data.drop (writeSize + BootloaderMessage.size) := by
  rw [splice, List.drop_left' (List.length_take_of_le hlength)]

theorem messageIn_splice (hlength : writeSize ≤ data.length) :
    messageIn writeSize (splice writeSize data message) = message := by
  rw [messageIn, drop_splice message hlength, BootloaderMessage.ofBytes_bytes]

theorem drop_splice_of_le
    (hlength : writeSize ≤ data.length) {count : Nat}
    (hcount : writeSize + BootloaderMessage.size ≤ count) :
    (splice writeSize data message).drop count = data.drop count := by
  obtain ⟨more, rfl⟩ := Nat.exists_eq_add_of_le hcount
  rw [← List.drop_drop, ← List.drop_drop (j := writeSize), drop_splice message hlength,
    List.drop_left' message.bytes_length, List.drop_drop]

theorem outside_splice (hlength : writeSize ≤ data.length) :
    outside writeSize (splice writeSize data message) = outside writeSize data := by
  rw [outside, take_splice message hlength, drop_splice_of_le message hlength le_rfl, outside]

theorem splice_length (hlength : writeSize + BootloaderMessage.size ≤ data.length) :
    (splice writeSize data message).length = data.length := by
  rw [splice, List.length_append, List.length_append, message.bytes_length, List.length_take,
    List.length_drop]
  omega

theorem anyNonZero_splice :
    anyNonZero (splice writeSize data message) =
      (anyNonZero message.bytes || anyNonZero (outside writeSize data)) := by
  rw [splice, outside, anyNonZero_append, anyNonZero_append, anyNonZero_append]
  cases anyNonZero message.bytes <;> simp

end Splice

theorem eq_of_zeros
    {first second : Bytes} (hfirst : anyNonZero first = false)
    (hsecond : anyNonZero second = false) (hlength : first.length = second.length) :
    first = second := by
  rw [anyNonZero_eq_false.mp hfirst, anyNonZero_eq_false.mp hsecond, hlength]

/-! ## What survives a sequence of messages -/

/-- The pages are pages of one block, and the message lies in the second. -/
structure MessageFits (partition : MtdPartition) (writeSize : Nat) : Prop where
  page : BootloaderMessage.size ≤ writeSize
  block : writeSize * miscPages ≤ partition.eraseSize
  whole : partition.eraseSize ≤ partition.size

/-- The pages of a stream that stand in when the written block is zero: they
hold the message of zeros between two pages of zeros. -/
structure ZeroTail (writeSize : Nat) (tail : Bytes) : Prop where
  long : writeSize * miscPages ≤ tail.length
  message : anyNonZero (tail.take (writeSize + BootloaderMessage.size)) = false
  last : anyNonZero ((tail.take (writeSize * miscPages)).drop (writeSize * 2)) = false

/-- The outer pages can be read and stay what they are, whatever message is
set. -/
structure Kept (writeSize first : Nat) (before after : Bytes) (flash : Flash partition) : Prop where
  good : ∃ rest, flash.goodFrom 0 = first :: rest
  pages : ∃ data, readPages flash writeSize = some data ∧ data.take writeSize = before ∧
    data.drop (writeSize * 2) = after ∧
    (anyNonZero (outside writeSize data) = true ∨
      ZeroTail writeSize (flash.streamFrom (first + 1)) ∧ anyNonZero before = false ∧
        anyNonZero after = false)

section Setting

variable {writeSize first : Nat} {flash : Flash partition} {data : Bytes}

theorem MessageFits.size_lt (hfits : MessageFits partition writeSize) :
    writeSize * miscPages < 2 ^ 31 := by
  have hblock := hfits.block
  have hwhole := hfits.whole
  have hsize := partition.size_lt
  omega

theorem readPages_length (hfits : MessageFits partition writeSize)
    (hread : readPages flash writeSize = some data) : data.length = writeSize * miscPages := by
  rw [readPages_eq flash hfits.size_lt] at hread
  split at hread
  case isTrue hlong =>
    rw [← Option.some.inj hread, List.length_take_of_le hlong]
  case isFalse => cases hread

variable (message : BootloaderMessage)

/-- Reading after a message was set. -/
theorem readPages_setBlock
    {rest : List Nat} (hfits : MessageFits partition writeSize)
    (hgood : flash.goodFrom 0 = first :: rest) (hdata : data.length = writeSize * miscPages)
    (hlength : (splice writeSize data message).length ≤ partition.eraseSize) :
    readPages (flash.setBlock first (paddedBlock (splice writeSize data message) hlength))
        writeSize =
      if anyNonZero (splice writeSize data message) then some (splice writeSize data message)
      else if writeSize * miscPages ≤ (flash.streamFrom (first + 1)).length then
        some ((flash.streamFrom (first + 1)).take (writeSize * miscPages))
      else none := by
  have hpage := hfits.page
  have hsplice : (splice writeSize data message).length = writeSize * miscPages := by
    rw [splice_length message (by rw [hdata, miscPages]; omega), hdata]
  rw [readPages_eq _ hfits.size_lt, streamFrom_setBlock hgood, anyNonZero_paddedBlock]
  by_cases hnonzero : anyNonZero (splice writeSize data message) = true
  · rw [if_pos hnonzero, if_pos hnonzero, paddedBlock]
    have hlong : writeSize * miscPages ≤ ((splice writeSize data message ++
        List.replicate (partition.eraseSize - (splice writeSize data message).length) 0) ++
          flash.streamFrom (first + 1)).length := by
      rw [List.length_append, List.length_append, hsplice]
      omega
    rw [if_pos hlong, List.append_assoc, List.take_left' hsplice]
  · rw [if_neg hnonzero, if_neg hnonzero, List.nil_append]

theorem message_eq_of_zeros
    (hzero : anyNonZero message.bytes = false)
    (hlong : writeSize + BootloaderMessage.size ≤ data.length)
    (hdata : anyNonZero (data.take (writeSize + BootloaderMessage.size)) = false) :
    messageIn writeSize data = message := by
  have hsplit : data.take (writeSize + BootloaderMessage.size) =
      data.take writeSize ++ (data.drop writeSize).take BootloaderMessage.size := List.take_add
  rw [hsplit, anyNonZero_append, Bool.or_eq_false_iff] at hdata
  have hbytes : (data.drop writeSize).take BootloaderMessage.size = message.bytes := by
    apply eq_of_zeros hdata.2 hzero
    rw [message.bytes_length, List.length_take, List.length_drop]
    omega
  rw [messageIn, ← List.take_append_drop BootloaderMessage.size (data.drop writeSize), hbytes,
    BootloaderMessage.ofBytes_bytes]

/-- Setting a message keeps the outer pages, and the message can be read. -/
theorem Kept.set
    {before after : Bytes} (hfits : MessageFits partition writeSize)
    (hkept : Kept writeSize first before after flash)
    (hread : readPages flash writeSize = some data)
    (hlength : (splice writeSize data message).length ≤ partition.eraseSize) :
    Kept writeSize first before after
        (flash.setBlock first (paddedBlock (splice writeSize data message) hlength)) ∧
      ∃ data', readPages
          (flash.setBlock first (paddedBlock (splice writeSize data message) hlength))
          writeSize = some data' ∧ messageIn writeSize data' = message := by
  obtain ⟨⟨rest, hgood⟩, data₀, hread₀, hbefore, hafter, hcase⟩ := hkept
  obtain rfl : data = data₀ := Option.some.inj (hread.symm.trans hread₀)
  have hpage := hfits.page
  have hdata := readPages_length hfits hread
  have hthree : writeSize * miscPages = writeSize * 3 := rfl
  have hsize : 0 < BootloaderMessage.size := by decide
  have hgood' := goodFrom_setBlock hgood (paddedBlock (splice writeSize data message) hlength)
  have htail := streamFrom_setBlock_tail hgood
    (paddedBlock (splice writeSize data message) hlength)
  have hpages := readPages_setBlock message hfits hgood hdata hlength
  by_cases hnonzero : anyNonZero (splice writeSize data message) = true
  · rw [if_pos hnonzero] at hpages
    refine ⟨⟨⟨rest, hgood'⟩, _, hpages, ?_, ?_, ?_⟩, _, hpages, ?_⟩
    · rw [take_splice message (by omega), hbefore]
    · rw [drop_splice_of_le message (by omega) (by omega), hafter]
    · rw [outside_splice message (by omega), htail]
      exact hcase
    · exact messageIn_splice message (by omega)
  · rw [anyNonZero_splice, Bool.or_eq_true, not_or, Bool.not_eq_true, Bool.not_eq_true] at hnonzero
    rcases hcase with hout | ⟨hzero, hzero₀, hzero₂⟩
    · rw [hout] at hnonzero
      cases hnonzero.2
    · rw [anyNonZero_splice, hnonzero.1, hnonzero.2, Bool.or_false, if_neg (by simp),
        if_pos hzero.long] at hpages
      have hlong := hzero.long
      have hmessage := hzero.message
      have hbegins : ((flash.streamFrom (first + 1)).take (writeSize * miscPages)).take
          (writeSize + BootloaderMessage.size) =
          (flash.streamFrom (first + 1)).take (writeSize + BootloaderMessage.size) := by
        rw [List.take_take, Nat.min_eq_left (by omega)]
      have hstart : anyNonZero (((flash.streamFrom (first + 1)).take (writeSize * miscPages)).take
          writeSize) = false := by
        rw [List.take_add, anyNonZero_append, Bool.or_eq_false_iff] at hmessage
        rw [List.take_take, Nat.min_eq_left (by omega)]
        exact hmessage.1
      refine ⟨⟨⟨rest, hgood'⟩, _, hpages, ?_, ?_, ?_⟩, _, hpages, ?_⟩
      · apply eq_of_zeros hstart hzero₀
        rw [← hbefore, List.length_take, List.length_take, List.length_take]
        omega
      · apply eq_of_zeros hzero.last hzero₂
        rw [← hafter, List.length_drop, List.length_drop, List.length_take]
        omega
      · rw [htail]
        exact .inr ⟨hzero, hzero₀, hzero₂⟩
      · apply message_eq_of_zeros message hnonzero.1
        · rw [List.length_take]
          omega
        · rw [hbegins]
          exact hmessage

end Setting

/-! ## The functions on a system without the bootstrap mark -/

/-- The message is kept on the given partition. -/
structure OnFlash (env : Env) (writeSize : Nat) (flash : Flash partition) (world : World) :
    Prop where
  misc : world.partitions "misc".toList = some ⟨partition, flash⟩
  writeSize_eq : env.writeSize "misc".toList = writeSize
  unmarked : world.files orIsBootstrapMark = none

theorem getRootInfoForPath_misc (build : Build) :
    getRootInfoForPath build "MISC:".toList = some (rawRoot "MISC:" "misc") := by
  rcases build with ⟨_ | _, _ | _⟩ <;> decide

section System

variable {build : Build} {env : Env} {world : World} {writeSize : Nat} {flash : Flash partition}

theorem OnFlash.remounted
    {after : World} (hflash : OnFlash env writeSize flash world)
    (hremounted : World.Remounted world after) : OnFlash env writeSize flash after where
  misc := by rw [hremounted.partitions, hflash.misc]
  writeSize_eq := hflash.writeSize_eq
  unmarked := by rw [hremounted.files, hflash.unmarked]

theorem OnFlash.setFlash
    (hflash : OnFlash env writeSize flash world) (flash' : Flash partition) :
    OnFlash env writeSize flash' (world.setFlash "misc".toList flash') where
  misc := World.setFlash_partitions_self ..
  writeSize_eq := hflash.writeSize_eq
  unmarked := hflash.unmarked

theorem OnFlash.getRootMtdPartition_run (hflash : OnFlash env writeSize flash world) :
    (getRootMtdPartition build "MISC:".toList).run (World.handle env) world =
      (some ("misc".toList, partition), world) := by
  rw [getRootMtdPartition, getRootInfoForPath_misc]
  simp only [rawRoot, Prog.ask_bind_eq, Prog.run_request, World.handle, hflash.misc,
    Option.map_some]
  rfl

theorem OnFlash.readMisc_exec
    (hflash : OnFlash env writeSize flash world) (hfits : MessageFits partition writeSize) :
    Prog.exec (World.handle env) (readMisc build) world =
      (.ok ((readPages flash writeSize).map fun data =>
        ⟨"misc".toList, partition, writeSize, data⟩), world) := by
  have hsize := hfits.size_lt
  have hpage := hfits.page
  have hthree : writeSize * miscPages = writeSize * 3 := rfl
  have hroot : Prog.exec (World.handle env)
      (ExceptT.lift (getRootMtdPartition build "MISC:".toList) : Checked _) world =
        (.ok (some ("misc".toList, partition)), world) := by
    rw [Prog.exec_lift, hflash.getRootMtdPartition_run]
  have hwrite : Prog.exec (World.handle env) (call (.writeSize "misc".toList)) world =
      (.ok (some writeSize), world) := by
    rw [call, Prog.exec_lift, Prog.ask, Prog.run_request, Prog.run_pure]
    simp only [World.handle, hflash.misc, hflash.writeSize_eq, Option.map_some]
  have hopen : Prog.exec (World.handle env) (call (.openPartition "misc".toList)) world =
      (.ok true, world) := by
    rw [call, Prog.exec_lift, Prog.ask, Prog.run_request, Prog.run_pure]
    simp only [World.handle, hflash.misc, Option.isSome_some]
  have hmod : writeSize * miscPages % 2 ^ 32 = writeSize * miscPages :=
    Nat.mod_eq_of_lt (by omega)
  rw [readMisc, Prog.exec_bind_ok hroot]
  simp only
  rw [Prog.exec_bind_ok hwrite]
  simp only
  rw [Prog.exec_bind_ok hopen]
  simp only [if_true, hmod]
  obtain ⟨ctx, hrun, -⟩ := mtdReadData_run flash (mtdReadPartition_valid partition) hsize
  have hread : Prog.exec (World.handle env)
      (ExceptT.lift (onPartition "misc".toList
        (mtdReadData partition (mtdReadPartition partition) (writeSize * miscPages))) :
        Checked _) world = (.ok (readPages flash writeSize, ctx), world) := by
    rw [Prog.exec_lift, onPartition_run env _ hflash.misc, readPages, hrun,
      World.setFlash_eq_self hflash.misc]
  rw [Prog.exec_bind_ok hread]
  cases hpages : readPages flash writeSize with
  | none => rfl
  | some data =>
      have hlength := readPages_length hfits hpages
      simp only [Option.map_some]
      rw [if_neg (by omega), if_neg (by omega)]
      rfl

theorem OnFlash.stat_exec (hflash : OnFlash env writeSize flash world) :
    Prog.exec (World.handle env) (call (.stat orIsBootstrapMark)) world = (.ok none, world) := by
  rw [call, Prog.exec_lift, Prog.ask, Prog.run_request, Prog.run_pure]
  simp only [World.handle, hflash.unmarked, Option.map_none]

theorem OnFlash.loadMessage_exec
    (hflash : OnFlash env writeSize flash world) (hfits : MessageFits partition writeSize)
    (out : BootloaderMessage) :
    Prog.exec (World.handle env) (loadMessage build out) world =
      (.ok (match readPages flash writeSize with
        | none => (-1, out)
        | some data => (0, messageIn writeSize data)), world) := by
  rw [loadMessage, Prog.exec_bind_ok hflash.stat_exec]
  simp only
  rw [Prog.exec_bind_ok (hflash.readMisc_exec hfits)]
  cases readPages flash writeSize with
  | none => rfl
  | some data => rfl

theorem OnFlash.storeMessage_exec_none
    (hflash : OnFlash env writeSize flash world) (hfits : MessageFits partition writeSize)
    (message : BootloaderMessage) (hread : readPages flash writeSize = none) :
    Prog.exec (World.handle env) (storeMessage build message) world = (.ok (-1), world) := by
  rw [storeMessage, Prog.exec_bind_ok hflash.stat_exec]
  simp only
  rw [Prog.exec_bind_ok (hflash.readMisc_exec hfits), hread]
  rfl

theorem splice_length_le
    {data : Bytes} (hfits : MessageFits partition writeSize) (message : BootloaderMessage)
    (hread : readPages flash writeSize = some data) :
    (splice writeSize data message).length ≤ partition.eraseSize := by
  have hpage := hfits.page
  have hblock := hfits.block
  have hthree : writeSize * miscPages = writeSize * 3 := rfl
  have hlength := readPages_length hfits hread
  rw [splice_length message (by omega)]
  omega

theorem OnFlash.storeMessage_exec
    {first : Nat} {rest : List Nat} {data : Bytes}
    (hflash : OnFlash env writeSize flash world) (hfits : MessageFits partition writeSize)
    (hgood : flash.goodFrom 0 = first :: rest) (message : BootloaderMessage)
    (hread : readPages flash writeSize = some data) :
    Prog.exec (World.handle env) (storeMessage build message) world =
      (.ok 0, world.setFlash "misc".toList (flash.setBlock first
        (paddedBlock (splice writeSize data message) (splice_length_le hfits message hread)))) := by
  have hsome : splice writeSize data message ≠ [] := by
    have hsize : 0 < message.bytes.length := by
      rw [message.bytes_length]
      decide
    intro hnil
    rw [splice, List.append_eq_nil_iff, List.append_eq_nil_iff] at hnil
    rw [hnil.2.1] at hsize
    exact absurd hsize (by decide)
  have hopen : Prog.exec (World.handle env) (call (.openPartition "misc".toList)) world =
      (.ok true, world) := by
    rw [call, Prog.exec_lift, Prog.ask, Prog.run_request, Prog.run_pure]
    simp only [World.handle, hflash.misc, Option.isSome_some]
  rw [storeMessage, Prog.exec_bind_ok hflash.stat_exec]
  simp only
  rw [Prog.exec_bind_ok (hflash.readMisc_exec hfits), hread]
  simp only [Option.map_some]
  rw [Prog.exec_bind_ok hopen, if_pos rfl, Prog.exec_lift, onPartition_run env _ hflash.misc,
    writeMisc_run hgood hsome (splice_length_le hfits message hread)]

end System

/-! ## Sequences of calls -/

inductive MessageCall where
  | get (out : BootloaderMessage)
  | set (message : BootloaderMessage)

/-- The calls bring the system from one state to another, and whenever a message
is set the result is zero. -/
def CallsTo (build : Build) (env : Env) : List MessageCall → World → World → Prop
  | [], before, after => after = before
  | .get out :: calls, before, after =>
      ∃ result middle,
        Prog.exec (World.handle env) (getBootloaderMessage build out) before =
          (.ok result, middle) ∧ CallsTo build env calls middle after
  | .set message :: calls, before, after =>
      ∃ middle,
        Prog.exec (World.handle env) (setBootloaderMessage build message) before =
          (.ok 0, middle) ∧ CallsTo build env calls middle after

def MessageCall.message? : MessageCall → Option BootloaderMessage
  | .get _ => none
  | .set message => some message

/-- The message that was set last. -/
def lastSet (calls : List MessageCall) : Option BootloaderMessage :=
  (calls.filterMap MessageCall.message?).getLast?

/-- The three pages that can be read in a state of the system. -/
def World.miscPages (world : World) (writeSize : Nat) : Option Bytes :=
  match world.partitions "misc".toList with
  | none => none
  | some ⟨_, flash⟩ => readPages flash writeSize

/-- Whatever calls are made, the message that was set last is read back and the
first and the third page read as before. -/
def RoundTrips (build : Build) (writeSize : Nat) (world : World) : Prop :=
  ∀ env calls message after, env.writeSize "misc".toList = writeSize →
    CallsTo build env calls world after → lastSet calls = some message → ScanFits after →
      (∀ out, (Prog.exec (World.handle env) (getBootloaderMessage build out) after).1 =
        .ok (0, message)) ∧
      (after.miscPages writeSize).map (List.take writeSize) =
        (world.miscPages writeSize).map (List.take writeSize) ∧
      (after.miscPages writeSize).map (List.drop (writeSize * 2)) =
        (world.miscPages writeSize).map (List.drop (writeSize * 2))

section Calls

variable {build : Build} {env : Env} {world after : World} {writeSize first : Nat}
variable {flash : Flash partition} {message : BootloaderMessage}

theorem OnFlash.miscPages_eq (hflash : OnFlash env writeSize flash world) :
    world.miscPages writeSize = readPages flash writeSize := by
  simp only [World.miscPages, hflash.misc]

theorem OnFlash.get_exec
    (hflash : OnFlash env writeSize flash world) (hfits : MessageFits partition writeSize)
    (hscan : ScanFits world) (out : BootloaderMessage) :
    ∃ final, World.Remounted world final ∧
      Prog.exec (World.handle env) (getBootloaderMessage build out) world =
        (.ok (match readPages flash writeSize with
          | none => (-1, out)
          | some data => (0, messageIn writeSize data)), final) := by
  obtain ⟨result, final, hexec, hremounted⟩ :=
    hscan.ensureRootPathMounted_exec env build "CACHE:".toList
  refine ⟨final, hremounted, ?_⟩
  rw [getBootloaderMessage, Prog.exec_bind_ok hexec,
    (hflash.remounted hremounted).loadMessage_exec hfits]

/-- A message that was set is in the first good block. -/
theorem OnFlash.of_set
    {rest : List Nat} (hflash : OnFlash env writeSize flash world)
    (hfits : MessageFits partition writeSize) (hgood : flash.goodFrom 0 = first :: rest)
    (hexec : Prog.exec (World.handle env) (setBootloaderMessage build message) world =
      (.ok 0, after)) :
    ∃ data, ∃ hread : readPages flash writeSize = some data,
      OnFlash env writeSize (flash.setBlock first (paddedBlock (splice writeSize data message)
        (splice_length_le hfits message hread))) after := by
  obtain ⟨result, middle, hmount, hstore⟩ := Prog.exec_bind_eq_ok hexec
  have hremounted : World.Remounted world middle := by
    have hframe := @ensureRootPathMounted_remounted build env world "CACHE:".toList
    rw [hmount] at hframe
    exact hframe
  have hmiddle := hflash.remounted hremounted
  obtain hread | ⟨data, hread⟩ := Option.eq_none_or_eq_some (readPages flash writeSize)
  · rw [hmiddle.storeMessage_exec_none hfits message hread] at hstore
    cases hstore
  · rw [hmiddle.storeMessage_exec hfits hgood message hread] at hstore
    refine ⟨data, hread, ?_⟩
    rw [← (Prod.mk.inj hstore).2]
    exact hmiddle.setFlash _

/-- A sequence of calls keeps the outer pages. -/
theorem Kept.calls
    {before behind : Bytes} {calls : List MessageCall}
    (hfits : MessageFits partition writeSize) (hflash : OnFlash env writeSize flash world)
    (hkept : Kept writeSize first before behind flash)
    (hcalls : CallsTo build env calls world after) :
    ∃ flash' : Flash partition, OnFlash env writeSize flash' after ∧
      Kept writeSize first before behind flash' ∧
      ∀ message, lastSet calls = some message →
        ∃ data, readPages flash' writeSize = some data ∧ messageIn writeSize data = message := by
  suffices hstrong : ∀ held, (∃ data, readPages flash writeSize = some data ∧
      ∀ message, held = some message → messageIn writeSize data = message) →
      ∃ flash' : Flash partition, OnFlash env writeSize flash' after ∧
        Kept writeSize first before behind flash' ∧
        ∃ data, readPages flash' writeSize = some data ∧
          ∀ message, (lastSet calls <|> held) = some message →
            messageIn writeSize data = message by
    obtain ⟨data, hread, -⟩ := hkept.pages
    obtain ⟨flash', hflash', hkept', data', hread', hmessage⟩ :=
      hstrong none ⟨data, hread, fun _ h => (nomatch h)⟩
    refine ⟨flash', hflash', hkept', ?_⟩
    intro message hlast
    exact ⟨data', hread', hmessage message (by rw [hlast]; rfl)⟩
  induction calls generalizing world flash with
  | nil =>
      rintro held ⟨data, hread, hheld⟩
      obtain rfl : after = world := hcalls
      exact ⟨flash, hflash, hkept, data, hread, fun message h => hheld message h⟩
  | cons call calls ih =>
      rintro held ⟨data, hread, hheld⟩
      cases call with
      | get out =>
          obtain ⟨result, middle, hexec, hrest⟩ := hcalls
          obtain ⟨value, mounted, hmount, hload⟩ := Prog.exec_bind_eq_ok hexec
          have hframe := @ensureRootPathMounted_remounted build env world "CACHE:".toList
          rw [hmount] at hframe
          have hmounted := hflash.remounted hframe
          rw [hmounted.loadMessage_exec hfits] at hload
          obtain rfl : mounted = middle := (Prod.mk.inj hload).2
          exact ih hmounted hkept hrest held ⟨data, hread, hheld⟩
      | set message =>
          obtain ⟨middle, hexec, hrest⟩ := hcalls
          obtain ⟨rest, hgood⟩ := hkept.good
          obtain ⟨data₀, hread₀, hmiddle⟩ := hflash.of_set hfits hgood hexec
          obtain ⟨hkept', data', hread', hmessage⟩ :=
            hkept.set message hfits hread₀ (splice_length_le hfits message hread₀)
          obtain ⟨flash', hflash', hkept'', data'', hread'', hlast⟩ :=
            ih hmiddle hkept' hrest (some message)
              ⟨data', hread', fun other h => Option.some.inj h ▸ hmessage⟩
          refine ⟨flash', hflash', hkept'', data'', hread'', ?_⟩
          intro other hother
          apply hlast
          rw [← hother]
          have hcons : lastSet (.set message :: calls) = (lastSet calls <|> some message) := by
            have hmessage : MessageCall.message? (.set message) = some message := rfl
            rw [lastSet, lastSet, List.filterMap_cons_some hmessage, List.getLast?_cons]
            cases (List.filterMap MessageCall.message? calls).getLast? with
            | none => rfl
            | some last => rfl
          rw [hcons]
          cases lastSet calls with
          | none => rfl
          | some last => rfl

theorem scanFits_of_calls
    {calls : List MessageCall} (hcalls : CallsTo build env calls world after)
    (hlast : lastSet calls = some message) : ScanFits world := by
  cases calls with
  | nil => cases hlast
  | cons call calls =>
      cases call with
      | get out =>
          obtain ⟨result, middle, hexec, -⟩ := hcalls
          obtain ⟨value, mounted, hmount, -⟩ := Prog.exec_bind_eq_ok hexec
          exact scanFits_of_mounted hmount
      | set message =>
          obtain ⟨middle, hexec, -⟩ := hcalls
          obtain ⟨value, mounted, hmount, -⟩ := Prog.exec_bind_eq_ok hexec
          exact scanFits_of_mounted hmount

end Calls

theorem fieldOf_toList {count : Nat} {data : Bytes} (hlength : count ≤ data.length) :
    (fieldOf count data).toList = data.take count := by
  change (data ++ List.replicate count 0).take count = data.take count
  rw [List.take_append_of_le_length hlength]

theorem BootloaderMessage.bytes_ofBytes {data : Bytes} (hlength : size ≤ data.length) :
    (ofBytes data).bytes = data.take size := by
  have hsize : size = 1088 := rfl
  rw [bytes, ofBytes]
  simp only
  rw [fieldOf_toList (by omega), fieldOf_toList (by rw [List.length_drop]; omega),
    fieldOf_toList (by rw [List.length_drop]; omega), hsize]
  rw [show 1088 = 32 + (32 + 1024) from rfl, List.take_add, List.take_add, List.drop_drop]

section Exact

variable {build : Build} {world : World} {writeSize first : Nat} {flash : Flash partition}

theorem messageFits_of_readable
    (hpage : BootloaderMessage.size ≤ writeSize)
    (hblock : writeSize * miscPages ≤ partition.eraseSize)
    (hreadable : writeSize * miscPages ≤ (flash.streamFrom 0).length) :
    MessageFits partition writeSize ∧ ∃ first rest, flash.goodFrom 0 = first :: rest := by
  have hthree : writeSize * miscPages = writeSize * 3 := rfl
  have hsize : 0 < BootloaderMessage.size := by decide
  rw [streamFrom_length, accepted_eq_filter] at hreadable
  cases hgood : flash.goodFrom 0 with
  | nil =>
      rw [hgood, List.filter_nil, List.length_nil] at hreadable
      omega
  | cons first rest =>
      have hfirst := (goodFrom_cons hgood).2.1
      have hcount : 0 < partition.size / partition.eraseSize := by
        rw [← MtdPartition.blockCount]
        omega
      exact ⟨⟨hpage, hblock, ((Nat.div_pos_iff).mp hcount).2⟩, first, rest, rfl⟩

/-- A system on which nothing can be mounted. -/
def stubbornEnv (writeSize : Nat) : Env :=
  { sampleEnv with
    canMount := fun _ _ => false
    canUmount := fun _ _ => false
    writeSize := fun _ => writeSize }

theorem stubbornEnv_mounted (hscan : ScanFits world) :
    ∃ result, Prog.exec (World.handle (stubbornEnv writeSize))
      (ensureRootPathMounted build "CACHE:".toList) world = (.ok result, world) := by
  obtain ⟨result, after, hexec, -⟩ :=
    hscan.ensureRootPathMounted_exec (stubbornEnv writeSize) build "CACHE:".toList
  have hself := @run_eq_self (stubbornEnv writeSize) world (fun _ _ => rfl) (fun _ _ => rfl) _ _
      (@ensureRootPathMounted_mounts build "CACHE:".toList)
  refine ⟨result, ?_⟩
  rw [hexec]
  rw [Prog.exec] at hexec
  rw [hexec] at hself
  exact congrArg _ hself

/-- The message of zeros is lost between zeros, unless the block after it has
zeros in the same places. -/
theorem zeroTail_of_roundTrips
    {rest : List Nat} {data : Bytes} (hfits : MessageFits partition writeSize)
    (hmisc : world.partitions "misc".toList = some ⟨partition, flash⟩)
    (hunmarked : world.files orIsBootstrapMark = none) (hscan : ScanFits world)
    (hgood : flash.goodFrom 0 = first :: rest) (hread : readPages flash writeSize = some data)
    (hzero : anyNonZero (outside writeSize data) = false)
    (htrips : RoundTrips build writeSize world) :
    ZeroTail writeSize (flash.streamFrom (first + 1)) := by
  have hpage := hfits.page
  have hthree : writeSize * miscPages = writeSize * 3 := rfl
  have hflash : OnFlash (stubbornEnv writeSize) writeSize flash world := ⟨hmisc, rfl, hunmarked⟩
  have hdata := readPages_length hfits hread
  obtain ⟨result, hmounted⟩ := @stubbornEnv_mounted build _ writeSize hscan
  have hstore := @OnFlash.storeMessage_exec _ build _ _ _ _ _ _ _ hflash hfits hgood .zero hread
  have hset : Prog.exec (World.handle (stubbornEnv writeSize))
      (setBootloaderMessage build .zero) world = _ :=
    (Prog.exec_bind_ok hmounted).trans hstore
  have hafter := hflash.setFlash (flash.setBlock first
    (paddedBlock (splice writeSize data .zero) (splice_length_le hfits .zero hread)))
  obtain ⟨hget, hbefore, hbehind⟩ := htrips (stubbornEnv writeSize) [.set .zero] .zero _ rfl
    ⟨_, hset, rfl⟩ rfl (hscan.setFlash _ _)
  have hpages := readPages_setBlock .zero hfits hgood hdata
    (splice_length_le hfits .zero hread)
  rw [anyNonZero_splice, BootloaderMessage.anyNonZero_zero, hzero, Bool.or_false,
    if_neg (by simp)] at hpages
  obtain ⟨final, -, hexec⟩ := @OnFlash.get_exec _ build _ _ _ _ hafter hfits (hscan.setFlash _ _)
      .zero
  have hvalue := hget .zero
  rw [hexec, hpages] at hvalue
  rw [hafter.miscPages_eq, hflash.miscPages_eq, hread, hpages] at hbefore hbehind
  split_ifs at hvalue hbefore hbehind with hlong
  · have hmessage : messageIn writeSize
        ((flash.streamFrom (first + 1)).take (writeSize * miscPages)) = .zero :=
      (Prod.mk.inj (Except.ok.inj hvalue)).2
    have hbytes := @BootloaderMessage.bytes_ofBytes
        (((flash.streamFrom (first + 1)).take (writeSize * miscPages)).drop writeSize)
        (by rw [List.length_drop, List.length_take]; omega)
    rw [← messageIn, hmessage] at hbytes
    rw [outside, anyNonZero_append, Bool.or_eq_false_iff] at hzero
    simp only [Option.map_some, Option.some.injEq] at hbefore hbehind
    refine ⟨hlong, ?_, ?_⟩
    · have hsplit : (flash.streamFrom (first + 1)).take (writeSize + BootloaderMessage.size) =
          data.take writeSize ++ BootloaderMessage.zero.bytes := by
        rw [← hbefore, hbytes, ← List.take_add, List.take_take, Nat.min_eq_left (by omega)]
      rw [hsplit, anyNonZero_append, hzero.1, BootloaderMessage.anyNonZero_zero, Bool.or_false]
    · obtain ⟨more, hmore⟩ := Nat.exists_eq_add_of_le
        (show writeSize + BootloaderMessage.size ≤ writeSize * 2 by omega)
      rw [hbehind, hmore, ← List.drop_drop]
      exact anyNonZero_drop _ hzero.2
  · cases hvalue

/-- Messages survive exactly when some byte around the message keeps the block
from being zero, or when the next block has zeros where they are needed. -/
theorem setBootloaderMessage_roundTrips_iff
    (build : Build) (world : World) (writeSize : Nat) (flash : Flash partition)
    (hmisc : world.partitions "misc".toList = some ⟨partition, flash⟩)
    (hunmarked : world.files orIsBootstrapMark = none)
    (hpage : BootloaderMessage.size ≤ writeSize)
    (hblock : writeSize * miscPages ≤ partition.eraseSize)
    (hreadable : writeSize * miscPages ≤ (flash.streamFrom 0).length) :
    RoundTrips build writeSize world ↔
      (ScanFits world →
        anyNonZero (outside writeSize ((flash.streamFrom 0).take (writeSize * miscPages))) = true ∨
          ∃ first rest, flash.goodFrom 0 = first :: rest ∧
            ZeroTail writeSize (flash.streamFrom (first + 1))) := by
  obtain ⟨hfits, first, rest, hgood⟩ := messageFits_of_readable hpage hblock hreadable
  have hread : readPages flash writeSize =
      some ((flash.streamFrom 0).take (writeSize * miscPages)) := by
    rw [readPages_eq flash hfits.size_lt, if_pos hreadable]
  have hdata := readPages_length hfits hread
  have hthree : writeSize * miscPages = writeSize * 3 := rfl
  have hcase := Bool.eq_false_or_eq_true
    (anyNonZero (outside writeSize ((flash.streamFrom 0).take (writeSize * miscPages))))
  constructor
  · intro htrips hscan
    rcases hcase with hsome | hzero
    · exact .inl hsome
    · exact .inr ⟨first, rest, hgood,
        zeroTail_of_roundTrips hfits hmisc hunmarked hscan hgood hread hzero htrips⟩
  · intro hcondition env calls message after hwriteSize hcalls hlast hscan
    have hflash : OnFlash env writeSize flash world := ⟨hmisc, hwriteSize, hunmarked⟩
    have hcondition := hcondition (scanFits_of_calls hcalls hlast)
    have hkept : Kept writeSize first
        (((flash.streamFrom 0).take (writeSize * miscPages)).take writeSize)
        (((flash.streamFrom 0).take (writeSize * miscPages)).drop (writeSize * 2)) flash := by
      refine ⟨⟨rest, hgood⟩, _, hread, rfl, rfl, ?_⟩
      rcases hcase with hsome | hzero
      · exact .inl hsome
      · rcases hcondition with hsome | ⟨first', rest', hgood', htail⟩
        · rw [hzero] at hsome
          cases hsome
        · obtain ⟨rfl, rfl⟩ := List.cons.inj (hgood.symm.trans hgood')
          rw [outside, anyNonZero_append, Bool.or_eq_false_iff] at hzero
          refine .inr ⟨htail, hzero.1, ?_⟩
          obtain ⟨more, hmore⟩ := Nat.exists_eq_add_of_le
            (show writeSize + BootloaderMessage.size ≤ writeSize * 2 by omega)
          rw [hmore, ← List.drop_drop]
          exact anyNonZero_drop _ hzero.2
    obtain ⟨flash', hflash', hkept', hmessage⟩ := hkept.calls hfits hflash hcalls
    obtain ⟨data, hread', rfl⟩ := hmessage message hlast
    obtain ⟨data', hread'', hbefore, hbehind, -⟩ := hkept'.pages
    obtain rfl : data = data' := Option.some.inj (hread'.symm.trans hread'')
    refine ⟨?_, ?_, ?_⟩
    · intro out
      obtain ⟨final, -, hexec⟩ := @OnFlash.get_exec _ build _ _ _ _ hflash' hfits hscan out
      rw [hexec, hread']
    · rw [hflash'.miscPages_eq, hflash.miscPages_eq, hread, hread', Option.map_some,
        Option.map_some, hbefore]
    · rw [hflash'.miscPages_eq, hflash.miscPages_eq, hread, hread', Option.map_some,
        Option.map_some, hbehind]

end Exact

/-! ## Examples -/

/-- A system with the given partition `misc` and nothing else. -/
def miscWorld (flash : Flash partition) : World where
  files _ := none
  partitions name := if name = "misc".toList then some ⟨partition, flash⟩ else none
  stdout := []

theorem miscWorld_misc (flash : Flash partition) :
    (miscWorld flash).partitions "misc".toList = some ⟨partition, flash⟩ := by
  simp [miscWorld]

theorem scanFits_miscWorld (flash : Flash partition) : ScanFits (miscWorld flash) := by
  rw [scanFits_iff (by simp [miscWorld])]
  exact Nat.zero_le _

theorem sampleFlash_streamFrom_length : (sampleFlash.streamFrom 0).length = 2 * 0x20000 := by
  have hblock : ∀ block, anyNonZero (sampleFlash.block block).val = true :=
    fun _ => anyNonZero_replicate (by decide)
  rw [streamFrom_length, accepted_eq_filter, sampleFlash_goodFrom]
  simp [hblock, samplePartition]

theorem sampleFlash_streamFrom :
    sampleFlash.streamFrom 0 =
      List.replicate 0x20000 0xFF ++ sampleFlash.streamFrom 1 :=
  streamFrom_first sampleFlash_goodFrom (anyNonZero_replicate (by decide))

theorem setBootloaderMessage_roundTrips_sample :
    RoundTrips sampleBuild 2048 (miscWorld sampleFlash) := by
  refine (setBootloaderMessage_roundTrips_iff sampleBuild (miscWorld sampleFlash) 2048 sampleFlash
    (miscWorld_misc _) rfl (by decide) (by decide) ?_).mpr fun _ => .inl ?_
  · rw [sampleFlash_streamFrom_length]
    decide
  · rw [outside, anyNonZero_append, sampleFlash_streamFrom, List.take_take,
      List.take_append_of_le_length (by rw [List.length_replicate]; decide), List.take_replicate,
      Bool.or_eq_true]
    refine .inl (@anyNonZero_of_mem _ 0xFF ?_ (by decide))
    exact List.mem_replicate.mpr ⟨by decide, rfl⟩

theorem miscPartition_pos : 0 < 0x20000 := by decide

theorem miscPartition_lt : 0x20000 < 2 ^ 31 := by decide

/-- A partition of one block. -/
def miscPartition : MtdPartition where
  size := 0x20000
  eraseSize := 0x20000
  eraseSize_pos := miscPartition_pos
  size_lt := miscPartition_lt

def bootRecovery : BootloaderMessage :=
  { BootloaderMessage.zero with
    command := strcpy BootloaderMessage.zero.command (ascii "boot-recovery") }

/-- Three pages of zeros that hold a message. -/
def zeroPages : Bytes :=
  splice 2048 (List.replicate 6144 0) bootRecovery

theorem zeroPages_length : zeroPages.length = 6144 := by
  rw [zeroPages, splice_length bootRecovery (by rw [List.length_replicate]; decide),
    List.length_replicate]

def zeroPagesFlash : Flash miscPartition where
  block _ := paddedBlock zeroPages (by rw [zeroPages_length]; decide)
  bad _ := false

theorem zeroPagesFlash_goodFrom : zeroPagesFlash.goodFrom 0 = [0] := by
  decide

theorem zeroPagesFlash_readPages : readPages zeroPagesFlash 2048 = some zeroPages := by
  have hnonzero : anyNonZero zeroPages = true := by
    have hmessage : anyNonZero bootRecovery.bytes = true := by decide
    rw [zeroPages, anyNonZero_splice, hmessage, Bool.true_or]
  have hstream : zeroPagesFlash.streamFrom 0 =
      zeroPages ++ (List.replicate (miscPartition.eraseSize - zeroPages.length) 0 ++
        zeroPagesFlash.streamFrom 1) := by
    have hfirst := streamFrom_first zeroPagesFlash_goodFrom (by
      rw [zeroPagesFlash, anyNonZero_paddedBlock, hnonzero])
    rw [hfirst, zeroPagesFlash, paddedBlock, List.append_assoc]
  have hlength : zeroPages.length = 2048 * miscPages := zeroPages_length
  rw [readPages_eq zeroPagesFlash (by decide), hstream, if_pos (by
    rw [List.length_append, hlength]; omega), List.take_left' hlength]

/-- Between two pages of zeros the message of zeros cannot be read back. -/
theorem setBootloaderMessage_loses_zero_message :
    ¬ RoundTrips sampleBuild 2048 (miscWorld zeroPagesFlash) := by
  intro htrips
  have hzero : anyNonZero (outside 2048 zeroPages) = false := by
    rw [zeroPages, outside_splice bootRecovery (by rw [List.length_replicate]; decide), outside,
      List.take_replicate, List.drop_replicate, ← List.replicate_add, anyNonZero_eq_false,
      List.length_replicate]
  have htail := zeroTail_of_roundTrips (@messageFits_of_readable _ _ zeroPagesFlash (by decide)
      (by decide) (by
        have hread := zeroPagesFlash_readPages
        rw [readPages_eq _ (by decide)] at hread
        by_contra hshort
        rw [if_neg hshort] at hread
        cases hread)).1
    (miscWorld_misc _) rfl (scanFits_miscWorld _) zeroPagesFlash_goodFrom zeroPagesFlash_readPages hzero
    htrips
  have hnil : zeroPagesFlash.streamFrom 1 = [] := by
    apply streamFrom_eq_nil
    rw [accepted_eq_filter, (goodFrom_cons zeroPagesFlash_goodFrom).2.2.2, List.filter_nil]
  have hlong := htail.long
  rw [hnil] at hlong
  exact absurd hlong (by decide)

end OpenRecovery
