import OpenRecovery.BackupRuns
import OpenRecovery.YaffsChunks
import Mathlib

/-!
# What reaches the image

Every operation owes the image a number of chunks.  The image never gets more, and if it gets as
much as is owed, all writes were full and all files were read to their end.
-/

namespace OpenRecovery.Yaffs.Backup

/-! ## Full writes -/

/-- A write takes all that it is given.  The chunks have even numbers, the spare areas odd ones. -/
def Full (faults : Faults) (number : Nat) : Prop :=
  ∃ count, faults.write number = some count ∧
    (if number % 2 = 0 then chunkSize else spareSize) ≤ count

/-- Nothing goes wrong. -/
def noFaults : Faults where
  openImage := false
  write := fun _ => some chunkSize
  opendir := fun _ => false
  readdir := fun _ => none
  openFile := fun _ => false
  read := fun _ => none

/-- The chunks of the data of a file. -/
def dataChunks (file : SourceFile) : Nat :=
  if file.kind = .regular then (file.data.length + (chunkSize - 1)) / chunkSize else 0

/-- A file that has data is opened and read to its end. -/
def ReadWhole (faults : Faults) (files : Inode → SourceFile) (inode : Inode) : Prop :=
  0 < dataChunks (files inode) → faults.openFile inode = false ∧
    ∀ chunk, faults.read inode = some chunk → dataChunks (files inode) ≤ chunk

/-- A chunk with its spare area. -/
def recordSize : Nat := chunkSize + spareSize

/-- An operation that owes the image a number of chunks. -/
structure Grows (faults : Faults) (owed : Nat) (readable : Prop) (run next : Run) : Prop where
  objList : next.objList = run.objList
  objId : next.objId = run.objId
  forward : run.writes ≤ next.writes
  writes : next.writes ≤ run.writes + 2 * owed
  size : next.image.length ≤ run.image.length + recordSize * owed
  whole : next.image.length = run.image.length + recordSize * owed →
    readable ∧ next.writes = run.writes + 2 * owed ∧
      (run.writes % 2 = 0 → ∀ n, run.writes ≤ n → n < next.writes → Full faults n)
  exact : readable → run.writes % 2 = 0 →
    (∀ n, run.writes ≤ n → n < run.writes + 2 * owed → Full faults n) →
      next.image.length = run.image.length + recordSize * owed

section Growth

variable {faults : Faults} {owed : Nat} {readable : Prop} {run next : Run}

theorem noFaults_full (number : Nat) : Full noFaults number := by
  refine ⟨chunkSize, rfl, ?_⟩
  split
  · exact le_rfl
  · decide

theorem noFaults_readWhole (files : Inode → SourceFile) (inode : Inode) :
    ReadWhole noFaults files inode :=
  fun _ => ⟨rfl, fun _ hread => nomatch hread⟩

theorem Grows.refl (hreadable : readable) (run : Run) : Grows faults 0 readable run run where
  objList := rfl
  objId := rfl
  forward := le_rfl
  writes := le_rfl
  size := le_rfl
  whole := fun _ => ⟨hreadable, rfl, fun _ _ hstart hend => absurd hend (Nat.not_lt.mpr hstart)⟩
  exact := fun _ _ _ => rfl

/-- Nothing is written though something is owed. -/
theorem Grows.lost (howed : 0 < owed) (hlost : ¬readable) (run : Run) :
    Grows faults owed readable run run where
  objList := rfl
  objId := rfl
  forward := le_rfl
  writes := Nat.le_add_right _ _
  size := Nat.le_add_right _ _
  whole := by
    intro hlength
    have hpos : 0 < recordSize * owed := Nat.mul_pos (by decide) howed
    omega
  exact := fun hreadable _ _ => absurd hreadable hlost

theorem Grows.trans {first second : Nat} {readableFirst readableSecond : Prop} {last : Run}
    (hfirst : Grows faults first readableFirst run next)
    (hsecond : Grows faults second readableSecond next last) :
    Grows faults (first + second) (readableFirst ∧ readableSecond) run last where
  objList := hsecond.objList.trans hfirst.objList
  objId := hsecond.objId.trans hfirst.objId
  forward := hfirst.forward.trans hsecond.forward
  writes := by
    have hwritesFirst := hfirst.writes
    have hwritesSecond := hsecond.writes
    omega
  size := by
    have hsizeFirst := hfirst.size
    have hsizeSecond := hsecond.size
    rw [Nat.mul_add]
    omega
  whole := by
    intro hlength
    have hsizeFirst := hfirst.size
    have hsizeSecond := hsecond.size
    rw [Nat.mul_add] at hlength
    obtain ⟨hreadFirst, hwritesFirst, hfullFirst⟩ := hfirst.whole (by omega)
    obtain ⟨hreadSecond, hwritesSecond, hfullSecond⟩ := hsecond.whole (by omega)
    refine ⟨⟨hreadFirst, hreadSecond⟩, by omega, ?_⟩
    intro heven n hstart hend
    by_cases hn : n < next.writes
    · exact hfullFirst heven n hstart hn
    · exact hfullSecond (by omega) n (by omega) hend
  exact := by
    rintro ⟨hreadFirst, hreadSecond⟩ heven hfull
    have hlengthFirst := hfirst.exact hreadFirst heven fun n hstart hend =>
      hfull n hstart (by omega)
    obtain ⟨-, hwrites, -⟩ := hfirst.whole hlengthFirst
    have hlengthSecond := hsecond.exact hreadSecond (by omega) fun n hstart hend =>
      hfull n (by omega) (by omega)
    rw [Nat.mul_add]
    omega

theorem Grows.congr {other : Prop} (hgrows : Grows faults owed readable run next)
    (hother : readable ↔ other) : Grows faults owed other run next where
  objList := hgrows.objList
  objId := hgrows.objId
  forward := hgrows.forward
  writes := hgrows.writes
  size := hgrows.size
  whole := fun hlength => (hgrows.whole hlength).imp_left hother.mp
  exact := fun hreadable => hgrows.exact (hother.mpr hreadable)

/-- The variable `error` makes no difference. -/
theorem Grows.error (hgrows : Grows faults owed readable run next) (error : Int) :
    Grows faults owed readable run { next with error := error } where
  objList := hgrows.objList
  objId := hgrows.objId
  forward := hgrows.forward
  writes := hgrows.writes
  size := hgrows.size
  whole := hgrows.whole
  exact := hgrows.exact

/-- The same but for the variable `error`. -/
def Same (run other : Run) : Prop :=
  run = { other with error := run.error }

theorem Same.refl (run : Run) : Same run run :=
  rfl

theorem Same.error {other : Run} (hsame : Same run other) (error : Int) :
    Same { run with error := error } other := by
  rw [hsame]
  rfl

theorem Same.table {other : Run} (hsame : Same run other) (objList : List ObjItem)
    (objId : Nat) :
    Same { run with objList := objList, objId := objId }
      { other with objList := objList, objId := objId } := by
  rw [hsame]
  rfl

end Growth

/-! ## Chunks -/

section Chunks

variable (leftover : UInt32 → UInt32 → Nat → UInt8) {faults : Faults} {data : Bytes} {run : Run}

theorem write_none (hwrite : faults.write run.writes = none) (data : Bytes) :
    write faults data run = (-1, { run with writes := run.writes + 1 }) := by
  rw [write, hwrite]

theorem write_some {count : Nat} (hwrite : faults.write run.writes = some count) (data : Bytes) :
    write faults data run = (((data.take count).length : Int),
      { run with writes := run.writes + 1, image := run.image ++ data.take count }) := by
  rw [write, hwrite]

theorem write_writes (faults : Faults) (data : Bytes) (run : Run) :
    (write faults data run).2.writes = run.writes + 1 := by
  cases hwrite : faults.write run.writes with
  | none => rw [write_none hwrite]
  | some count => rw [write_some hwrite]

theorem write_full (hfull : Full faults run.writes)
    (hdata : data.length = if run.writes % 2 = 0 then chunkSize else spareSize) :
    write faults data run = ((data.length : Int),
      { run with writes := run.writes + 1, image := run.image ++ data }) := by
  obtain ⟨count, hwrite, hcount⟩ := hfull
  rw [write_some hwrite, List.take_of_length_le (hdata.trans_le hcount)]

theorem spareArea_length (objId chunkId nBytes : UInt32) :
    (spareArea leftover objId chunkId nBytes).length = spareSize := by
  rw [spareArea]
  dsimp only
  rw [List.length_append, PackedTags.bytes_length, List.length_map, List.length_range]
  rfl

theorem writeChunk_spareArea (data : Bytes) (objId chunkId nBytes : UInt32) :
    Yaffs.writeChunk leftover data objId chunkId nBytes =
      data ++ spareArea leftover objId chunkId nBytes :=
  List.append_assoc _ _ _

section Outcomes

variable (data) (objId chunkId nBytes : UInt32)

theorem writeChunk_failed (hwrite : faults.write run.writes = none) :
    writeChunk leftover faults data objId chunkId nBytes run =
      (-1, { run with writes := run.writes + 1, error := -1 }) := by
  rw [writeChunk, write_none hwrite]
  exact if_pos (by decide)

theorem writeChunk_taken {count : Nat} (hwrite : faults.write run.writes = some count) :
    writeChunk leftover faults data objId chunkId nBytes run =
      write faults (spareArea leftover objId chunkId nBytes)
        { run with
          writes := run.writes + 1
          image := run.image ++ data.take count
          error := (data.take count).length } := by
  rw [writeChunk, write_some hwrite]
  exact if_neg (Int.not_lt.mpr (Int.natCast_nonneg _))

end Outcomes

/-- What `error` has been before makes no difference. -/
theorem Same.writeChunk {other : Run} (hsame : Same run other) (objId chunkId nBytes : UInt32) :
    Backup.writeChunk leftover faults data objId chunkId nBytes run =
      Backup.writeChunk leftover faults data objId chunkId nBytes other := by
  have hwrites : run.writes = other.writes := by rw [hsame]
  cases hwrite : faults.write other.writes with
  | none =>
      rw [writeChunk_failed leftover data objId chunkId nBytes hwrite,
        writeChunk_failed leftover data objId chunkId nBytes (hwrites ▸ hwrite), hsame]
  | some count =>
      rw [writeChunk_taken leftover data objId chunkId nBytes hwrite,
        writeChunk_taken leftover data objId chunkId nBytes (hwrites ▸ hwrite), hsame]

theorem writeChunk_grows (faults : Faults) (run : Run) (hdata : data.length = chunkSize)
    (objId chunkId nBytes : UInt32) :
    Grows faults 1 True run (writeChunk leftover faults data objId chunkId nBytes run).2 ∧
      ((writeChunk leftover faults data objId chunkId nBytes run).1 < 0 →
        (writeChunk leftover faults data objId chunkId nBytes run).2.image.length <
          run.image.length + recordSize) := by
  have hrecord : recordSize = chunkSize + spareSize := rfl
  have hspare := spareArea_length leftover objId chunkId nBytes
  have hpos : 0 < spareSize := by decide
  cases hfirst : faults.write run.writes with
  | none =>
      rw [writeChunk_failed leftover data objId chunkId nBytes hfirst]
      dsimp only
      refine ⟨⟨rfl, rfl, Nat.le_succ _, Nat.le_succ _, Nat.le_add_right _ _, ?_, ?_⟩, fun _ => ?_⟩
      · intro hlength
        dsimp only at hlength
        omega
      · intro _ _ hfull
        obtain ⟨count, htaken, -⟩ := hfull run.writes le_rfl (by omega)
        rw [hfirst] at htaken
        cases htaken
      · omega
  | some count =>
      have htake : (data.take count).length ≤ chunkSize :=
        hdata ▸ List.length_take_le' count data
      rw [writeChunk_taken leftover data objId chunkId nBytes hfirst]
      cases hsecond : faults.write (run.writes + 1) with
      | none =>
          rw [write_none hsecond]
          dsimp only
          refine ⟨⟨rfl, rfl, Nat.le_add_right _ 2, le_rfl, ?_, ?_, ?_⟩, fun _ => ?_⟩
          · dsimp only
            rw [List.length_append]
            omega
          · intro hlength
            dsimp only at hlength
            rw [List.length_append] at hlength
            omega
          · intro _ _ hfull
            obtain ⟨rest, htaken, -⟩ := hfull (run.writes + 1) (Nat.le_succ _) (by omega)
            rw [hsecond] at htaken
            cases htaken
          · rw [List.length_append]
            omega
      | some rest =>
          have htakeSpare : ((spareArea leftover objId chunkId nBytes).take rest).length ≤
              spareSize := hspare ▸ List.length_take_le' rest _
          rw [write_some hsecond]
          dsimp only
          refine ⟨⟨rfl, rfl, Nat.le_add_right _ 2, le_rfl, ?_, ?_, ?_⟩, fun hnegative => ?_⟩
          · dsimp only
            rw [List.length_append, List.length_append]
            omega
          · intro hlength
            dsimp only at hlength ⊢
            rw [List.length_append, List.length_append] at hlength
            refine ⟨trivial, rfl, ?_⟩
            intro heven n hstart hend
            rcases Nat.eq_or_lt_of_le hstart with rfl | hn
            · have hcount := List.length_take_le count data
              refine ⟨count, hfirst, ?_⟩
              rw [if_pos heven]
              omega
            · obtain rfl : n = run.writes + 1 := by omega
              have hrest := List.length_take_le rest (spareArea leftover objId chunkId nBytes)
              refine ⟨rest, hsecond, ?_⟩
              rw [if_neg (by omega)]
              omega
          · intro _ heven hfull
            dsimp only
            obtain ⟨count', htaken, hcount⟩ := hfull run.writes le_rfl (by omega)
            rw [hfirst] at htaken
            cases htaken
            rw [if_pos heven] at hcount
            obtain ⟨rest', htaken, hrest⟩ := hfull (run.writes + 1) (Nat.le_succ _) (by omega)
            rw [hsecond] at htaken
            cases htaken
            rw [if_neg (by omega)] at hrest
            rw [List.length_append, List.length_append, List.take_of_length_le (by omega),
              List.take_of_length_le (by omega)]
            omega
          · exact absurd hnegative (Int.not_lt.mpr (Int.natCast_nonneg _))

/-- A chunk that is taken in full is written as without faults. -/
theorem writeChunk_whole (hdata : data.length = chunkSize) (objId chunkId nBytes : UInt32)
    (heven : run.writes % 2 = 0)
    (hfull : ∀ n < (writeChunk leftover faults data objId chunkId nBytes run).2.writes,
      Full faults n) :
    writeChunk leftover faults data objId chunkId nBytes run =
      writeChunk leftover noFaults data objId chunkId nBytes run ∧
    (writeChunk leftover faults data objId chunkId nBytes run).2.writes = run.writes + 2 := by
  have hchunk : data.length = if run.writes % 2 = 0 then chunkSize else spareSize := by
    rw [if_pos heven, hdata]
  have hspare : (spareArea leftover objId chunkId nBytes).length =
      if (run.writes + 1) % 2 = 0 then chunkSize else spareSize := by
    rw [if_neg (by omega), spareArea_length]
  have hnot : ¬(data.length : Int) < 0 := Int.not_lt.mpr (Int.natCast_nonneg _)
  have hfirst : Full faults run.writes := by
    refine hfull _ ?_
    cases hwrite : faults.write run.writes with
    | none =>
        rw [writeChunk_failed leftover data objId chunkId nBytes hwrite]
        exact Nat.lt_succ_self _
    | some count =>
        rw [writeChunk_taken leftover data objId chunkId nBytes hwrite, write_writes]
        exact (Nat.lt_succ_self _).trans (Nat.lt_succ_self _)
  have hsecond : Full faults (run.writes + 1) := by
    refine hfull _ ?_
    obtain ⟨count, hwrite, -⟩ := hfirst
    rw [writeChunk_taken leftover data objId chunkId nBytes hwrite, write_writes]
    exact Nat.lt_succ_self _
  rw [writeChunk, write_full hfirst hchunk, writeChunk, write_full (noFaults_full _) hchunk]
  dsimp only
  rw [if_neg hnot, if_neg hnot, write_full hsecond hspare, write_full (noFaults_full _) hspare]
  exact ⟨rfl, rfl⟩

end Chunks

/-! ## Objects -/

section Objects

variable (leftover : UInt32 → UInt32 → Nat → UInt8) {faults : Faults} {run : Run}

theorem makeHeader_grows (faults : Faults) (run : Run) (newObj : Nat) (t : ObjectType)
    (file : SourceFile) (parent : Nat) (name : Bytes) (equivalentObj : Int) (aliasName : Bytes) :
    Grows faults 1 True run
        (makeHeader leftover faults newObj t file parent name equivalentObj aliasName run) ∧
      ((makeHeader leftover faults newObj t file parent name equivalentObj aliasName
          run).error < 0 →
        (makeHeader leftover faults newObj t file parent name equivalentObj aliasName
          run).image.length < run.image.length + recordSize) := by
  obtain ⟨hgrows, hshort⟩ := writeChunk_grows leftover faults run
    (ObjectHeader.bytes_length (objectHeader t file parent name equivalentObj aliasName))
    (UInt32.ofNat newObj) 0 0xffff
  exact ⟨hgrows.error _, hshort⟩

theorem makeHeader_whole (newObj : Nat) (t : ObjectType) (file : SourceFile) (parent : Nat)
    (name : Bytes) (equivalentObj : Int) (aliasName : Bytes) (heven : run.writes % 2 = 0)
    (hfull : ∀ n < (makeHeader leftover faults newObj t file parent name equivalentObj aliasName
      run).writes, Full faults n) :
    makeHeader leftover faults newObj t file parent name equivalentObj aliasName run =
        makeHeader leftover noFaults newObj t file parent name equivalentObj aliasName run ∧
      (makeHeader leftover faults newObj t file parent name equivalentObj aliasName run).writes =
        run.writes + 2 := by
  obtain ⟨hsame, hwrites⟩ := writeChunk_whole leftover
    (ObjectHeader.bytes_length (objectHeader t file parent name equivalentObj aliasName))
    (UInt32.ofNat newObj) 0 0xffff heven hfull
  refine ⟨?_, hwrites⟩
  rw [makeHeader, makeHeader, writeObjectHeader, writeObjectHeader, hsame]

/-- The chunks of the rest of a file. -/
def chunksOf (length : Nat) : Nat :=
  (length + (chunkSize - 1)) / chunkSize

theorem chunksOf_zero : chunksOf 0 = 0 := rfl

theorem chunksOf_pos {length : Nat} (hlength : 0 < length) :
    chunksOf length = 1 + chunksOf (length - chunkSize) := by
  rw [chunksOf, chunksOf, show chunkSize = 2048 from rfl]
  omega

theorem chunk_length (unread : Bytes) :
    (unread.take chunkSize ++ filled (chunkSize - (unread.take chunkSize).length)).length =
      chunkSize := by
  have htake := List.length_take_le chunkSize unread
  rw [List.length_append, filled_length]
  omega

variable (inode : Inode) (objId : Nat)

theorem copyData_grows (faults : Faults) (run : Run) {fuel : Nat} (chunk : Nat) {unread : Bytes}
    (hfuel : unread.length < fuel) :
    Grows faults (chunksOf unread.length)
      (∀ k, faults.read inode = some k → chunk ≤ k → chunk + chunksOf unread.length ≤ k)
      run (copyData leftover faults inode objId fuel chunk unread run) := by
  induction fuel generalizing chunk unread run with
  | zero => exact absurd hfuel (Nat.not_lt_zero _)
  | succ fuel ih =>
      rw [copyData]
      by_cases hread : faults.read inode = some chunk
      · rw [if_pos hread]
        by_cases hnone : unread.length = 0
        · rw [hnone, chunksOf_zero]
          exact (Grows.refl (fun k _ hk => hk) run).error _
        · rw [chunksOf_pos (Nat.pos_of_ne_zero hnone)]
          refine (Grows.lost (by omega) (fun hall => ?_) run).error _
          have hlater := hall chunk hread le_rfl
          omega
      · rw [if_neg hread]
        dsimp only
        by_cases hnone : unread.length = 0
        · obtain rfl := List.length_eq_zero_iff.mp hnone
          exact Grows.refl (fun k _ hk => hk) run
        · have hsize : chunkSize = 2048 := rfl
          have htake : (unread.take chunkSize).length = min chunkSize unread.length :=
            List.length_take
          have hdrop : (unread.drop chunkSize).length = unread.length - chunkSize :=
            List.length_drop
          rw [if_pos (by omega), chunksOf_pos (Nat.pos_of_ne_zero hnone), ← hdrop]
          obtain ⟨hfirst, -⟩ := writeChunk_grows leftover faults run (chunk_length unread)
            (UInt32.ofNat objId) (UInt32.ofNat (chunk + 1))
            (UInt32.ofNat (unread.take chunkSize).length)
          have hrest : (unread.drop chunkSize).length < fuel := by omega
          refine (hfirst.trans (ih _ (chunk + 1) hrest)).congr ⟨?_, ?_⟩
          · rintro ⟨-, hlater⟩ k hk hle
            have hne : chunk ≠ k := fun hsame => hread (hsame ▸ hk)
            have hnext := hlater k hk (by omega)
            omega
          · intro hlater
            refine ⟨trivial, fun k hk hle => ?_⟩
            have hnext := hlater k hk (by omega)
            omega

theorem copyData_whole {fuel : Nat} (chunk : Nat) {unread : Bytes} {other : Run}
    (hfuel : unread.length < fuel)
    (hread : ∀ k, faults.read inode = some k → chunk ≤ k → chunk + chunksOf unread.length ≤ k)
    (hsame : Same run other) (heven : run.writes % 2 = 0)
    (hfull : ∀ n < (copyData leftover faults inode objId fuel chunk unread run).writes,
      Full faults n) :
    Same (copyData leftover faults inode objId fuel chunk unread run)
        (copyData leftover noFaults inode objId fuel chunk unread other) ∧
      (copyData leftover faults inode objId fuel chunk unread run).writes % 2 = 0 := by
  induction fuel generalizing chunk unread run other with
  | zero => exact absurd hfuel (Nat.not_lt_zero _)
  | succ fuel ih =>
      rw [copyData] at hfull ⊢
      rw [copyData, if_neg (show ¬noFaults.read inode = some chunk from nofun)]
      by_cases hstop : faults.read inode = some chunk
      · have hnone : unread.length = 0 := by
          by_contra hsome
          have hlater := hread chunk hstop le_rfl
          rw [chunksOf_pos (Nat.pos_of_ne_zero hsome)] at hlater
          omega
        obtain rfl := List.length_eq_zero_iff.mp hnone
        rw [if_pos hstop]
        exact ⟨hsame.error (-1), heven⟩
      · rw [if_neg hstop] at hfull ⊢
        dsimp only at hfull ⊢
        by_cases hnone : unread.length = 0
        · obtain rfl := List.length_eq_zero_iff.mp hnone
          exact ⟨hsame, heven⟩
        · have hsize : chunkSize = 2048 := rfl
          have htake : (unread.take chunkSize).length = min chunkSize unread.length :=
            List.length_take
          have hdrop : (unread.drop chunkSize).length = unread.length - chunkSize :=
            List.length_drop
          rw [if_pos (by omega)] at hfull ⊢
          rw [if_pos (by omega)]
          have hrest : (unread.drop chunkSize).length < fuel := by omega
          obtain ⟨hchunk, hwrites⟩ := writeChunk_whole leftover (chunk_length unread)
            (UInt32.ofNat objId) (UInt32.ofNat (chunk + 1)) (UInt32.ofNat (unread.take chunkSize).length) heven
            fun n hn => hfull n (hn.trans_le (copyData_grows leftover inode objId faults _
              (chunk + 1) hrest).forward)
          refine ih (chunk + 1) hrest ?_ ?_ (by omega) hfull
          · intro k hk hle
            have hlater := hread k hk (by omega)
            rw [chunksOf_pos (Nat.pos_of_ne_zero hnone)] at hlater
            rw [hdrop]
            omega
          · rw [hchunk, hsame.writeChunk]
            exact Same.refl _

theorem Same.makeHeader {other : Run} (hsame : Same run other) (newObj : Nat) (t : ObjectType)
    (file : SourceFile) (parent : Nat) (name : Bytes) (equivalentObj : Int) (aliasName : Bytes) :
    Backup.makeHeader leftover faults newObj t file parent name equivalentObj aliasName run =
      Backup.makeHeader leftover faults newObj t file parent name equivalentObj aliasName
        other := by
  rw [Backup.makeHeader, Backup.makeHeader, writeObjectHeader, writeObjectHeader,
    hsame.writeChunk]

variable (files : Inode → SourceFile)

theorem dataChunks_regular {file : SourceFile} (hkind : file.kind = .regular) :
    dataChunks file = chunksOf file.data.length :=
  if_pos hkind

theorem dataChunks_other {file : SourceFile} (hkind : file.kind ≠ .regular) :
    dataChunks file = 0 :=
  if_neg hkind

theorem readWhole_none {files : Inode → SourceFile} {inode : Inode}
    (hnone : dataChunks (files inode) = 0) : ReadWhole faults files inode := by
  intro hpos
  rw [hnone] at hpos
  exact absurd hpos (Nat.lt_irrefl 0)

/-- An object that is no file is a header. -/
theorem writeObject_header (hkind : (files inode).kind ≠ .regular) (newObj parent : Nat)
    (name : Bytes) : ∃ t aliasName,
      (∀ faults run, writeObject leftover faults files newObj parent name inode run =
        makeHeader leftover faults newObj t (files inode) parent name (-1) aliasName run) ∧
      Yaffs.writeObject leftover newObj parent name (files inode) =
        Yaffs.writeObjectHeader leftover newObj t (files inode) parent name (-1) aliasName := by
  cases hfile : (files inode).kind with
  | regular => exact absurd hfile hkind
  | link =>
      refine ⟨.symlink, (files inode).data.take (sizeofSymname - 1), fun faults run => ?_, ?_⟩
      · rw [writeObject, hfile]
      · rw [Yaffs.writeObject, hfile]
  | directory =>
      refine ⟨.directory, [], fun faults run => ?_, ?_⟩
      · rw [writeObject, hfile]
      · rw [Yaffs.writeObject, hfile]
  | fifo | block | character | socket | other =>
      refine ⟨.special, [], fun faults run => ?_, ?_⟩
      · rw [writeObject, hfile]
      · rw [Yaffs.writeObject, hfile]

theorem writeObject_regular (hkind : (files inode).kind = .regular) (newObj parent : Nat)
    (name : Bytes) :
    writeObject leftover faults files newObj parent name inode run =
      (let next := makeHeader leftover faults newObj .file (files inode) parent name (-1) [] run
      if next.error ≥ 0 then
        if faults.openFile inode then next
        else copyData leftover faults inode newObj ((files inode).data.length + 1) 0
          (files inode).data next
      else next) := by
  rw [writeObject, hkind]

theorem writeObject_grows (faults : Faults) (run : Run) (newObj parent : Nat) (name : Bytes) :
    Grows faults (1 + dataChunks (files inode)) (ReadWhole faults files inode) run
      (writeObject leftover faults files newObj parent name inode run) := by
  by_cases hkind : (files inode).kind = .regular
  · have hchunks := dataChunks_regular hkind
    rw [writeObject_regular leftover inode files hkind]
    obtain ⟨hheader, hshort⟩ := makeHeader_grows leftover faults run newObj .file (files inode)
      parent name (-1) []
    dsimp only
    generalize makeHeader leftover faults newObj .file (files inode) parent name (-1) [] run = next
      at hheader hshort
    by_cases herror : next.error ≥ 0
    · rw [if_pos herror]
      cases hopen : faults.openFile inode with
      | true =>
          rw [if_pos rfl]
          by_cases hnone : dataChunks (files inode) = 0
          · rw [hnone]
            exact hheader.congr ⟨fun _ => readWhole_none hnone, fun _ => trivial⟩
          · have hlost : ¬ReadWhole faults files inode := by
              intro hread
              have hopened := (hread (Nat.pos_of_ne_zero hnone)).1
              rw [hopen] at hopened
              cases hopened
            exact (hheader.trans (Grows.lost (Nat.pos_of_ne_zero hnone) hlost next)).congr
              ⟨And.right, And.intro trivial⟩
      | false =>
          rw [if_neg Bool.false_ne_true, hchunks]
          refine (hheader.trans (copyData_grows leftover inode newObj faults next 0
            (Nat.lt_succ_self _))).congr ⟨?_, ?_⟩
          · rintro ⟨-, hread⟩ -
            refine ⟨hopen, fun k hk => ?_⟩
            have hlater := hread k hk (Nat.zero_le k)
            rw [Nat.zero_add] at hlater
            rw [hchunks]
            exact hlater
          · intro hread
            refine ⟨trivial, fun k hk _ => ?_⟩
            rw [Nat.zero_add, ← hchunks]
            by_cases hnone : dataChunks (files inode) = 0
            · rw [hnone]
              exact Nat.zero_le k
            · exact (hread (Nat.pos_of_ne_zero hnone)).2 k hk
    · rw [if_neg herror]
      have hless := hshort (not_le.mp herror)
      refine ⟨hheader.objList, hheader.objId, hheader.forward, ?_, ?_, ?_, ?_⟩
      · have hwrites := hheader.writes
        omega
      · rw [Nat.mul_add]
        omega
      · intro hlength
        rw [Nat.mul_add] at hlength
        omega
      · intro _ heven hfull
        have hlength := hheader.exact trivial heven fun n hstart hend =>
          hfull n hstart (by omega)
        omega
  · obtain ⟨t, aliasName, hobject, -⟩ :=
      writeObject_header leftover inode files hkind newObj parent name
    rw [hobject, dataChunks_other hkind]
    exact (makeHeader_grows leftover faults run newObj t (files inode) parent name (-1)
      aliasName).1.congr ⟨fun _ => readWhole_none (dataChunks_other hkind), fun _ => trivial⟩

/-- An object that is written in full is written as without faults. -/
theorem writeObject_whole {other : Run} (newObj parent : Nat) (name : Bytes)
    (hread : ReadWhole faults files inode) (hsame : Same run other)
    (heven : run.writes % 2 = 0)
    (hfull : ∀ n < (writeObject leftover faults files newObj parent name inode run).writes,
      Full faults n) :
    Same (writeObject leftover faults files newObj parent name inode run)
        (writeObject leftover noFaults files newObj parent name inode other) ∧
      (writeObject leftover faults files newObj parent name inode run).writes % 2 = 0 := by
  by_cases hkind : (files inode).kind = .regular
  · rw [writeObject_regular leftover inode files hkind] at hfull ⊢
    rw [writeObject_regular leftover inode files hkind]
    dsimp only at hfull ⊢
    have hforward : (makeHeader leftover faults newObj .file (files inode) parent name (-1) []
        run).writes ≤ (writeObject leftover faults files newObj parent name inode run).writes := by
      rw [writeObject_regular leftover inode files hkind]
      dsimp only
      split
      · split
        · exact le_rfl
        · exact (copyData_grows leftover inode newObj faults _ 0 (Nat.lt_succ_self _)).forward
      · exact le_rfl
    rw [writeObject_regular leftover inode files hkind] at hforward
    obtain ⟨hheader, hwrites⟩ := makeHeader_whole leftover newObj .file (files inode) parent name
      (-1) [] heven fun n hn => hfull n (hn.trans_le hforward)
    rw [← hsame.makeHeader, ← hheader]
    generalize makeHeader leftover faults newObj .file (files inode) parent name (-1) [] run = next
      at hfull hwrites ⊢
    have hevenNext : next.writes % 2 = 0 := by omega
    by_cases herror : next.error ≥ 0
    · rw [if_pos herror] at hfull ⊢
      rw [if_pos herror, if_neg (show ¬noFaults.openFile inode = true from nofun)]
      cases hopen : faults.openFile inode with
      | true =>
          rw [hopen, if_pos rfl] at hfull
          rw [if_pos rfl]
          have hnone : chunksOf (files inode).data.length = 0 := by
            rw [← dataChunks_regular hkind]
            by_contra hsome
            have hopened := (hread (Nat.pos_of_ne_zero hsome)).1
            rw [hopen] at hopened
            cases hopened
          have hempty : (files inode).data = [] := by
            by_contra hsome
            rw [chunksOf_pos (List.length_pos_of_ne_nil hsome)] at hnone
            omega
          rw [hempty]
          exact ⟨Same.refl next, hevenNext⟩
      | false =>
          rw [hopen, if_neg Bool.false_ne_true] at hfull
          rw [if_neg Bool.false_ne_true]
          refine copyData_whole leftover inode newObj 0 (Nat.lt_succ_self _) ?_ (Same.refl next)
            hevenNext hfull
          intro k hk _
          rw [Nat.zero_add]
          by_cases hnone : chunksOf (files inode).data.length = 0
          · rw [hnone]
            exact Nat.zero_le k
          · rw [← dataChunks_regular hkind] at hnone ⊢
            exact (hread (Nat.pos_of_ne_zero hnone)).2 k hk
    · rw [if_neg herror, if_neg herror]
      exact ⟨Same.refl next, hevenNext⟩
  · obtain ⟨t, aliasName, hobject, -⟩ :=
      writeObject_header leftover inode files hkind newObj parent name
    rw [hobject] at hfull ⊢
    rw [hobject]
    obtain ⟨hheader, hwrites⟩ := makeHeader_whole leftover newObj t (files inode) parent name (-1)
      aliasName heven hfull
    rw [hwrites, ← hsame.makeHeader, ← hheader]
    exact ⟨Same.refl _, by omega⟩

end Objects

end OpenRecovery.Yaffs.Backup
