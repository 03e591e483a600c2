import OpenRecovery.ZipContents
import Mathlib

/-!
# Extraction to memory

`mzExtractZipEntryToBuffer` does not look at the size of its buffer before it
copies, and `mzReadZipEntry` does not see when the data are too short.  Both are
right exactly for entries whose data have the length that is recorded for them.
-/

namespace OpenRecovery.Minzip

open Deflate Effects Words

/-! ## Chunks that are copied -/

theorem store_append
    (written rest data : Bytes) :
    store (written ++ rest) written.length data =
      if data.length ≤ rest.length then .ok (written ++ data ++ rest.drop data.length)
      else .error .outOfBounds := by
  rw [store, List.length_append]
  by_cases hfits : data.length ≤ rest.length
  · rw [if_pos hfits, if_pos (by omega), List.take_left, ← List.drop_drop, List.drop_left]
  · rw [if_neg hfits, if_neg (by omega)]

theorem bufferProcessFunction_run (written rest data : Bytes) (len : Int) :
    (bufferProcessFunction data).run ⟨written ++ rest, written.length, len⟩ =
      if data.length ≤ rest.length then
        .ok (true, ⟨written ++ data ++ rest.drop data.length, (written ++ data).length,
          wrap32 (len - data.length)⟩)
      else .error .outOfBounds := by
  have hstore := store_append written rest data
  rw [bufferProcessFunction, List.length_append]
  simp only [StateT.run_bind, StateT.run_get, pure_bind, hstore]
  split <;> rfl

/-- The buffer may go on behind the length that the function is told. -/
theorem copyProcessFunction_run (written rest tail data : Bytes) :
    (copyProcessFunction data).run ⟨written ++ rest ++ tail, written.length, rest.length⟩ =
      if data.length ≤ rest.length then
        .ok (true, ⟨written ++ data ++ rest.drop data.length ++ tail, (written ++ data).length,
          (rest.drop data.length).length⟩)
      else .ok (false, ⟨written ++ rest ++ tail, written.length, rest.length⟩) := by
  have hstore := store_append written (rest ++ tail) data
  rw [copyProcessFunction, List.length_append]
  simp only [StateT.run_bind, StateT.run_get, pure_bind, Nat.cast_le]
  by_cases hfits : data.length ≤ rest.length
  · have hless : ((rest.length - data.length : Nat) : Int) = rest.length - data.length := by omega
    rw [if_pos (by rw [List.length_append]; omega), List.drop_append_of_le_length hfits,
      ← List.append_assoc, ← List.append_assoc] at hstore
    rw [if_pos hfits, if_pos hfits, List.length_drop, hless]
    simp only [StateT.run_bind, hstore]
    rfl
  · rw [if_neg hfits, if_neg hfits]
    rfl

section Feeding

variable {α : Type} {refused : α}

theorem feed_cons_run
    (chunk : Bytes) (chunks : List Bytes) (result : Except Stuck α) :
    (feed refused (chunk :: chunks) result).run =
      .request chunk fun accepted =>
        if accepted = true then (feed refused chunks result).run else .pure (.ok refused) := by
  rw [feed]
  refine congrArg (Prog.request chunk) (funext fun accepted => ?_)
  cases accepted with
  | false => rfl
  | true => rfl

/-- Chunks that fit are copied one behind the other; the first that does not fit is
written over the end. -/
theorem buffer_feed
    (chunks : List Bytes) (result : Except Stuck α) (written rest : Bytes) {len : Int}
    (hlen : wrap32 len = len) :
    ((feed refused chunks result).run.interpret bufferProcessFunction).run
        ⟨written ++ rest, written.length, len⟩ =
      if chunks.flatten.length ≤ rest.length then
        result.map fun value => (value, ⟨written ++ chunks.flatten ++
          rest.drop chunks.flatten.length, (written ++ chunks.flatten).length,
          wrap32 (len - chunks.flatten.length)⟩)
      else .error .outOfBounds := by
  induction chunks generalizing written rest len with
  | nil =>
      cases result with
      | error error => simp [feed]; rfl
      | ok value => simp [feed, hlen]; rfl
  | cons chunk chunks ih =>
      rw [feed_cons_run, Prog.interpret, List.flatten_cons, List.length_append]
      change ((bufferProcessFunction chunk >>= fun accepted => _).run _) = _
      rw [StateT.run_bind, bufferProcessFunction_run]
      by_cases hfits : chunk.length ≤ rest.length
      · have hrest := ih (written ++ chunk) (rest.drop chunk.length)
          (wrap32_of_range (wrap32_range (len - chunk.length)).1
            (wrap32_range (len - chunk.length)).2)
        rw [if_pos hfits]
        change ((feed refused chunks result).run.interpret bufferProcessFunction).run _ = _
        rw [hrest, wrap32_wrap32_sub, List.length_drop, List.drop_drop, List.append_assoc written]
        have hsub : len - chunk.length - chunks.flatten.length =
            len - (chunk.length + chunks.flatten.length : Nat) := by
          push_cast
          ring
        rw [hsub]
        congr 1
        rw [eq_iff_iff]
        omega
      · rw [if_neg hfits, if_neg (by omega)]
        rfl

/-- A chunk that does not fit is refused. -/
theorem copy_feed
    (chunks : List Bytes) (result : Except Stuck α) (written rest tail : Bytes) :
    (chunks.flatten.length ≤ rest.length →
      ((feed refused chunks result).run.interpret copyProcessFunction).run
          ⟨written ++ rest ++ tail, written.length, rest.length⟩ =
        result.map fun value => (value, ⟨written ++ chunks.flatten ++
          rest.drop chunks.flatten.length ++ tail, (written ++ chunks.flatten).length,
          (rest.drop chunks.flatten.length).length⟩)) ∧
      (rest.length < chunks.flatten.length → ∃ args,
        ((feed refused chunks result).run.interpret copyProcessFunction).run
          ⟨written ++ rest ++ tail, written.length, rest.length⟩ = .ok (refused, args)) := by
  induction chunks generalizing written rest with
  | nil =>
      refine ⟨fun _ => ?_, fun hlong => absurd hlong (Nat.not_lt_zero _)⟩
      cases result with
      | error error => rfl
      | ok value => simp [feed]; rfl
  | cons chunk chunks ih =>
      rw [feed_cons_run, Prog.interpret, List.flatten_cons, List.length_append]
      change (_ → (copyProcessFunction chunk >>= fun accepted => _).run _ = _) ∧
        (_ → ∃ args, (copyProcessFunction chunk >>= fun accepted => _).run _ = _)
      rw [StateT.run_bind, copyProcessFunction_run]
      by_cases hfits : chunk.length ≤ rest.length
      · obtain ⟨hcopies, hrefuses⟩ := ih (written ++ chunk) (rest.drop chunk.length)
        rw [List.length_drop] at hcopies hrefuses
        rw [if_pos hfits]
        change (_ → ((feed refused chunks result).run.interpret copyProcessFunction).run _ = _) ∧
          (_ → ∃ args,
            ((feed refused chunks result).run.interpret copyProcessFunction).run _ = _)
        rw [List.length_drop]
        refine ⟨fun hall => ?_, fun hlong => hrefuses (by omega)⟩
        rw [hcopies (by omega), List.drop_drop, List.append_assoc written]
      · rw [if_neg hfits]
        exact ⟨fun hall => absurd hall (by omega), fun _ => ⟨_, rfl⟩⟩

end Feeding

/-! ## What extraction should do, and when it does -/

section Exact

variable (format : Format) (data : Bytes) (entry : ZipEntry) (position : Nat)

/-- The data that the archive announces for the entry. -/
def ZipEntry.announced : Bytes :=
  (data.drop (entry.offset % 2 ^ 32).toNat).take (entry.compLen % 2 ^ 32).toNat

/-- The uncompressed contents of the entry. -/
def Contents (contents : Bytes) : Prop :=
  if entry.compression = deflatedMethod then
    format.complete (entry.announced data) = true ∧
      contents = format.output (entry.announced data)
  else contents = entry.announced data

/-- A call has stayed in its buffer and returns true only if the buffer holds the
contents. -/
def Filled (result : Except Stuck (Bool × Bytes)) : Prop :=
  result ≠ .error .outOfBounds ∧
    ∀ after, result = .ok (true, after) →
      (after.length : Int) = entry.uncompLen ∧ Contents format data entry after

/-- With any correct decompressor, and whatever is in the buffer before. -/
def ExtractsExactly : Prop :=
  ∀ zlib : Zlib, zlib.Correct format → ∀ failing fuel buffer,
    ((buffer : Bytes).length : Int) = entry.uncompLen →
      Filled format data entry
          (mzExtractZipEntryToBuffer zlib fuel ⟨data, failing⟩ entry position buffer) ∧
        Filled format data entry
          (mzReadZipEntry zlib fuel ⟨data, failing⟩ entry position buffer entry.uncompLen)

/-- A stored entry has its recorded length, and is read where it is; or the file ends
before it does, and not too many whole buffers come before. -/
def StoredFits : Prop :=
  let source := data.drop (entry.seek position)
  let count := (entry.compLen % 2 ^ 32).toNat
  if count ≤ source.length then
    (count : Int) = entry.uncompLen ∧ source.take count = entry.announced data
  else ((readable source count).length : Int) ≤ entry.uncompLen

/-- The data that can be read give no more than the recorded length, in whole buffers
if they hold no complete stream; and a compressed length of -1 is not one that a failed
read returns. -/
def InflatedFits : Prop :=
  if entry.compLen < 0 then entry.compLen ≠ -1
  else
    let seen := readable (data.drop (entry.seek position)) entry.compLen.toNat
    let length := (format.output seen).length
    if format.complete seen = true then
      (length : Int) ≤ entry.uncompLen ∧
        ((length : Int) = entry.uncompLen → Contents format data entry (format.output seen))
    else ((length - length % bufSize : Nat) : Int) ≤ entry.uncompLen

/-- The lengths of the entry fit its data. -/
def ExtractionFits : Prop :=
  (entry.compression = storedMethod → StoredFits data entry position) ∧
    (entry.compression = deflatedMethod → InflatedFits format data entry position)

end Exact

section Filling

variable {format : Format} {fd : ArchiveFd} {entry : ZipEntry} {position : Nat} {zlib : Zlib}
variable {fuel : Nat} {refused : Bool} {chunks : List Bytes} {result : Except Stuck Bool}
variable {buffer : Bytes}

/-- The fields of an entry are numbers of 32 bits. -/
structure ZipEntry.InRange (entry : ZipEntry) : Prop where
  offset_eq : wrap32 entry.offset = entry.offset
  compLen_eq : wrap32 entry.compLen = entry.compLen
  uncompLen_eq : wrap32 entry.uncompLen = entry.uncompLen

theorem extract_feed
    (hrange : entry.InRange)
    (hprogram : mzProcessZipEntryContents zlib fuel fd entry position = feed refused chunks result) :
    mzExtractZipEntryToBuffer zlib fuel fd entry position buffer =
      if chunks.flatten.length ≤ buffer.length then
        result.map fun ret => (ret && wrap32 (entry.uncompLen - chunks.flatten.length) = 0,
          chunks.flatten ++ buffer.drop chunks.flatten.length)
      else .error .outOfBounds := by
  have hfeed := @buffer_feed _ refused chunks result [] buffer _ hrange.uncompLen_eq
  simp only [List.nil_append, List.length_nil] at hfeed
  rw [mzExtractZipEntryToBuffer, hprogram, hfeed]
  split
  · cases result <;> rfl
  · rfl

/-- The buffer is at least as long as the function is told. -/
theorem read_feed
    {tail : Bytes} (hbuffer : (buffer.length : Int) = entry.uncompLen)
    (hprogram : mzProcessZipEntryContents zlib fuel fd entry position = feed refused chunks result) :
    (chunks.flatten.length ≤ buffer.length →
      mzReadZipEntry zlib fuel fd entry position (buffer ++ tail) entry.uncompLen =
        result.map fun ret =>
          (ret, chunks.flatten ++ buffer.drop chunks.flatten.length ++ tail)) ∧
      (buffer.length < chunks.flatten.length → ∃ after,
        mzReadZipEntry zlib fuel fd entry position (buffer ++ tail) entry.uncompLen =
          .ok (refused, after)) := by
  obtain ⟨hcopies, hrefuses⟩ := @copy_feed _ refused chunks result [] buffer tail
  simp only [List.nil_append, List.length_nil, hbuffer] at hcopies hrefuses
  rw [mzReadZipEntry, hprogram]
  constructor
  · intro hfits
    rw [hcopies hfits]
    cases result <;> rfl
  · intro hlong
    obtain ⟨args, hargs⟩ := hrefuses hlong
    rw [hargs]
    exact ⟨args.memory, rfl⟩

theorem read_feed_whole
    (hbuffer : (buffer.length : Int) = entry.uncompLen)
    (hprogram : mzProcessZipEntryContents zlib fuel fd entry position = feed refused chunks result)
    (hfits : chunks.flatten.length ≤ buffer.length) :
    mzReadZipEntry zlib fuel fd entry position buffer entry.uncompLen =
      result.map fun ret => (ret, chunks.flatten ++ buffer.drop chunks.flatten.length) := by
  have hread := (@read_feed fd entry position zlib fuel refused chunks result buffer [] hbuffer
    hprogram).1 hfits
  simp only [List.append_nil] at hread
  exact hread

/-- Both functions, when the chunks fit the buffer. -/
theorem filled_of_feed
    (hrange : entry.InRange) (hbuffer : (buffer.length : Int) = entry.uncompLen)
    (hprogram : mzProcessZipEntryContents zlib fuel fd entry position = feed refused chunks result)
    (hfits : (chunks.flatten.length : Int) ≤ entry.uncompLen)
    (hresult : result ≠ .error .outOfBounds)
    (hwhole : result = .ok true → (chunks.flatten.length : Int) = entry.uncompLen ∧
      Contents format fd.data entry chunks.flatten) :
    Filled format fd.data entry (mzExtractZipEntryToBuffer zlib fuel fd entry position buffer) ∧
      Filled format fd.data entry
        (mzReadZipEntry zlib fuel fd entry position buffer entry.uncompLen) := by
  have hle : chunks.flatten.length ≤ buffer.length := by omega
  have hdone : ∀ {after}, result = .ok true →
      chunks.flatten ++ buffer.drop chunks.flatten.length = after →
        (after.length : Int) = entry.uncompLen ∧ Contents format fd.data entry after := by
    rintro after htrue rfl
    obtain ⟨hlength, hcontents⟩ := hwhole htrue
    rw [List.drop_of_length_le (by omega), List.append_nil]
    exact ⟨hlength, hcontents⟩
  rw [extract_feed hrange hprogram, if_pos hle, read_feed_whole hbuffer hprogram hle]
  cases result with
  | error stuck =>
      have hstuck : stuck ≠ .outOfBounds := fun heq => hresult (congrArg Except.error heq)
      refine ⟨⟨?_, nofun⟩, ?_, nofun⟩
      · exact fun heq => hstuck (Except.error.inj heq)
      · exact fun heq => hstuck (Except.error.inj heq)
  | ok ret =>
      refine ⟨⟨nofun, ?_⟩, nofun, ?_⟩
      · intro after hafter
        simp only [Except.map, Except.ok.injEq, Prod.mk.injEq, Bool.and_eq_true] at hafter
        exact hdone (congrArg Except.ok hafter.1.1) hafter.2
      · intro after hafter
        simp only [Except.map, Except.ok.injEq, Prod.mk.injEq] at hafter
        exact hdone (congrArg Except.ok hafter.1) hafter.2

end Filling

/-! ## The two methods -/

section Methods

variable {format : Format} {fd : ArchiveFd} {entry : ZipEntry} {position : Nat} {zlib : Zlib}
variable {fuel : Nat}

theorem stored_feeds
    (zlib : Zlib) (fuel : Nat) (fd : ArchiveFd) (position : Nat)
    (hstored : entry.compression = storedMethod) :
    ∃ chunks whole, mzProcessZipEntryContents zlib fuel fd entry position =
        feed false chunks (.ok whole) ∧
      StoredChunks fd (entry.seek position) (entry.compLen % 2 ^ 32).toNat chunks whole := by
  rw [mzProcessZipEntryContents, if_pos hstored, processStoredEntry]
  exact storedLoop_feeds fd _ le_rfl

theorem mzProcessZipEntryContents_deflated
    (hdeflated : entry.compression = deflatedMethod) :
    mzProcessZipEntryContents zlib fuel fd entry position =
      processDeflatedEntry zlib fuel fd entry (entry.seek position) := by
  rw [mzProcessZipEntryContents, if_neg (by rw [hdeflated]; decide), if_pos hdeflated]

/-- The loop gives a result that is compared with the recorded length. -/
theorem processDeflatedEntry_feeds
    {chunks : List Bytes} {result : Except Stuck Int} {stream : zlib.State}
    (hinit : zlib.init = some stream)
    (hloop : inflateLoop zlib fd fuel stream [] [] 0 entry.compLen position =
      feed (-1) chunks result) :
    processDeflatedEntry zlib fuel fd entry position =
      feed (decide (-1 = entry.uncompLen)) chunks
        (result.map fun value => decide (value = entry.uncompLen)) := by
  rw [processDeflatedEntry, hinit]
  simp only [hloop]
  exact feed_map _ _ _ _

theorem processDeflatedEntry_denied (hinit : zlib.init = none) :
    processDeflatedEntry zlib fuel fd entry position =
      feed false [] (.ok (decide (-1 = entry.uncompLen))) := by
  rw [processDeflatedEntry, hinit]
  rfl

/-- A negative length is given to `read` as a very large one. -/
theorem inflateLoop_negative {stream : zlib.State} (hnegative : entry.compLen < 0) :
    inflateLoop zlib fd (fuel + 1) stream [] [] 0 entry.compLen position =
      feed (-1) [] (if entry.compLen = -1 then .error .outOfBounds else .ok (-1)) := by
  have hfill : fillInput fd [] entry.compLen position =
      if entry.compLen = -1 then .error .outOfBounds else .ok none := by
    have hsize : (if (bufSize : Int) < entry.compLen then (bufSize : Int) else entry.compLen) =
        entry.compLen := if_neg (by omega)
    have hread : fd.read position entry.compLen = (-1, []) := by
      rw [ArchiveFd.read, if_pos (.inl hnegative)]
    rw [fillInput, if_neg (by simp)]
    simp only [hsize, hread]
    by_cases hone : entry.compLen = -1
    · rw [if_pos hone, hone]
      rfl
    · rw [if_neg hone, if_pos (Ne.symm hone)]
  rw [inflateLoop, hfill]
  by_cases hone : entry.compLen = -1
  · rw [if_pos hone, if_pos hone]
    rfl
  · rw [if_neg hone, if_neg hone]
    rfl

/-- The lengths of an entry that fits are respected. -/
theorem StoredFits.filled
    (hstored : entry.compression = storedMethod) (hrange : entry.InRange)
    (hfits : StoredFits fd.data entry position) {buffer : Bytes}
    (hbuffer : (buffer.length : Int) = entry.uncompLen) :
    Filled format fd.data entry (mzExtractZipEntryToBuffer zlib fuel fd entry position buffer) ∧
      Filled format fd.data entry
        (mzReadZipEntry zlib fuel fd entry position buffer entry.uncompLen) := by
  obtain ⟨chunks, whole, hprogram, hchunks⟩ := stored_feeds zlib fuel fd position hstored
  have hlength := hchunks.flatten_begins.length_le
  apply filled_of_feed hrange hbuffer hprogram _ nofun
  · intro htrue
    obtain rfl := Except.ok.inj htrue
    obtain ⟨hinside, hflatten⟩ := hchunks.flatten_whole rfl
    rw [StoredFits, if_pos hinside] at hfits
    rw [hflatten, List.length_take_of_le hinside]
    refine ⟨hfits.1, ?_⟩
    rw [Contents, if_neg (by rw [hstored]; decide)]
    exact hfits.2
  · rw [StoredFits] at hfits
    split at hfits
    next hinside =>
      rw [readable, if_pos hinside, List.length_take_of_le hinside] at hlength
      omega
    next => omega

theorem InflatedFits.filled
    (hcorrect : zlib.Correct format) (hdeflated : entry.compression = deflatedMethod)
    (hrange : entry.InRange) (hfits : InflatedFits format fd.data entry position) {buffer : Bytes}
    (hbuffer : (buffer.length : Int) = entry.uncompLen) :
    Filled format fd.data entry (mzExtractZipEntryToBuffer zlib fuel fd entry position buffer) ∧
      Filled format fd.data entry
        (mzReadZipEntry zlib fuel fd entry position buffer entry.uncompLen) := by
  have hprogram := @mzProcessZipEntryContents_deflated fd entry position zlib fuel hdeflated
  have hnot : decide (-1 = entry.uncompLen) = false := decide_eq_false (by omega)
  cases hinit : zlib.init with
  | none =>
      rw [processDeflatedEntry_denied hinit, hnot] at hprogram
      exact filled_of_feed hrange hbuffer hprogram (by simp; omega) nofun nofun
  | some stream =>
      obtain ⟨chunks, result, hloop, hlength, hwhole, hinside⟩ :
          ∃ chunks result, inflateLoop zlib fd fuel stream [] [] 0 entry.compLen
              (entry.seek position) = feed (-1) chunks result ∧
            (chunks.flatten.length : Int) ≤ entry.uncompLen ∧
            (result = .ok entry.uncompLen → (chunks.flatten.length : Int) = entry.uncompLen ∧
              Contents format fd.data entry chunks.flatten) ∧
            result ≠ .error .outOfBounds := by
        rw [InflatedFits] at hfits
        by_cases hnegative : entry.compLen < 0
        · rw [if_pos hnegative] at hfits
          cases fuel with
          | zero => exact ⟨[], .error .hang, rfl, by simp; omega, nofun, nofun⟩
          | succ fuel =>
              refine ⟨[], .ok (-1), ?_, by simp; omega, ?_, nofun⟩
              · rw [inflateLoop_negative hnegative, if_neg hfits]
              · intro heq
                have hfield := Except.ok.inj heq
                omega
        · rw [if_neg hnegative] at hfits
          obtain ⟨count, hcount⟩ := Int.eq_ofNat_of_zero_le (not_lt.mp hnegative)
          simp only [hcount, Int.toNat_natCast] at hfits
          have hbuf := bufSize_eq
          obtain ⟨chunks, result, hloop, hchunks⟩ := @inflateLoop_feeds zlib format fd
            (entry.seek position) count hcorrect fuel stream [] [] [] [] 0 (entry.seek position)
            count (.init hinit) (taken_start _ _ _) rfl (Nat.zero_mod _) (by simp; omega)
          have hbegins := hchunks.flatten_begins
          have hends := hchunks.ends
          rw [List.nil_append] at hbegins hends
          have hless := hbegins.length_le
          refine ⟨chunks, result, hcount ▸ hloop, ?_, ?_, ?_⟩
          · split at hfits
            next => omega
            next hpart =>
              have hmod := (hends.resolve_left (fun h => hpart h.2.1)).2
              have hbuffers := le_sub_mod hless hmod
              omega
          · rintro rfl
            rcases hends with ⟨hvalue, hcomplete, hall⟩ | ⟨hvalue | hvalue, -⟩
            · rw [if_pos hcomplete, ← hall] at hfits
              have hfield := Except.ok.inj hvalue
              have hlong := wrap32_range entry.uncompLen
              rw [hrange.uncompLen_eq] at hlong
              rw [wrap32_of_range (by omega) (by omega)] at hfield
              exact ⟨hfield.symm, hfits.2 hfield.symm⟩
            · have hfield := Except.ok.inj hvalue
              omega
            · cases hvalue
          · rcases hends with ⟨rfl, -⟩ | ⟨rfl | rfl, -⟩
            · nofun
            · nofun
            · nofun
      rw [processDeflatedEntry_feeds hinit hloop, hnot] at hprogram
      apply filled_of_feed hrange hbuffer hprogram hlength
      · intro heq
        cases result with
        | error stuck => exact hinside (congrArg Except.error (Except.error.inj heq))
        | ok value => cases heq
      · intro htrue
        cases result with
        | error stuck => cases htrue
        | ok value =>
            have hvalue := of_decide_eq_true (Except.ok.inj htrue)
            exact hwhole (congrArg Except.ok hvalue)

end Methods

/-! ## All that the data give -/

section Stepwise

variable {format : Format} {fd : ArchiveFd} {start count : Nat}

/-- Without failing reads the data come in the end. -/
theorem fillInput_whole
    {consumed input : Bytes} {compRemaining : Int} {position : Nat}
    (hfailing : ∀ position count, fd.failing position count = false)
    (hinside : count ≤ (fd.data.drop start).length)
    (htaken : Taken (fd.data.drop start) start count consumed input compRemaining position) :
    ∃ input' compRemaining' position', fillInput fd input compRemaining position =
        .ok (some (input', compRemaining', position')) ∧
      Taken (fd.data.drop start) start count consumed input' compRemaining' position' ∧
      (input' = [] → consumed = (fd.data.drop start).take count) := by
  by_cases hinput : input = []
  · subst hinput
    have hcount := htaken.le_count
    have hposition := htaken.position_eq
    have hremaining := htaken.compRemaining_eq
    simp only [List.length_nil, Nat.add_zero] at hcount hposition hremaining
    obtain ⟨left, rfl⟩ : ∃ left : Nat, compRemaining = left := ⟨count - consumed.length, by omega⟩
    have hdrop : fd.data.drop position = (fd.data.drop start).drop consumed.length := by
      rw [List.drop_drop, hposition]
    have hread : (fd.read position (min left bufSize : Nat)).1 = (min left bufSize : Nat) := by
      by_contra hshort
      have hless := fd.read_short hfailing hshort
      rw [hdrop, List.length_drop] at hless
      omega
    have hfill := htaken.fillInput
    rw [fillInput_empty, if_pos hread] at hfill ⊢
    rcases hfill with hnone | ⟨_, _, _, hsome, htaken'⟩
    · cases hnone
    · obtain ⟨rfl, rfl, rfl⟩ := hsome
      refine ⟨_, _, _, rfl, htaken', ?_⟩
      intro hnil
      have hbuf := bufSize_eq
      have hlength := congrArg List.length hnil
      rw [(fd.read_eq hread).1, List.length_take_of_le (fd.read_eq hread).2,
        List.length_nil] at hlength
      have hwhole := List.prefix_iff_eq_take.mp htaken.source_begins
      rw [List.append_nil] at hwhole
      rw [hwhole]
      congr 1
      omega
  · refine ⟨input, compRemaining, position, ?_, htaken, fun hnil => absurd hnil hinput⟩
    rw [fillInput, if_pos hinput]

/-- What the decompressor of a format makes the loop pass on: everything, or whole
buffers only if no complete stream is there. -/
theorem stepwise_feeds
    {seen : Bytes} (hfailing : ∀ position count, fd.failing position count = false)
    (hinside : count ≤ (fd.data.drop start).length)
    (hseen : (fd.data.drop start).take count = seen) (measure : Nat)
    {consumed input out : Bytes} {given position : Nat} {compRemaining : Int}
    (htaken : Taken (fd.data.drop start) start count consumed input compRemaining position)
    (hgiven : given ≤ (format.output consumed).length) (hout : out.length = given % bufSize)
    (hmeasure : count - consumed.length + ((format.output seen).length - given) < measure) :
    ∃ fuel chunks result, inflateLoop (Zlib.stepwise format) fd fuel (consumed, given) input out
        given compRemaining position = feed (-1) chunks result ∧
      (format.complete seen = true →
        given - given % bufSize + chunks.flatten.length = (format.output seen).length ∧
          result = .ok (wrap32 (format.output seen).length)) ∧
      (format.complete seen = false → given - given % bufSize + chunks.flatten.length =
        (format.output seen).length - (format.output seen).length % bufSize) := by
  induction measure generalizing consumed input out given position compRemaining with
  | zero => exact absurd hmeasure (Nat.not_lt_zero _)
  | succ measure ih =>
      obtain ⟨input', compRemaining', position', hfill, htaken', hlast⟩ :=
        fillInput_whole hfailing hinside htaken
      have hbuf := bufSize_eq
      have hmod : given % bufSize < bufSize := Nat.mod_lt _ (by omega)
      obtain ⟨room, hroom⟩ : ∃ room, room = bufSize - out.length := ⟨_, rfl⟩
      obtain ⟨output, houtput⟩ :
          ∃ output, stepOutput format consumed input' given room = output := ⟨_, rfl⟩
      have hfits : output.length ≤ room := houtput ▸ List.length_take_le _ _
      have hused := htaken'.use (stepUsed format consumed input' given)
      rw [← stepConsumed] at hused
      have hmore := @stepOutput_le format consumed input' given room hgiven
      rw [houtput] at hmore
      have hbegins : format.output (stepConsumed format consumed input' given) <+:
          format.output seen := by
        have hreadable := @output_begins format _ _ _ _ _ _ _ hused
        rwa [readable, if_pos hinside, hseen] at hreadable
      have hless := hbegins.length_le
      have hstep := fun fuel => @inflateLoop_filled (Zlib.stepwise format) fd fuel (consumed, given)
        input out input' given position position' compRemaining compRemaining'
        (stepReply format consumed input' given room) hfill (by rw [hroom]; rfl)
      simp only [afterInflate, stepReply, houtput] at hstep
      have hlength : (out ++ output).length = given % bufSize + output.length := by
        rw [List.length_append, hout]
      have hdivision := Nat.div_add_mod given bufSize
      rcases @stepZerr_cases format consumed input' given room with
        ⟨hzerr, hcomplete, hall⟩ | ⟨hzerr, hnot, hnone, hnil⟩ | ⟨hzerr, hprogress⟩
      · rw [houtput] at hall
        obtain ⟨more, hrest⟩ :=
          (List.prefix_append _ (input'.drop (stepUsed format consumed input' given))).trans
            hused.readable_begins
        rw [readable, if_pos hinside, hseen] at hrest
        obtain ⟨hwhole, hsame⟩ := format.complete_append _ more hcomplete
        rw [hrest] at hwhole hsame
        rw [← hsame] at hall
        simp only [hzerr, hall, reduceCtorEq, if_false, true_and] at hstep
        by_cases hempty : out ++ output = []
        · have hnot : (out ++ output).length ≠ bufSize := by
            rw [hempty, List.length_nil]
            omega
          refine ⟨1, [], .ok (wrap32 (format.output seen).length), ?_, fun _ => ⟨?_, rfl⟩, ?_⟩
          · rw [hstep, if_neg (not_or.mpr ⟨hnot, not_not.mpr hempty⟩)]
            rfl
          · rw [List.append_eq_nil_iff] at hempty
            rw [hempty.1, List.length_nil] at hout
            rw [hempty.2, List.length_nil] at hall
            simp only [List.flatten_nil, List.length_nil]
            omega
          · rw [hwhole]
            intro hnot
            cases hnot
        · refine ⟨1, [out ++ output], .ok (wrap32 (format.output seen).length), ?_,
            fun _ => ⟨?_, rfl⟩, ?_⟩
          · rw [hstep, if_pos (.inr hempty)]
            rfl
          · rw [List.flatten_cons, List.flatten_nil, List.append_nil, hlength]
            omega
          · rw [hwhole]
            intro hnot
            cases hnot
      · obtain ⟨hinput, hall⟩ := stepwise_stuck hgiven (by omega) hnone hnil
        have hconsumed := (hlast hinput).trans hseen
        have hsame : stepConsumed format consumed input' given = seen := by
          rw [stepConsumed, hnone, List.take_zero, List.append_nil, hconsumed]
        have hincomplete : format.complete seen = false := by
          rw [hsame, hnil, List.length_nil, hall, hconsumed] at hnot
          simpa using hnot
        refine ⟨1, [], .ok (-1), ?_, ?_, fun _ => ?_⟩
        · rw [hstep, if_pos hzerr]
          rfl
        · rw [hincomplete]
          intro hnot
          cases hnot
        · rw [hall, hconsumed]
          rfl
      · simp only [hzerr, reduceCtorEq, if_false, if_true, false_and, or_false] at hstep
        have hconsumed : (stepConsumed format consumed input' given).length =
            consumed.length + stepUsed format consumed input' given := by
          rw [stepConsumed, List.length_append, List.length_take_of_le]
          exact (stepwise_correct format).used_le (consumed, given) input' room
        have hcount := hused.le_count
        have hsmaller : count - (stepConsumed format consumed input' given).length +
            ((format.output seen).length - (given + output.length)) < measure := by
          have hpositive : 0 < stepUsed format consumed input' given ∨ 0 < output.length :=
            hprogress.imp_right (fun hne => List.length_pos_iff.mpr (houtput ▸ hne))
          omega
        by_cases hfull : (out ++ output).length = bufSize
        · have hgivenMod : (given + output.length) % bufSize = 0 := by
            rw [show given + output.length = bufSize * (given / bufSize + 1) by
              rw [Nat.mul_add]; omega]
            exact Nat.mul_mod_right _ _
          obtain ⟨fuel, chunks, result, hloop, hwhole, hpart⟩ :=
            @ih _ _ [] _ _ _ hused hmore hgivenMod.symm hsmaller
          rw [hgivenMod] at hwhole hpart
          refine ⟨fuel + 1, (out ++ output) :: chunks, result, ?_, ?_, ?_⟩
          · rw [hstep, if_pos hfull, hloop]
            rfl
          · intro hcomplete
            rw [List.flatten_cons, List.length_append, hfull]
            exact ⟨by have := (hwhole hcomplete).1; omega, (hwhole hcomplete).2⟩
          · intro hincomplete
            rw [List.flatten_cons, List.length_append, hfull]
            have := hpart hincomplete
            omega
        · have hgivenMod : (given + output.length) % bufSize = given % bufSize + output.length := by
            rw [show given + output.length =
              bufSize * (given / bufSize) + (given % bufSize + output.length) by omega,
              Nat.mul_add_mod, Nat.mod_eq_of_lt (by omega)]
          obtain ⟨fuel, chunks, result, hloop, hwhole, hpart⟩ :=
            ih hused hmore (hlength.trans hgivenMod.symm) hsmaller
          rw [hgivenMod] at hwhole hpart
          refine ⟨fuel + 1, chunks, result, ?_, ?_, ?_⟩
          · rw [hstep, if_neg hfull, hloop]
          · intro hcomplete
            exact ⟨by have := (hwhole hcomplete).1; omega, (hwhole hcomplete).2⟩
          · intro hincomplete
            have := hpart hincomplete
            omega

end Stepwise

/-! ## Exactly then -/

section Assembly

variable {format : Format} {data : Bytes} {entry : ZipEntry} {position : Nat}

/-- Entries with another method give nothing. -/
theorem mzProcessZipEntryContents_other
    {zlib : Zlib} {fuel : Nat} {fd : ArchiveFd} (hstored : entry.compression ≠ storedMethod)
    (hdeflated : entry.compression ≠ deflatedMethod) :
    mzProcessZipEntryContents zlib fuel fd entry position = feed false [] (.ok false) := by
  rw [mzProcessZipEntryContents, if_neg hstored, if_neg hdeflated]
  rfl

theorem extractsExactly_of_fits
    (hrange : entry.InRange)
    (hfits : 0 ≤ entry.uncompLen → ExtractionFits format data entry position) :
    ExtractsExactly format data entry position := by
  intro zlib hcorrect failing fuel buffer hbuffer
  obtain ⟨hstoredFits, hinflatedFits⟩ := hfits (by omega)
  by_cases hstored : entry.compression = storedMethod
  · exact @StoredFits.filled format ⟨data, failing⟩ entry position zlib fuel hstored hrange
      (hstoredFits hstored) buffer hbuffer
  by_cases hdeflated : entry.compression = deflatedMethod
  · exact @InflatedFits.filled format ⟨data, failing⟩ entry position zlib fuel hcorrect hdeflated
      hrange (hinflatedFits hdeflated) buffer hbuffer
  · have hprogram := @mzProcessZipEntryContents_other entry position zlib fuel ⟨data, failing⟩
      hstored hdeflated
    exact filled_of_feed hrange hbuffer hprogram (by simp; omega) nofun nofun

/-- Chunks that are too long for the buffer are written behind it. -/
theorem Filled.flatten_le
    {zlib : Zlib} {fuel : Nat} {fd : ArchiveFd} {refused : Bool} {chunks : List Bytes}
    {result : Except Stuck Bool} {buffer : Bytes} (hrange : entry.InRange)
    (hprogram : mzProcessZipEntryContents zlib fuel fd entry position = feed refused chunks result)
    (hfilled : Filled format data entry
      (mzExtractZipEntryToBuffer zlib fuel fd entry position buffer)) :
    chunks.flatten.length ≤ buffer.length ∧ result ≠ .error .outOfBounds := by
  have hinside := hfilled.1
  rw [extract_feed hrange hprogram] at hinside
  by_cases hle : chunks.flatten.length ≤ buffer.length
  · rw [if_pos hle] at hinside
    refine ⟨hle, ?_⟩
    rintro rfl
    exact hinside rfl
  · rw [if_neg hle] at hinside
    exact absurd rfl hinside

/-- No read fails, and the buffer is full of zeros. -/
theorem ExtractsExactly.zeros
    (hexact : ExtractsExactly format data entry position) (huncomp : 0 ≤ entry.uncompLen)
    (fuel : Nat) :
    let fd : ArchiveFd := ⟨data, fun _ _ => false⟩
    let buffer := List.replicate entry.uncompLen.toNat 0
    (buffer.length : Int) = entry.uncompLen ∧
      Filled format data entry
        (mzExtractZipEntryToBuffer (Zlib.stepwise format) fuel fd entry position buffer) ∧
      Filled format data entry
        (mzReadZipEntry (Zlib.stepwise format) fuel fd entry position buffer entry.uncompLen) := by
  intro fd buffer
  have hbuffer : (buffer.length : Int) = entry.uncompLen := by
    rw [List.length_replicate]
    omega
  exact ⟨hbuffer, hexact _ (stepwise_correct format) _ fuel buffer hbuffer⟩

theorem ExtractsExactly.storedFits
    (hexact : ExtractsExactly format data entry position) (hrange : entry.InRange)
    (huncomp : 0 ≤ entry.uncompLen) (hstored : entry.compression = storedMethod) :
    StoredFits data entry position := by
  obtain ⟨hbuffer, hextracts, hreads⟩ := hexact.zeros huncomp 0
  obtain ⟨chunks, whole, hprogram, hchunks⟩ := stored_feeds (Zlib.stepwise format) 0
    ⟨data, fun _ _ => false⟩ position hstored
  obtain ⟨hflatten, hwhole⟩ := hchunks.flatten_eq fun _ _ => rfl
  have hle := (hextracts.flatten_le hrange hprogram).1
  rw [StoredFits]
  split
  next hinside =>
    obtain rfl := hwhole hinside
    have htake := (hchunks.flatten_whole rfl).2
    have hread := read_feed_whole hbuffer hprogram hle
    obtain ⟨hlength, hcontents⟩ := hreads.2 _ hread
    rw [Contents, if_neg (by rw [hstored]; decide)] at hcontents
    have hannounced : (entry.announced data).length ≤ (entry.compLen % 2 ^ 32).toNat :=
      List.length_take_le _ _
    rw [← hcontents, List.length_append, htake, List.length_take_of_le hinside] at hannounced
    have hcount : ((entry.compLen % 2 ^ 32).toNat : Int) = entry.uncompLen := by
      rw [htake, List.length_take_of_le hinside] at hle
      rw [List.length_append, htake, List.length_take_of_le hinside] at hlength
      omega
    refine ⟨hcount, ?_⟩
    have hnone : (List.replicate entry.uncompLen.toNat (0 : UInt8)).drop
        (entry.compLen % 2 ^ 32).toNat = [] := by
      rw [List.drop_eq_nil_iff]
      omega
    rw [← hcontents, htake, List.length_take_of_le hinside, hnone, List.append_nil]
  next =>
    rw [← hflatten]
    omega

/-- The data of an entry that are in the file. -/
theorem announced_eq
    (hrange : entry.InRange) (hoffset : 0 ≤ entry.offset) {count : Nat}
    (hcount : entry.compLen = count) :
    entry.announced data = (data.drop (entry.seek position)).take count := by
  have hoffsets := wrap32_range entry.offset
  have hlengths := wrap32_range entry.compLen
  rw [hrange.offset_eq] at hoffsets
  rw [hrange.compLen_eq] at hlengths
  rw [ZipEntry.announced, ZipEntry.seek, if_pos hoffset,
    Int.emod_eq_of_lt hoffset (by omega), Int.emod_eq_of_lt (by omega) (by omega), hcount,
    Int.toNat_natCast]

theorem ExtractsExactly.inflatedFits
    (hexact : ExtractsExactly format data entry position) (hrange : entry.InRange)
    (huncomp : 0 ≤ entry.uncompLen) (hdeflated : entry.compression = deflatedMethod)
    (hoffset : 0 ≤ entry.offset)
    (hinside : 0 ≤ entry.compLen → entry.offset + entry.compLen ≤ data.length) :
    InflatedFits format data entry position := by
  rw [InflatedFits]
  split
  next hnegative =>
    intro hone
    obtain ⟨hbuffer, hextracts, -⟩ := hexact.zeros huncomp 1
    have hprogram := @mzProcessZipEntryContents_deflated ⟨data, fun _ _ => false⟩ entry position
      (Zlib.stepwise format) 1 hdeflated
    have hloop := @inflateLoop_negative ⟨data, fun _ _ => false⟩ entry (entry.seek position)
      (Zlib.stepwise format) 0 ([], 0) hnegative
    rw [if_pos hone] at hloop
    rw [processDeflatedEntry_feeds rfl hloop] at hprogram
    exact (hextracts.flatten_le hrange hprogram).2 rfl
  next hnonneg =>
    obtain ⟨count, hcount⟩ := Int.eq_ofNat_of_zero_le (not_lt.mp hnonneg)
    have hannounced := @announced_eq data entry position hrange hoffset count hcount
    have hle : count ≤ (data.drop (entry.seek position)).length := by
      rw [ZipEntry.seek, if_pos hoffset, List.length_drop]
      omega
    have hseen : readable (data.drop (entry.seek position)) entry.compLen.toNat =
        entry.announced data := by
      rw [hcount, Int.toNat_natCast, readable, if_pos hle, hannounced]
    obtain ⟨fuel, chunks, result, hloop, hwhole, hpart⟩ := @stepwise_feeds format
      ⟨data, fun _ _ => false⟩ (entry.seek position) count _ (fun _ _ => rfl) hle hannounced.symm _
      [] [] [] 0 _ _ (taken_start _ _ _) (Nat.zero_le _) (Nat.zero_mod _).symm (Nat.lt_succ_self _)
    have hprogram := @mzProcessZipEntryContents_deflated ⟨data, fun _ _ => false⟩ entry position
      (Zlib.stepwise format) fuel hdeflated
    rw [← hcount] at hloop
    rw [processDeflatedEntry_feeds rfl hloop] at hprogram
    obtain ⟨hbuffer, hextracts, -⟩ := hexact.zeros huncomp fuel
    have hfits := (hextracts.flatten_le hrange hprogram).1
    rw [Nat.zero_mod, Nat.sub_zero, Nat.zero_add] at hwhole hpart
    simp only [hseen]
    split
    next hcomplete =>
      obtain ⟨hlength, -⟩ := hwhole hcomplete
      refine ⟨by omega, fun _ => ?_⟩
      rw [Contents, if_pos hdeflated]
      exact ⟨hcomplete, rfl⟩
    next hpartial =>
      have hlength := hpart (Bool.eq_false_of_not_eq_true hpartial)
      omega

end Assembly

/-! ## Entries of an archive -/

section Accepted

variable {map : MemMapping}

theorem entryAt_inRange (record : Nat) : (entryAt map record).InRange where
  offset_eq := wrap32_wrap32 _
  compLen_eq := wrap32_wrap32 _
  uncompLen_eq := wrap32_wrap32 _

/-- The parser has added the two fields when it looked for the end of the data. -/
theorem Passes.data_le {record : Nat} (hpasses : Passes map record)
    (hoffset : 0 ≤ (entryAt map record).offset) (hcompLen : 0 ≤ (entryAt map record).compLen) :
    (entryAt map record).offset + (entryAt map record).compLen ≤ map.data.length := by
  obtain ⟨-, -, -, -, ⟨-, hhigh⟩, hend⟩ := hpasses
  change 0 ≤ dataOffset map (localAt map record) at hoffset
  change 0 ≤ compLenAt map record at hcompLen
  change dataOffset map (localAt map record) + compLenAt map record ≤ map.length
  rwa [Int.emod_eq_of_lt (by omega) (by omega)] at hend

/-- When the data are in the file, the lengths fit if a stored entry has the length of its
data, and the data of a deflated one do not give more than its length. -/
theorem ZipEntry.InBounds.extractionFits_iff
    {format : Format} {entry : ZipEntry} (hbounds : entry.InBounds map) (hrange : entry.InRange)
    (position : Nat) :
    ExtractionFits format map.data entry position ↔
      (entry.compression = storedMethod → entry.compLen = entry.uncompLen) ∧
        (entry.compression = deflatedMethod →
          let length := (format.output (entry.announced map.data)).length
          if format.complete (entry.announced map.data) = true then
            (length : Int) ≤ entry.uncompLen
          else ((length - length % bufSize : Nat) : Int) ≤ entry.uncompLen) := by
  obtain ⟨hoffset, hcompLen, hend, -⟩ := hbounds
  obtain ⟨count, hcount⟩ := Int.eq_ofNat_of_zero_le hcompLen
  have hlengths := wrap32_range entry.compLen
  rw [hrange.compLen_eq] at hlengths
  have hmod : (entry.compLen % 2 ^ 32).toNat = count := by
    rw [Int.emod_eq_of_lt hcompLen (by omega), hcount, Int.toNat_natCast]
  have hle : count ≤ (map.data.drop (entry.seek position)).length := by
    change entry.offset + entry.compLen ≤ (map.data.length : Nat) at hend
    rw [ZipEntry.seek, if_pos hoffset, List.length_drop]
    omega
  have hannounced := @announced_eq map.data entry position hrange hoffset count hcount
  have hseen : readable (map.data.drop (entry.seek position)) entry.compLen.toNat =
      entry.announced map.data := by
    rw [hcount, Int.toNat_natCast, readable, if_pos hle, hannounced]
  refine and_congr (imp_congr_right fun hstored => ?_) (imp_congr_right fun hdeflated => ?_)
  · rw [StoredFits]
    simp only [hmod]
    rw [if_pos hle, hannounced, hcount]
    exact and_iff_left rfl
  · rw [InflatedFits, if_neg (by omega)]
    simp only [hseen]
    split
    next hcomplete =>
      refine and_iff_left fun _ => ?_
      rw [Contents, if_pos hdeflated]
      exact ⟨hcomplete, rfl⟩
    next => rfl

/-- Extraction of an entry to memory is exact if the lengths of the entry fit its data;
and only then, but for a deflated entry that has no place in the file. -/
theorem extraction_exact
    {alloc : Nat → Bool} {archive : ZipArchive} (hparse : parseZipArchive map alloc = .ok archive)
    (format : Format) {entry : ZipEntry} (hentry : entry ∈ archive.pEntries) (position : Nat) :
    ((0 ≤ entry.uncompLen → ExtractionFits format map.data entry position) →
      ExtractsExactly format map.data entry position) ∧
    ((entry.compression = deflatedMethod → 0 ≤ entry.offset) →
      (ExtractsExactly format map.data entry position ↔
        (0 ≤ entry.uncompLen → ExtractionFits format map.data entry position))) := by
  obtain ⟨offset, -, -, hpasses, hfaithful⟩ := parseZipArchive_accepts hparse
  obtain ⟨record, hrecord, rfl⟩ := List.mem_map.mp (hfaithful.perm.mem_iff.mp hentry)
  have hrange : (entryAt map record).InRange := entryAt_inRange record
  have hsufficient := @extractsExactly_of_fits format map.data _ position hrange
  refine ⟨hsufficient, fun hoffset => ⟨fun hexact huncomp => ⟨fun hstored => ?_, fun hdeflated => ?_⟩,
    hsufficient⟩⟩
  · exact hexact.storedFits hrange huncomp hstored
  · exact hexact.inflatedFits hrange huncomp hdeflated (hoffset hdeflated)
      ((hpasses record hrecord).data_le (hoffset hdeflated))

/-- Streams of one block that is not compressed. -/
def blockOutput : Bytes → Bytes
  | first :: low :: high :: lowNot :: highNot :: rest =>
      if first = 1 ∧ leNat [low, high] + leNat [lowNot, highNot] = 2 ^ 16 - 1 then
        rest.take (leNat [low, high])
      else []
  | _ => []

def blockComplete : Bytes → Bool
  | first :: low :: high :: lowNot :: highNot :: rest =>
      first = 1 ∧ leNat [low, high] + leNat [lowNot, highNot] = 2 ^ 16 - 1 ∧
        leNat [low, high] ≤ rest.length
  | _ => false

def oneBlock : Format where
  output := blockOutput
  complete := blockComplete
  output_nil := rfl
  output_append := by
    intro data more
    match data with
    | [] | [_] | [_, _] | [_, _, _] | [_, _, _, _] => exact List.nil_prefix
    | first :: low :: high :: lowNot :: highNot :: rest =>
        simp only [List.cons_append, blockOutput]
        split
        next => exact (List.prefix_append rest more).take _
        next => exact List.nil_prefix
  complete_append := by
    intro data more hcomplete
    match data with
    | first :: low :: high :: lowNot :: highNot :: rest =>
        obtain ⟨hfirst, hcheck, hlength⟩ := of_decide_eq_true hcomplete
        simp only [List.cons_append, blockOutput, blockComplete, List.length_append]
        rw [if_pos ⟨hfirst, hcheck⟩, if_pos ⟨hfirst, hcheck⟩, List.take_append_of_le_length hlength]
        exact ⟨decide_eq_true ⟨hfirst, hcheck, by omega⟩, rfl⟩

/-- An archive with one file that has some data, and a length that is recorded for it. -/
def oneEntry (compression uncompLen : UInt8) (contents : Bytes) (hlength : contents.length < 200) :
    MemMapping where
  addr := 0x40000000
  data := emptyLocal [97] ++ contents ++ ([0x50, 0x4b, 1, 2] ++ List.replicate 6 0 ++
    [compression] ++ List.replicate 9 0 ++ [contents.length.toUInt8, 0, 0, 0] ++
    [uncompLen, 0, 0, 0, 1, 0] ++ List.replicate 16 0 ++ [97]) ++
    [0x50, 0x4b, 5, 6, 0, 0, 0, 0, 1, 0, 1, 0, 47, 0, 0, 0, (31 + contents.length).toUInt8,
      0, 0, 0, 0, 0]
  page_le := sampleAddress_page
  stop_lt := by
    simp [emptyLocal]
    omega

theorem exists_entry
    {alloc : Nat → Bool} {entry : ZipEntry}
    (hhead : ((parseZipArchive map alloc).toOption.bind fun archive => archive.pEntries.head?) =
      some entry) :
    ∃ archive, parseZipArchive map alloc = .ok archive ∧ entry ∈ archive.pEntries := by
  cases hparse : parseZipArchive map alloc with
  | error exit =>
      rw [hparse] at hhead
      cases hhead
  | ok archive =>
      rw [hparse] at hhead
      exact ⟨archive, rfl, List.mem_of_mem_head? hhead⟩

/-- The entry of a block of three bytes. -/
theorem extraction_exact_block :
    ∃ archive entry, parseZipArchive (oneEntry 8 3 [1, 3, 0, 252, 255, 120, 121, 122] (by decide))
        (fun _ => true) = .ok archive ∧ entry ∈ archive.pEntries ∧
      entry.compression = deflatedMethod ∧ entry.uncompLen = 3 ∧
      ExtractsExactly oneBlock
        (oneEntry 8 3 [1, 3, 0, 252, 255, 120, 121, 122] (by decide)).data entry 0 := by
  obtain ⟨archive, hparse, hentry⟩ := @exists_entry
    (oneEntry 8 3 [1, 3, 0, 252, 255, 120, 121, 122] (by decide)) (fun _ => true)
    ⟨1, 0x40000000 + 85, 31, 8, 3, 8, 0, 0, 0, 0⟩ (by with_unfolding_all decide)
  refine ⟨archive, _, hparse, hentry, rfl, rfl,
    (extraction_exact hparse oneBlock hentry 0).1 fun _ => ?_⟩
  refine (ZipEntry.InBounds.extractionFits_iff ⟨?_, ?_, ?_, ?_, ?_⟩ ⟨?_, ?_, ?_⟩ 0).mpr ⟨?_, ?_⟩
  all_goals with_unfolding_all decide

/-- A stored entry with more data than its length is written over the end of the buffer,
and one with less data is read as if it were whole. -/
theorem extraction_trusts_lengths :
    (∃ archive entry, parseZipArchive (oneEntry 0 2 [120, 121, 122] (by decide))
        (fun _ => true) = .ok archive ∧ entry ∈ archive.pEntries ∧ entry.uncompLen = 2 ∧
      mzExtractZipEntryToBuffer (Zlib.stepwise oneBlock) 0
        ⟨(oneEntry 0 2 [120, 121, 122] (by decide)).data, fun _ _ => false⟩ entry 0 [0, 0] =
          .error .outOfBounds) ∧
    (∃ archive entry, parseZipArchive (oneEntry 0 4 [120, 121, 122] (by decide))
        (fun _ => true) = .ok archive ∧ entry ∈ archive.pEntries ∧ entry.uncompLen = 4 ∧
      mzReadZipEntry (Zlib.stepwise oneBlock) 0
        ⟨(oneEntry 0 4 [120, 121, 122] (by decide)).data, fun _ _ => false⟩ entry 0 [0, 0, 0, 0] 4 =
          .ok (true, [120, 121, 122, 0])) ∧
    ¬∀ (map : MemMapping) (alloc : Nat → Bool) (archive : ZipArchive),
      parseZipArchive map alloc = .ok archive →
        ∀ entry ∈ archive.pEntries, ∀ position, ExtractsExactly oneBlock map.data entry position := by
  obtain ⟨archive, hparse, hentry⟩ := @exists_entry (oneEntry 0 2 [120, 121, 122] (by decide))
    (fun _ => true) ⟨1, 0x40000000 + 80, 31, 3, 2, 0, 0, 0, 0, 0⟩ (by with_unfolding_all decide)
  obtain ⟨other, hparseOther, hentryOther⟩ := @exists_entry
    (oneEntry 0 4 [120, 121, 122] (by decide)) (fun _ => true)
    ⟨1, 0x40000000 + 80, 31, 3, 4, 0, 0, 0, 0, 0⟩ (by with_unfolding_all decide)
  have hstored : mzExtractZipEntryToBuffer (Zlib.stepwise oneBlock) 0
      ⟨(oneEntry 0 2 [120, 121, 122] (by decide)).data, fun _ _ => false⟩
      ⟨1, 0x40000000 + 80, 31, 3, 2, 0, 0, 0, 0, 0⟩ 0 [0, 0] = .error .outOfBounds := by
    with_unfolding_all decide
  refine ⟨⟨archive, _, hparse, hentry, rfl, hstored⟩,
    ⟨other, _, hparseOther, hentryOther, rfl, by with_unfolding_all decide⟩, fun hexact => ?_⟩
  exact ((hexact _ _ archive hparse _ hentry 0 _ (stepwise_correct oneBlock) _ 0 [0, 0]
    rfl).1).1 hstored

end Accepted

end OpenRecovery.Minzip
