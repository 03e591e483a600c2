import OpenRecovery.BsPatch
import OpenRecovery.Deflate
import OpenRecovery.Effects
import OpenRecovery.ZipBounds
import Mathlib

/-!
# The contents of an entry, `mzProcessZipEntryContents` of `minzip/Zip.c`

The data of an entry are read from the file in pieces of 32 KiB and passed on to a
function, which is here the answer to the requests of a program.  Messages are left
out.
-/

namespace OpenRecovery.Minzip

open Deflate Effects Words

/-- The file of an archive, and which reads of it fail. -/
structure ArchiveFd where
  data : Bytes
  failing : (position count : Nat) → Bool

/-- `read` at a position: the value that is returned and the bytes that are read.  A
count that a `ssize_t` does not hold is refused. -/
def ArchiveFd.read (fd : ArchiveFd) (position : Nat) (count : Int) : Int × Bytes :=
  if count < 0 ∨ fd.failing position count.toNat = true then (-1, [])
  else
    let buf := (fd.data.drop position).take count.toNat
    (buf.length, buf)

/-- A program that passes on data with each request; the reply is what
`processFunction` returns. -/
abbrev ContentsProg (α : Type) := ExceptT Stuck (Prog Bytes fun _ => Bool) α

def processFunction (data : Bytes) : ContentsProg Bool :=
  ExceptT.lift (Prog.ask data)

/-- The size of the buffers. -/
@[irreducible] def bufSize : Nat := 32 * 1024

theorem bufSize_eq : bufSize = 32 * 1024 := by
  unfold bufSize
  rfl

/-- The loop of `processStoredEntry`. -/
def storedLoop (fd : ArchiveFd) : (fuel bytesLeft position : Nat) → ContentsProg Bool
  | 0, _, _ => pure true
  | fuel + 1, bytesLeft, position =>
      if bytesLeft = 0 then pure true
      else
        let count := min bytesLeft bufSize
        let (n, buf) := fd.read position count
        if n ≠ count then pure false
        else do
          if ← processFunction buf then storedLoop fd fuel (bytesLeft - count) (position + count)
          else pure false

/-- `processStoredEntry`; the compressed length becomes an unsigned number. -/
def processStoredEntry (fd : ArchiveFd) (entry : ZipEntry) (position : Nat) : ContentsProg Bool :=
  let bytesLeft := (entry.compLen % 2 ^ 32).toNat
  storedLoop fd bytesLeft bytesLeft position

/-- Read as much as we can when the input is used up, unless that fails.  The
decompressor is never given more input than was read. -/
def fillInput (fd : ArchiveFd) (input : Bytes) (compRemaining : Int) (position : Nat) :
    Except Stuck (Option (Bytes × Int × Nat)) :=
  if input ≠ [] then .ok (some (input, compRemaining, position))
  else
    let getSize := if bufSize < compRemaining then (bufSize : Int) else compRemaining
    let (cc, readBuf) := fd.read position getSize
    if cc ≠ getSize then .ok none
    else if getSize < 0 then .error .outOfBounds
    else .ok (some (readBuf, compRemaining - getSize, position + getSize.toNat))

/-- The loop of `processDeflatedEntry`, with the input and the output that are in
the two buffers.  It gives `total_out`, or -1. -/
def inflateLoop (zlib : Zlib) (fd : ArchiveFd) :
    (fuel : Nat) → zlib.State → (input out : Bytes) → (totalOut : Nat) → (compRemaining : Int) →
      (position : Nat) → ContentsProg Int
  | 0, _, _, _, _, _, _ => throw .hang
  | fuel + 1, stream, input, out, totalOut, compRemaining, position => do
      match ← ExceptT.mk (pure (fillInput fd input compRemaining position)) with
      | none => pure (-1)
      | some (input, compRemaining, position) =>
          let reply := zlib.inflate stream input (bufSize - out.length)
          let procBuf := out ++ reply.output
          let totalOut := totalOut + reply.output.length
          let rest := fun out =>
            if reply.zerr = .ok then
              inflateLoop zlib fd fuel reply.state (input.drop reply.used) out totalOut
                compRemaining position
            else pure (wrap32 totalOut)
          if reply.zerr = .error then pure (-1)
          else if procBuf.length = bufSize ∨ reply.zerr = .streamEnd ∧ procBuf ≠ [] then do
            if ← processFunction procBuf then rest [] else pure (-1)
          else rest procBuf

/-- `processDeflatedEntry`. -/
def processDeflatedEntry (zlib : Zlib) (fuel : Nat) (fd : ArchiveFd) (entry : ZipEntry)
    (position : Nat) : ContentsProg Bool := do
  let result ←
    match zlib.init with
    | none => pure (-1)
    | some stream => inflateLoop zlib fd fuel stream [] [] 0 entry.compLen position
  pure (result = entry.uncompLen)

def storedMethod : Nat := 0

def deflatedMethod : Nat := 8

/-- Where the data of an entry are read: `lseek` does not go to a negative offset. -/
def ZipEntry.seek (entry : ZipEntry) (position : Nat) : Nat :=
  if 0 ≤ entry.offset then entry.offset.toNat else position

/-- `mzProcessZipEntryContents`, for a file that stands at a position. -/
def mzProcessZipEntryContents (zlib : Zlib) (fuel : Nat) (fd : ArchiveFd) (entry : ZipEntry)
    (position : Nat) : ContentsProg Bool :=
  if entry.compression = storedMethod then processStoredEntry fd entry (entry.seek position)
  else if entry.compression = deflatedMethod then
    processDeflatedEntry zlib fuel fd entry (entry.seek position)
  else pure false

/-! ## Chunks -/

/-- Pass on some chunks and return a result; a function that refuses a chunk makes
the program return at once. -/
def feed {α : Type} (refused : α) : List Bytes → Except Stuck α → ContentsProg α
  | [], result => ExceptT.mk (pure result)
  | chunk :: chunks, result => do
      if ← processFunction chunk then feed refused chunks result else pure refused

theorem feed_map {α β : Type} (f : α → β) (refused : α) (chunks : List Bytes)
    (result : Except Stuck α) :
    (do let value ← feed refused chunks result; pure (f value)) =
      feed (f refused) chunks (result.map f) := by
  induction chunks with
  | nil =>
      cases result with
      | error error => rfl
      | ok value => rfl
  | cons chunk chunks ih =>
      rw [feed, feed, bind_assoc]
      congr 1
      funext accepted
      cases accepted with
      | false => rfl
      | true => exact ih

/-- What can be read of so many bytes: in the end whole buffers only, if there are
not that many. -/
def readable (source : Bytes) (count : Nat) : Bytes :=
  if count ≤ source.length then source.take count
  else source.take (source.length - source.length % bufSize)

theorem readable_zero (source : Bytes) : readable source 0 = [] := by
  rw [readable, if_pos (Nat.zero_le _), List.take_zero]

theorem readable_split
    {source : Bytes} {count : Nat} (hlength : min count bufSize ≤ source.length) :
    readable source count = source.take (min count bufSize) ++
      readable (source.drop (min count bufSize)) (count - min count bufSize) := by
  rw [readable, readable, List.length_drop]
  by_cases hle : count ≤ source.length
  · rw [if_pos hle, if_pos (by omega), ← List.take_add]
    congr 1
    omega
  · have hmin : min count bufSize = bufSize := by omega
    rw [hmin] at hlength ⊢
    have hmod : (source.length - bufSize) % bufSize = source.length % bufSize :=
      (Nat.mod_eq_sub_mod hlength).symm
    have hless : source.length % bufSize ≤ source.length - bufSize := by
      rw [← hmod]
      exact Nat.mod_le _ _
    rw [if_neg hle, if_neg (by omega), hmod, ← List.take_add]
    congr 1
    omega

theorem readable_short
    {source : Bytes} {count : Nat} (hshort : source.length < min count bufSize) :
    readable source count = [] := by
  rw [readable, if_neg (by omega), Nat.mod_eq_of_lt (by omega), Nat.sub_self, List.take_zero]

theorem readable_begins (source : Bytes) (count : Nat) :
    readable source count <+: source.take count := by
  rw [readable]
  split
  · exact List.prefix_refl _
  · rename_i hle
    rw [List.take_of_length_le (Nat.le_of_not_le hle)]
    exact List.take_prefix _ _

/-- A read that gives as many bytes as it was asked for. -/
theorem ArchiveFd.read_eq
    {fd : ArchiveFd} {position count : Nat} (hread : (fd.read position count).1 = count) :
    (fd.read position count).2 = (fd.data.drop position).take count ∧
      count ≤ (fd.data.drop position).length := by
  rw [read] at hread ⊢
  split at hread
  next => exact absurd hread (by omega)
  next hfine =>
    rw [if_neg hfine]
    simp only [Int.toNat_natCast, List.length_take] at hread ⊢
    exact ⟨trivial, by omega⟩

theorem ArchiveFd.read_short
    {fd : ArchiveFd} {position count : Nat} (hfailing : ∀ position count,
      fd.failing position count = false) (hread : (fd.read position count).1 ≠ count) :
    (fd.data.drop position).length < count := by
  rw [read, hfailing] at hread
  simp only [Bool.false_eq_true, or_false, Int.toNat_natCast, List.length_take] at hread
  rw [if_neg (by omega)] at hread
  simp only at hread
  omega

/-- What the chunks of a stored entry are. -/
structure StoredChunks (fd : ArchiveFd) (position bytesLeft : Nat) (chunks : List Bytes)
    (whole : Bool) : Prop where
  flatten_begins : chunks.flatten <+: readable (fd.data.drop position) bytesLeft
  flatten_whole : whole = true → bytesLeft ≤ (fd.data.drop position).length ∧
    chunks.flatten = (fd.data.drop position).take bytesLeft
  flatten_eq : (∀ position count, fd.failing position count = false) →
    chunks.flatten = readable (fd.data.drop position) bytesLeft ∧
      (bytesLeft ≤ (fd.data.drop position).length → whole = true)
  nonempty : ∀ chunk ∈ chunks, chunk ≠ []

theorem storedLoop_feeds
    (fd : ArchiveFd) {fuel bytesLeft : Nat} (position : Nat) (hfuel : bytesLeft ≤ fuel) :
    ∃ chunks whole, storedLoop fd fuel bytesLeft position = feed false chunks (.ok whole) ∧
      StoredChunks fd position bytesLeft chunks whole := by
  have hzero : ∀ position, StoredChunks fd position 0 [] true := by
    intro position
    refine ⟨List.nil_prefix, fun _ => ⟨Nat.zero_le _, rfl⟩, fun _ => ⟨?_, fun _ => rfl⟩, nofun⟩
    rw [readable_zero]
    rfl
  induction fuel generalizing bytesLeft position with
  | zero =>
      obtain rfl := Nat.le_zero.mp hfuel
      exact ⟨[], true, rfl, hzero position⟩
  | succ fuel ih =>
      rw [storedLoop]
      by_cases hleft : bytesLeft = 0
      · rw [if_pos hleft, hleft]
        exact ⟨[], true, rfl, hzero position⟩
      rw [if_neg hleft]
      obtain ⟨count, hcount⟩ : ∃ count, count = min bytesLeft bufSize := ⟨_, rfl⟩
      have hpos : 0 < count := by
        have hbuf := bufSize_eq
        omega
      simp only [← hcount]
      by_cases hread : (fd.read position count).1 = count
      · obtain ⟨hbuf, hlength⟩ := fd.read_eq hread
        obtain ⟨chunks, whole, hloop, hchunks⟩ := @ih (bytesLeft - count)
          (position + count) (by omega)
        have hdrop : fd.data.drop (position + count) = (fd.data.drop position).drop count := by
          rw [List.drop_drop]
        refine ⟨(fd.read position count).2 :: chunks, whole, ?_, ?_⟩
        · rw [if_neg (by simp [hread]), feed, hloop]
        · rw [hbuf]
          have hsplit := @readable_split (fd.data.drop position) bytesLeft (hcount ▸ hlength)
          rw [← hcount, ← hdrop] at hsplit
          constructor
          · rw [List.flatten_cons, hsplit]
            exact (List.prefix_append_right_inj _).mpr hchunks.flatten_begins
          · intro hwhole
            obtain ⟨hle, hflatten⟩ := hchunks.flatten_whole hwhole
            rw [hdrop, List.length_drop] at hle
            refine ⟨by omega, ?_⟩
            rw [List.flatten_cons, hflatten, hdrop, ← List.take_add]
            congr 1
            omega
          · intro hfailing
            obtain ⟨hflatten, hwhole⟩ := hchunks.flatten_eq hfailing
            rw [List.flatten_cons, hflatten, hsplit]
            refine ⟨rfl, fun hle => hwhole ?_⟩
            rw [hdrop, List.length_drop]
            omega
          · intro chunk hchunk
            rcases List.mem_cons.mp hchunk with rfl | hchunk
            · apply List.ne_nil_of_length_pos
              rw [List.length_take]
              omega
            · exact hchunks.nonempty chunk hchunk
      · rw [if_pos hread]
        refine ⟨[], false, rfl, List.nil_prefix, nofun, ?_, nofun⟩
        intro hfailing
        have hshort := ArchiveFd.read_short hfailing hread
        rw [readable_short (hcount ▸ hshort)]
        exact ⟨rfl, fun hle => by omega⟩

/-- So many whole buffers. -/
theorem le_sub_mod {part whole : Nat} (hle : part ≤ whole) (hmod : part % bufSize = 0) :
    part ≤ whole - whole % bufSize := by
  have hdiv := Nat.mul_le_mul_left bufSize (@Nat.div_le_div_right _ _ bufSize hle)
  have hpart := Nat.div_add_mod part bufSize
  have hwhole := Nat.div_add_mod whole bufSize
  omega

/-- What has been read of the data, of which some is still in the input buffer. -/
structure Taken (source : Bytes) (start count : Nat) (consumed input : Bytes)
    (compRemaining : Int) (position : Nat) : Prop where
  source_begins : consumed ++ input <+: source
  le_count : consumed.length + input.length ≤ count
  boundary : consumed.length + input.length = count ∨
    (consumed.length + input.length) % bufSize = 0
  compRemaining_eq : compRemaining = (count : Int) - (consumed.length + input.length : Nat)
  position_eq : position = start + (consumed.length + input.length)

theorem taken_start (source : Bytes) (start count : Nat) :
    Taken source start count [] [] count start where
  source_begins := List.nil_prefix
  le_count := Nat.zero_le _
  boundary := .inr (Nat.zero_mod _)
  compRemaining_eq := by simp
  position_eq := rfl

namespace Taken

variable {source consumed input : Bytes} {start count position : Nat} {compRemaining : Int}

theorem readable_begins (htaken : Taken source start count consumed input compRemaining position) :
    consumed ++ input <+: readable source count := by
  have hlength := htaken.source_begins.length_le
  have hcount := htaken.le_count
  have hboundary := htaken.boundary
  rw [List.length_append] at hlength
  have htake : consumed ++ input = source.take (consumed.length + input.length) := by
    have htake := List.prefix_iff_eq_take.mp htaken.source_begins
    rwa [List.length_append] at htake
  rw [htake, readable]
  split
  next => exact List.take_prefix_take_left hcount
  next hlong =>
    refine List.take_prefix_take_left ?_
    have hmod : (consumed.length + input.length) % bufSize = 0 :=
      hboundary.resolve_left (by omega)
    exact le_sub_mod hlength hmod

/-- Input that is used is still taken. -/
theorem use
    (htaken : Taken source start count consumed input compRemaining position) (used : Nat) :
    Taken source start count (consumed ++ input.take used) (input.drop used) compRemaining
      position := by
  have hlength : (consumed ++ input.take used).length + (input.drop used).length =
      consumed.length + input.length := by
    rw [← List.length_append, List.append_assoc, List.take_append_drop, List.length_append]
  constructor
  · rw [List.append_assoc, List.take_append_drop]
    exact htaken.source_begins
  · rw [hlength]
    exact htaken.le_count
  · rw [hlength]
    exact htaken.boundary
  · rw [hlength]
    exact htaken.compRemaining_eq
  · rw [hlength]
    exact htaken.position_eq

end Taken

/-- The size of the next read. -/
theorem getSize_eq (compRemaining : Nat) :
    (if (bufSize : Int) < compRemaining then (bufSize : Int) else compRemaining) =
      (min compRemaining bufSize : Nat) := by
  split <;> omega

theorem fillInput_empty (fd : ArchiveFd) (compRemaining position : Nat) :
    fillInput fd [] compRemaining position =
      if (fd.read position (min compRemaining bufSize : Nat)).1 =
          (min compRemaining bufSize : Nat) then
        .ok (some ((fd.read position (min compRemaining bufSize : Nat)).2,
          (compRemaining - min compRemaining bufSize : Nat),
          position + min compRemaining bufSize))
      else .ok none := by
  rw [fillInput, if_neg (by simp)]
  simp only [getSize_eq, ne_eq, ite_not]
  split
  next =>
    rw [if_neg (by omega), Int.toNat_natCast]
    congr 4
    omega
  next => rfl

theorem Taken.fillInput
    {fd : ArchiveFd} {consumed input : Bytes} {start count position : Nat} {compRemaining : Int}
    (htaken : Taken (fd.data.drop start) start count consumed input compRemaining position) :
    fillInput fd input compRemaining position = .ok none ∨
      ∃ input' compRemaining' position', fillInput fd input compRemaining position =
          .ok (some (input', compRemaining', position')) ∧
        Taken (fd.data.drop start) start count consumed input' compRemaining' position' := by
  by_cases hinput : input = []
  · subst hinput
    have hcount := htaken.le_count
    obtain ⟨left, hleft⟩ : ∃ left : Nat, compRemaining = left := by
      rw [htaken.compRemaining_eq]
      exact ⟨count - (consumed.length + ([] : Bytes).length), by omega⟩
    have hremaining := htaken.compRemaining_eq
    subst hleft
    rw [fillInput_empty]
    split
    next hread =>
      obtain ⟨hbuf, hlength⟩ := fd.read_eq hread
      have hposition := htaken.position_eq
      have htake := List.prefix_iff_eq_take.mp htaken.source_begins
      rw [List.append_nil] at htake
      simp only [List.length_nil, Nat.add_zero] at hposition hcount hremaining
      refine .inr ⟨_, _, _, rfl, ?_⟩
      rw [hbuf]
      have hdrop : fd.data.drop position = (fd.data.drop start).drop consumed.length := by
        rw [List.drop_drop, hposition]
      rw [hdrop] at hlength ⊢
      have hread : (((fd.data.drop start).drop consumed.length).take
          (min left bufSize)).length = min left bufSize := List.length_take_of_le hlength
      constructor
      · nth_rewrite 1 [htake]
        rw [← List.take_add]
        exact List.take_prefix _ _
      · rw [hread]
        omega
      · rw [hread]
        have hboundary := htaken.boundary
        simp only [List.length_nil, Nat.add_zero] at hboundary
        by_cases hsmall : left ≤ bufSize
        · left
          omega
        · right
          rw [Nat.min_eq_right (by omega), Nat.add_mod_right]
          exact hboundary.resolve_left (by omega)
      · rw [hread]
        omega
      · rw [hread]
        omega
    next => exact .inl rfl
  · refine .inr ⟨input, compRemaining, position, ?_, htaken⟩
    rw [Minzip.fillInput, if_pos hinput]

/-- What the chunks of a deflated entry are, behind what was passed on before. -/
structure InflatedChunks (format : Format) (seen flushed : Bytes) (chunks : List Bytes)
    (result : Except Stuck Int) : Prop where
  flatten_begins : flushed ++ chunks.flatten <+: format.output seen
  ends : result = .ok (wrap32 (flushed ++ chunks.flatten).length) ∧
      format.complete seen = true ∧ flushed ++ chunks.flatten = format.output seen ∨
    (result = .ok (-1) ∨ result = .error .hang) ∧ (flushed ++ chunks.flatten).length % bufSize = 0
  nonempty : ∀ chunk ∈ chunks, chunk ≠ []

theorem emitted_begins
    {zlib : Zlib} {format : Format} (hcorrect : zlib.Correct format) {consumed emitted : Bytes}
    {stream : zlib.State} (hreaches : zlib.Reaches consumed emitted stream) :
    emitted <+: format.output consumed := by
  cases hreaches with
  | init => exact List.nil_prefix
  | step hreaches hok => exact hcorrect.gives hreaches _ _ (by rw [hok]; decide)

section Inflating

variable {zlib : Zlib} {format : Format} {fd : ArchiveFd} {start count : Nat}

theorem output_begins
    {consumed input : Bytes} {compRemaining : Int} {position : Nat}
    (htaken : Taken (fd.data.drop start) start count consumed input compRemaining position) :
    format.output consumed <+: format.output (readable (fd.data.drop start) count) := by
  obtain ⟨more, hmore⟩ := (List.prefix_append consumed input).trans htaken.readable_begins
  rw [← hmore]
  exact format.output_append _ _

/-- A chunk in front of others. -/
theorem InflatedChunks.cons
    {seen flushed chunk : Bytes} {chunks : List Bytes} {result : Except Stuck Int}
    (hchunks : InflatedChunks format seen (flushed ++ chunk) chunks result) (hne : chunk ≠ []) :
    InflatedChunks format seen flushed (chunk :: chunks) result := by
  have hflatten : flushed ++ (chunk :: chunks).flatten = flushed ++ chunk ++ chunks.flatten := by
    rw [List.flatten_cons, List.append_assoc]
  refine ⟨?_, ?_, ?_⟩
  · rw [hflatten]
    exact hchunks.flatten_begins
  · rw [hflatten]
    exact hchunks.ends
  · intro other hother
    rcases List.mem_cons.mp hother with rfl | hother
    · exact hne
    · exact hchunks.nonempty other hother

/-- The loop gives up with nothing more passed on. -/
theorem InflatedChunks.bail
    {seen flushed : Bytes} {result : Except Stuck Int} (hbegins : flushed <+: format.output seen)
    (hresult : result = .ok (-1) ∨ result = .error .hang) (hmod : flushed.length % bufSize = 0) :
    InflatedChunks format seen flushed [] result := by
  refine ⟨?_, .inr ⟨hresult, ?_⟩, nofun⟩
  · rwa [List.flatten_nil, List.append_nil]
  · rwa [List.flatten_nil, List.append_nil]

/-- What the loop does after a call of `inflate`, with the bytes that stay in the
output buffer. -/
def afterInflate (zlib : Zlib) (fd : ArchiveFd) (fuel : Nat) (reply : ZReply zlib.State)
    (input : Bytes) (totalOut : Nat) (compRemaining : Int) (position : Nat) (out : Bytes) :
    ContentsProg Int :=
  if reply.zerr = .ok then
    inflateLoop zlib fd fuel reply.state (input.drop reply.used) out
      (totalOut + reply.output.length) compRemaining position
  else pure (wrap32 (totalOut + reply.output.length : Nat))

theorem inflateLoop_filled
    {fuel : Nat} {stream : zlib.State} {input out input' : Bytes} {totalOut position position' : Nat}
    {compRemaining compRemaining' : Int} {reply : ZReply zlib.State}
    (hfill : fillInput fd input compRemaining position =
      .ok (some (input', compRemaining', position')))
    (hreply : zlib.inflate stream input' (bufSize - out.length) = reply) :
    inflateLoop zlib fd (fuel + 1) stream input out totalOut compRemaining position =
      if reply.zerr = .error then pure (-1)
      else if (out ++ reply.output).length = bufSize ∨
          reply.zerr = .streamEnd ∧ out ++ reply.output ≠ [] then do
        if ← processFunction (out ++ reply.output) then
          afterInflate zlib fd fuel reply input' totalOut compRemaining' position' []
        else pure (-1)
      else
        afterInflate zlib fd fuel reply input' totalOut compRemaining' position'
          (out ++ reply.output) := by
  subst hreply
  rw [inflateLoop, hfill]
  rfl

theorem inflateLoop_feeds
    (hcorrect : zlib.Correct format) {fuel : Nat} {stream : zlib.State}
    {consumed input out flushed : Bytes} {totalOut position : Nat} {compRemaining : Int}
    (hreaches : zlib.Reaches consumed (flushed ++ out) stream)
    (htaken : Taken (fd.data.drop start) start count consumed input compRemaining position)
    (htotal : totalOut = (flushed ++ out).length) (hmod : flushed.length % bufSize = 0)
    (hout : out.length < bufSize) :
    ∃ chunks result, inflateLoop zlib fd fuel stream input out totalOut compRemaining position =
        feed (-1) chunks result ∧
      InflatedChunks format (readable (fd.data.drop start) count) flushed chunks result := by
  have hflushed : flushed <+: format.output (readable (fd.data.drop start) count) :=
    (List.prefix_append _ _).trans ((emitted_begins hcorrect hreaches).trans (output_begins htaken))
  induction fuel generalizing stream consumed input out flushed totalOut position compRemaining with
  | zero => exact ⟨[], .error .hang, rfl, .bail hflushed (.inr rfl) hmod⟩
  | succ fuel ih =>
      rcases htaken.fillInput with hfill | ⟨input', compRemaining', position', hfill, htaken'⟩
      · rw [inflateLoop, hfill]
        exact ⟨[], .ok (-1), rfl, .bail hflushed (.inl rfl) hmod⟩
      obtain ⟨reply, hreply⟩ : ∃ reply, zlib.inflate stream input' (bufSize - out.length) = reply :=
        ⟨_, rfl⟩
      rw [inflateLoop_filled hfill hreply]
      by_cases herror : reply.zerr = .error
      · rw [if_pos herror]
        exact ⟨[], .ok (-1), rfl, .bail hflushed (.inl rfl) hmod⟩
      rw [if_neg herror]
      have hused := htaken'.use reply.used
      have hroom : reply.output.length ≤ bufSize - out.length :=
        hreply ▸ hcorrect.output_le stream input' (bufSize - out.length)
      have hgives := hcorrect.gives hreaches input' (bufSize - out.length) (hreply ▸ herror)
      rw [hreply, List.append_assoc] at hgives
      have hseen := hgives.trans (output_begins hused)
      have hsum : totalOut + reply.output.length = (flushed ++ (out ++ reply.output)).length := by
        simp only [htotal, List.length_append]
        omega
      have hend : reply.zerr ≠ .ok → reply.zerr = .streamEnd := by
        intro hok
        cases hzerr : reply.zerr with
        | ok => exact absurd hzerr hok
        | error => exact absurd hzerr herror
        | streamEnd => rfl
      have hafter : ∀ {flushed' out' : Bytes}, flushed' ++ out' = flushed ++ (out ++ reply.output) →
          out'.length < bufSize →
          (reply.zerr = .ok → flushed'.length % bufSize = 0) → (reply.zerr ≠ .ok → out' = []) →
          ∃ chunks result, afterInflate zlib fd fuel reply input' totalOut compRemaining' position'
              out' = feed (-1) chunks result ∧
            InflatedChunks format (readable (fd.data.drop start) count) flushed' chunks result := by
        intro flushed' out' hsplit hshort hwhole hlast
        rw [afterInflate, hsum, ← hsplit]
        by_cases hok : reply.zerr = .ok
        · have hstep := @Zlib.Reaches.step zlib _ _ _ input' (bufSize - out.length) hreaches
            (hreply ▸ hok)
          rw [hreply, List.append_assoc, ← hsplit] at hstep
          rw [if_pos hok]
          refine ih hstep hused rfl (hwhole hok) hshort ?_
          exact (List.prefix_append _ _).trans (hsplit ▸ hseen)
        · obtain rfl := hlast hok
          obtain ⟨hcomplete, hall⟩ := hcorrect.ends hreaches input' (bufSize - out.length)
            (hreply ▸ hend hok)
          rw [hreply] at hcomplete hall
          rw [List.append_assoc, ← hsplit, List.append_nil] at hall
          obtain ⟨more, hmore⟩ :=
            (List.prefix_append _ (input'.drop reply.used)).trans hused.readable_begins
          obtain ⟨hwholeSeen, hsame⟩ := format.complete_append _ more hcomplete
          rw [hmore] at hwholeSeen hsame
          rw [if_neg hok, List.append_nil]
          refine ⟨[], .ok (wrap32 flushed'.length), rfl, ?_, .inl ⟨?_, hwholeSeen, ?_⟩, nofun⟩
          · rw [List.flatten_nil, List.append_nil, hall, hsame]
          · rw [List.flatten_nil, List.append_nil]
          · rw [List.flatten_nil, List.append_nil, hall, hsame]
      have hbuf := bufSize_eq
      split
      next hflush =>
        have hne : out ++ reply.output ≠ [] := by
          rcases hflush with hfull | ⟨-, hne⟩
          · intro hnil
            rw [hnil, List.length_nil] at hfull
            omega
          · exact hne
        obtain ⟨chunks, result, hrest, hchunks⟩ := @hafter
          (flushed ++ (out ++ reply.output)) [] (List.append_nil _)
          (by simp only [List.length_nil]; omega) (by
            intro hok
            have hfull := hflush.resolve_right (by rw [hok]; simp)
            rw [List.length_append, hfull, Nat.add_mod_right, hmod]) (fun _ => rfl)
        refine ⟨(out ++ reply.output) :: chunks, result, ?_, hchunks.cons hne⟩
        rw [feed, hrest]
      next hkeep =>
        obtain ⟨hnotFull, hnotLast⟩ := not_or.mp hkeep
        refine @hafter flushed (out ++ reply.output) rfl ?_ (fun _ => hmod) ?_
        · rw [List.length_append] at hnotFull ⊢
          omega
        · intro hnotOk
          by_contra hne
          exact hnotLast ⟨hend hnotOk, hne⟩

end Inflating

/-! ## Extraction to memory -/

/-- Copy data into a buffer. -/
def store (buffer : Bytes) (start : Nat) (data : Bytes) : Except Stuck Bytes :=
  if start + data.length ≤ buffer.length then
    .ok (buffer.take start ++ data ++ buffer.drop (start + data.length))
  else .error .outOfBounds

/-- `CopyProcessArgs`: the buffer, how far `buf` has moved in it, and `bufLen`. -/
structure CopyProcessArgs where
  memory : Bytes
  buf : Nat
  bufLen : Int

def copyProcessFunction (data : Bytes) : StateT CopyProcessArgs (Except Stuck) Bool := do
  let args ← get
  if data.length ≤ args.bufLen then
    let memory ← store args.memory args.buf data
    set (CopyProcessArgs.mk memory (args.buf + data.length) (args.bufLen - data.length))
    pure true
  else pure false

/-- `mzReadZipEntry`, with the buffer that it leaves. -/
def mzReadZipEntry (zlib : Zlib) (fuel : Nat) (fd : ArchiveFd) (entry : ZipEntry)
    (position : Nat) (buf : Bytes) (bufLen : Int) : Except Stuck (Bool × Bytes) := do
  let (ret, args) ← ((mzProcessZipEntryContents zlib fuel fd entry position).run.interpret
    copyProcessFunction).run ⟨buf, 0, bufLen⟩
  pure (ret, args.memory)

/-- `BufferExtractCookie`: the memory, how far `buffer` has moved in it, and `len`. -/
structure BufferExtractCookie where
  memory : Bytes
  buffer : Nat
  len : Int

def bufferProcessFunction (data : Bytes) : StateT BufferExtractCookie (Except Stuck) Bool := do
  let bec ← get
  let memory ← store bec.memory bec.buffer data
  set (BufferExtractCookie.mk memory (bec.buffer + data.length) (wrap32 (bec.len - data.length)))
  pure true

/-- `mzExtractZipEntryToBuffer`, with the buffer that it leaves. -/
def mzExtractZipEntryToBuffer (zlib : Zlib) (fuel : Nat) (fd : ArchiveFd) (entry : ZipEntry)
    (position : Nat) (buffer : Bytes) : Except Stuck (Bool × Bytes) := do
  let (ret, bec) ← ((mzProcessZipEntryContents zlib fuel fd entry position).run.interpret
    bufferProcessFunction).run ⟨buffer, 0, entry.uncompLen⟩
  pure (ret && bec.len = 0, bec.memory)

end OpenRecovery.Minzip
