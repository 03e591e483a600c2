import OpenRecovery.ImgDiff
import Mathlib

/-!
# Which files `ReadImage` cuts into chunks

Reading comes to an end, with chunks that cover the file, if and only if the file is
a sequence of normal bytes and of whole gzip members and does not end with the first
three bytes of the magic number.
-/

namespace OpenRecovery
namespace ImgDiff

variable {zlib : Inflater} {file : ImageFile}

/-! ## Outcomes -/

section Outcomes

variable {α β : Type}

@[simp] theorem pure_eq_done (value : α) : (pure value : Outcome α) = .done value := rfl

@[simp] theorem running_bind (rest : α → Outcome β) :
    ((.running : Outcome α) >>= rest) = .running := rfl

@[simp] theorem stuck_bind (reason : Stuck) (rest : α → Outcome β) :
    ((.stuck reason : Outcome α) >>= rest) = .stuck reason := rfl

@[simp] theorem refused_bind (rest : α → Outcome β) :
    ((.refused : Outcome α) >>= rest) = .refused := rfl

@[simp] theorem done_bind (value : α) (rest : α → Outcome β) :
    ((.done value : Outcome α) >>= rest) = rest value := rfl

/-- A run that is over stays what it is. -/
theorem bind_mono
    {first first' : Outcome α} {rest rest' : α → Outcome β}
    (hfirst : first ≠ .running → first' = first)
    (hrest : ∀ value, rest value ≠ .running → rest' value = rest value)
    (hover : first >>= rest ≠ .running) : first' >>= rest' = first >>= rest := by
  cases first with
  | running => exact absurd rfl hover
  | stuck reason => rw [hfirst (by simp), stuck_bind, stuck_bind]
  | refused => rw [hfirst (by simp), refused_bind, refused_bind]
  | done value =>
      rw [hfirst (by simp), done_bind, done_bind]
      exact hrest value hover

end Outcomes

/-! ## The inflate loop -/

theorem inflateLoop_succ (fuel allocated len : Nat) (stream : zlib.State) :
    inflateLoop zlib (fuel + 1) allocated len stream =
      if allocated < len then .stuck .outOfBounds
      else if (zlib.inflate stream (allocated - len)).ended then
        .done (len + (zlib.inflate stream (allocated - len)).written,
          (zlib.inflate stream (allocated - len)).state)
      else
        inflateLoop zlib fuel
          (if len + (zlib.inflate stream (allocated - len)).written = allocated then
            2 * allocated % 2 ^ 32 else allocated)
          (len + (zlib.inflate stream (allocated - len)).written)
          (zlib.inflate stream (allocated - len)).state := rfl

theorem inflateLoop_mono
    {fuel allocated len : Nat} {stream : zlib.State} (more : Nat)
    (hover : inflateLoop zlib fuel allocated len stream ≠ .running) :
    inflateLoop zlib (fuel + more) allocated len stream =
      inflateLoop zlib fuel allocated len stream := by
  induction fuel generalizing allocated len stream with
  | zero => exact absurd rfl hover
  | succ fuel ih =>
      rw [inflateLoop_succ] at hover
      rw [Nat.succ_add, inflateLoop_succ, inflateLoop_succ]
      split_ifs at hover ⊢
      · rfl
      · rfl
      · exact ih hover
      · exact ih hover

theorem inflateLoop_ne_refused (fuel allocated len : Nat) (stream : zlib.State) :
    inflateLoop zlib fuel allocated len stream ≠ .refused := by
  induction fuel generalizing allocated len stream with
  | zero => simp [inflateLoop]
  | succ fuel ih =>
      rw [inflateLoop_succ]
      split_ifs
      · simp
      · simp
      · exact ih _ _ _
      · exact ih _ _ _

/-- The block can hold two gigabytes at most. -/
theorem inflateLoop_ends
    {input : Bytes} {total used : Nat} (hdecode : zlib.decode input = some (total, used))
    (htotal : total ≤ 2 ^ 31) (exponent made : Nat) (stream : zlib.State)
    (hexponent : exponent ≤ 31) (hmade : made ≤ 2 ^ exponent)
    (hreached : zlib.Reached input made stream) :
    ∃ fuel last, inflateLoop zlib fuel (2 ^ exponent) made stream = .done (total, last) ∧
      zlib.availIn last = input.length - used := by
  induction hleft : 31 - exponent generalizing exponent made stream with
  | zero =>
      obtain rfl : exponent = 31 := by omega
      obtain ⟨hended, hwritten, havail⟩ :=
        zlib.inflate_ends hdecode hreached (2 ^ 31 - made) (by omega)
      refine ⟨1, _, ?_, havail⟩
      rw [inflateLoop_succ, if_neg (by omega), if_pos hended, hwritten]
  | succ left ih =>
      by_cases hfits : total ≤ 2 ^ exponent
      · obtain ⟨hended, hwritten, havail⟩ :=
          zlib.inflate_ends hdecode hreached (2 ^ exponent - made) (by omega)
        refine ⟨1, _, ?_, havail⟩
        rw [inflateLoop_succ, if_neg (by omega), if_pos hended, hwritten]
      · obtain ⟨hended, hwritten, hnext⟩ :=
          zlib.inflate_fills hdecode hreached (2 ^ exponent - made) (by omega)
        have hfull : made + (2 ^ exponent - made) = 2 ^ exponent := by omega
        have hdouble : 2 * 2 ^ exponent % 2 ^ 32 = 2 ^ (exponent + 1) := by
          rw [← Nat.pow_succ', Nat.mod_eq_of_lt]
          exact Nat.pow_lt_pow_right (by omega) (by omega)
        rw [hfull] at hnext
        obtain ⟨fuel, last, hrun, havail⟩ := ih (exponent + 1) (2 ^ exponent) _ (by omega)
          (Nat.pow_le_pow_right (by omega) (by omega)) hnext (by omega)
        refine ⟨fuel + 1, last, ?_, havail⟩
        rw [inflateLoop_succ, if_neg (by omega), if_neg (by rw [hended]; decide), hwritten, hfull,
          if_pos rfl, hdouble]
        exact hrun

/-- The size of the block stays a power of two, until it wraps. -/
theorem enlarged_cases {exponent : Nat} (hexponent : exponent ≤ 31) (written : Nat) :
    ((if written = 2 ^ exponent then 2 * 2 ^ exponent % 2 ^ 32 else 2 ^ exponent) = 0 ∧
        0 < written) ∨
      ∃ larger ≤ 31, (if written = 2 ^ exponent then 2 * 2 ^ exponent % 2 ^ 32
        else 2 ^ exponent) = 2 ^ larger := by
  by_cases hfull : written = 2 ^ exponent
  · rw [if_pos hfull]
    by_cases hlast : exponent = 31
    · subst hlast
      exact .inl ⟨rfl, by omega⟩
    · refine .inr ⟨exponent + 1, by omega, ?_⟩
      rw [← Nat.pow_succ', Nat.mod_eq_of_lt]
      exact Nat.pow_lt_pow_right (by omega) (by omega)
  · rw [if_neg hfull]
    exact .inr ⟨exponent, hexponent, rfl⟩

/-- A loop that has ended has inflated a whole stream. -/
theorem inflateLoop_done
    {input : Bytes} {fuel allocated made len : Nat} {stream last : zlib.State}
    (hallocated : (allocated = 0 ∧ 0 < made) ∨ ∃ exponent ≤ 31, allocated = 2 ^ exponent)
    (hreached : zlib.Reached input made stream)
    (hdone : inflateLoop zlib fuel allocated made stream = .done (len, last)) :
    ∃ used, zlib.decode input = some (len, used) ∧ len ≤ 2 ^ 31 ∧
      zlib.availIn last = input.length - used := by
  induction fuel generalizing allocated made stream with
  | zero => cases hdone
  | succ fuel ih =>
      rw [inflateLoop_succ] at hdone
      by_cases hbound : allocated < made
      · rw [if_pos hbound] at hdone
        cases hdone
      · rw [if_neg hbound] at hdone
        rcases hallocated with ⟨rfl, hpos⟩ | ⟨exponent, hexponent, rfl⟩
        · omega
        · cases hdecode : zlib.decode input with
          | none =>
              obtain ⟨hended, hnext⟩ :=
                zlib.inflate_fails hdecode hreached (2 ^ exponent - made)
              rw [hended, if_neg (by decide)] at hdone
              obtain ⟨used, hsome, -⟩ := ih (enlarged_cases hexponent _) hnext hdone
              rw [hdecode] at hsome
              cases hsome
          | some decoded =>
              obtain ⟨total, used⟩ := decoded
              by_cases hfits : total ≤ made + (2 ^ exponent - made)
              · obtain ⟨hended, hwritten, havail⟩ :=
                  zlib.inflate_ends hdecode hreached (2 ^ exponent - made) hfits
                rw [if_pos hended, hwritten] at hdone
                injection hdone with hpair
                injection hpair with hlen hlast
                subst hlen
                subst hlast
                refine ⟨used, rfl, ?_, havail⟩
                have hpow : 2 ^ exponent ≤ 2 ^ 31 := Nat.pow_le_pow_right (by omega) hexponent
                omega
              · obtain ⟨hended, hwritten, hnext⟩ :=
                  zlib.inflate_fills hdecode hreached (2 ^ exponent - made) (by omega)
                rw [hended, if_neg (by decide), hwritten] at hdone
                obtain ⟨used', hsome, hrest⟩ := ih (enlarged_cases hexponent _) hnext hdone
                rw [hdecode] at hsome
                exact ⟨used', hsome, hrest⟩

/-! ## The scan -/

theorem scan_bounds (file : ImageFile) (pos left len : Nat) :
    len ≤ scan file pos left len ∧ scan file pos left len ≤ len + left := by
  induction left generalizing len with
  | zero => exact ⟨Nat.le_refl len, Nat.le_refl len⟩
  | succ left ih =>
      obtain ⟨hlower, hupper⟩ := ih (len + 1)
      unfold scan
      split_ifs
      · exact ⟨Nat.le_refl len, by omega⟩
      · exact ⟨by omega, by omega⟩

/-- The scan stops at the first magic number. -/
theorem scan_first
    {pos left len i : Nat} (hlower : len ≤ i) (hupper : i < scan file pos left len) :
    ¬ file.MagicAt (pos + i) := by
  induction left generalizing len with
  | zero => exact absurd hupper (by rw [scan]; omega)
  | succ left ih =>
      unfold scan at hupper
      split_ifs at hupper with hmagic
      · omega
      · rcases Nat.eq_or_lt_of_le hlower with rfl | hlater
        · exact hmagic
        · exact ih hlater hupper

theorem scan_none
    {pos left i : Nat} (hlower : pos ≤ i) (hupper : i < pos + scan file pos left 0) :
    ¬ file.MagicAt i := by
  obtain ⟨distance, rfl⟩ := Nat.exists_eq_add_of_le hlower
  exact scan_first (Nat.zero_le distance) (show distance < scan file pos left 0 by omega)

theorem scan_magic
    {pos left len : Nat} (hstop : scan file pos left len < len + left) :
    file.MagicAt (pos + scan file pos left len) := by
  induction left generalizing len with
  | zero => exact absurd hstop (by rw [scan]; omega)
  | succ left ih =>
      unfold scan at hstop ⊢
      split_ifs at hstop ⊢ with hmagic
      · exact hmagic
      · exact ih (by omega)

/-! ## The files that are read -/

/-- The bytes of the image that a chunk covers. -/
def ImageChunk.span (chunk : ImageChunk 32) : Nat :=
  if chunk.type = chunkDeflate then chunk.deflateLen.toNat else chunk.len.toNat

/-- Each chunk starts where the one before it ends, and the last one ends at `size`. -/
def Tiles (size : Nat) : List (ImageChunk 32) → Nat → Prop
  | [], pos => pos = size
  | chunk :: rest, pos =>
      chunk.start.toNat = pos ∧ pos + chunk.span ≤ size ∧ Tiles size rest (pos + chunk.span)

/-- The size in a footer that ends at `next`. -/
def footerSize (file : ImageFile) (next : Nat) : BitVec 32 :=
  BitVec.ofInt 32 (read4 ((file.img.drop (next - 4)).take 4))

/-- From `pos` on the file consists of normal bytes and of gzip members, up to its
end or up to a member whose footer has the wrong size.  Such a footer may lack up to
four bytes. -/
inductive ReadsFrom (zlib : Inflater) (file : ImageFile) : Nat → Prop
  | finished : ReadsFrom zlib file file.size
  | rest (pos : Nat) (hpos : pos < file.size)
      (hnone : ∀ i, pos ≤ i → i < file.size → ¬ file.MagicAt i) : ReadsFrom zlib file pos
  | skip (pos next : Nat) (hpos : pos < next) (hnext : next < file.size)
      (hfirst : ∀ i, pos ≤ i → i < next → ¬ file.MagicAt i) (hmagic : file.MagicAt next)
      (hreads : ReadsFrom zlib file next) : ReadsFrom zlib file pos
  | refused (pos total used : Nat) (hmagic : file.MagicAt pos) (hbody : pos + 10 ≤ file.size)
      (hdecode : zlib.decode (file.bytes.drop (pos + 10)) = some (total, used))
      (htotal : total ≤ 2 ^ 31) (hfooter : pos + 10 + used + 8 ≤ file.size + 4)
      (hsize : footerSize file (pos + 10 + used + 8) ≠ BitVec.ofNat 32 total) :
      ReadsFrom zlib file pos
  | member (pos total used : Nat) (hmagic : file.MagicAt pos) (hbody : pos + 10 ≤ file.size)
      (hdecode : zlib.decode (file.bytes.drop (pos + 10)) = some (total, used))
      (htotal : total ≤ 2 ^ 31) (hfooter : pos + 10 + used + 8 ≤ file.size)
      (hsize : footerSize file (pos + 10 + used + 8) = BitVec.ofNat 32 total)
      (hreads : ReadsFrom zlib file (pos + 10 + used + 8)) : ReadsFrom zlib file pos

/-- The three chunks of a member. -/
def memberChunks (pos total used numChunks : Nat) : List (ImageChunk 32) :=
  [normalChunk pos 10, deflateChunk (numChunks + 2) (pos + 10) used total,
    normalChunk (pos + 10 + used) 8]

/-- What reading a member comes to if its stream is whole. -/
theorem readMember_eq
    {fuel pos total used : Nat} {stream : zlib.State} (numChunks : Nat)
    (hbody : pos + 10 ≤ file.size)
    (hdecode : zlib.decode (file.bytes.drop (pos + 10)) = some (total, used))
    (hrun : inflateLoop zlib fuel 32768 0 (zlib.init (file.bytes.drop (pos + 10))) =
      .done (total, stream))
    (havail : zlib.availIn stream = (file.bytes.drop (pos + 10)).length - used) :
    readMember zlib file fuel pos numChunks =
      if file.size + 4 < pos + 10 + used + 8 then .stuck .outOfBounds
      else if footerSize file (pos + 10 + used + 8) ≠ BitVec.ofNat 32 total then .refused
      else .done (memberChunks pos total used numChunks, pos + 10 + used + 8) := by
  have hused : used ≤ file.size - (pos + 10) := by
    have hle := zlib.decode_le hdecode
    rwa [List.length_drop] at hle
  have hdeflateLen : file.size - zlib.availIn stream - (pos + 10) = used := by
    rw [havail, List.length_drop]
    change file.size - (file.size - (pos + 10) - used) - (pos + 10) = used
    omega
  have hlength : ((file.img.drop (pos + 10 + used + 8 - 4)).take 4).length < 4 ↔
      file.size + 4 < pos + 10 + used + 8 := by
    have himg : file.img.length = file.size + 4 := by
      rw [ImageFile.img, List.length_append, List.length_replicate]
      rfl
    rw [List.length_take, List.length_drop, himg]
    omega
  unfold readMember gzipHeaderLen
  dsimp only
  rw [if_neg (by omega), hrun, done_bind]
  dsimp only
  rw [hdeflateLen]
  unfold gzipFooterLen
  simp only [hlength]
  rfl

/-- A member that has been read, or whose footer has been refused. -/
theorem readMember_returns
    {fuel pos numChunks : Nat} (hrunning : readMember zlib file fuel pos numChunks ≠ .running)
    (hstuck : ∀ reason, readMember zlib file fuel pos numChunks ≠ .stuck reason) :
    pos + 10 ≤ file.size ∧ ∃ total used,
      zlib.decode (file.bytes.drop (pos + 10)) = some (total, used) ∧ total ≤ 2 ^ 31 ∧
        pos + 10 + used + 8 ≤ file.size + 4 ∧
        readMember zlib file fuel pos numChunks =
          if footerSize file (pos + 10 + used + 8) ≠ BitVec.ofNat 32 total then .refused
          else .done (memberChunks pos total used numChunks, pos + 10 + used + 8) := by
  by_cases hbody : pos + 10 ≤ file.size
  · refine ⟨hbody, ?_⟩
    cases hrun : inflateLoop zlib fuel 32768 0 (zlib.init (file.bytes.drop (pos + 10))) with
    | running =>
        refine absurd ?_ hrunning
        unfold readMember gzipHeaderLen
        dsimp only
        rw [if_neg (by omega), hrun, running_bind]
    | stuck reason =>
        refine absurd ?_ (hstuck reason)
        unfold readMember gzipHeaderLen
        dsimp only
        rw [if_neg (by omega), hrun, stuck_bind]
    | refused => exact absurd hrun (inflateLoop_ne_refused _ _ _ _)
    | done pair =>
        obtain ⟨total, stream⟩ := pair
        obtain ⟨used, hdecode, htotal, havail⟩ :=
          inflateLoop_done (.inr ⟨15, by omega, rfl⟩) (zlib.init_reached _) hrun
        have heq := readMember_eq numChunks hbody hdecode hrun havail
        by_cases hfooter : file.size + 4 < pos + 10 + used + 8
        · rw [if_pos hfooter] at heq
          exact absurd heq (hstuck _)
        · rw [if_neg hfooter] at heq
          exact ⟨total, used, hdecode, htotal, by omega, heq⟩
  · refine absurd ?_ (hstuck .outOfBounds)
    unfold readMember gzipHeaderLen
    dsimp only
    rw [if_pos (by omega)]

theorem readMember_mono
    {fuel pos numChunks : Nat} (more : Nat)
    (hover : readMember zlib file fuel pos numChunks ≠ .running) :
    readMember zlib file (fuel + more) pos numChunks = readMember zlib file fuel pos numChunks := by
  unfold readMember at hover ⊢
  dsimp only at hover ⊢
  split_ifs at hover ⊢
  · rfl
  · exact bind_mono (inflateLoop_mono more) (fun _ _ => rfl) hover

theorem readLoop_succ (fuel pos : Nat) (chunks : List (ImageChunk 32)) :
    readLoop zlib file (fuel + 1) pos chunks =
      if pos < file.size then
        if 4 ≤ file.size - pos ∧ file.MagicAt pos then
          readMember zlib file fuel pos chunks.length >>= fun read =>
            readLoop zlib file fuel read.2 (chunks ++ read.1)
        else
          readLoop zlib file fuel (pos + scan file pos (file.size - pos) 0)
            (chunks ++ [normalChunk pos (scan file pos (file.size - pos) 0)])
      else .done chunks := rfl

theorem readLoop_mono
    {fuel pos : Nat} {chunks : List (ImageChunk 32)} (more : Nat)
    (hover : readLoop zlib file fuel pos chunks ≠ .running) :
    readLoop zlib file (fuel + more) pos chunks = readLoop zlib file fuel pos chunks := by
  induction fuel generalizing pos chunks with
  | zero => exact absurd rfl hover
  | succ fuel ih =>
      rw [readLoop_succ] at hover
      rw [Nat.succ_add, readLoop_succ, readLoop_succ]
      split_ifs at hover ⊢
      · exact bind_mono (readMember_mono more) (fun _ hrest => ih hrest) hover
      · exact ih hover
      · rfl

/-- The loop only appends. -/
theorem readLoop_appends
    {fuel pos : Nat} {chunks result : List (ImageChunk 32)}
    (hdone : readLoop zlib file fuel pos chunks = .done result) :
    ∃ more, result = chunks ++ more := by
  induction fuel generalizing pos chunks with
  | zero => cases hdone
  | succ fuel ih =>
      rw [readLoop_succ] at hdone
      split_ifs at hdone
      · cases hmember : readMember zlib file fuel pos chunks.length with
        | running =>
            rw [hmember] at hdone
            cases hdone
        | stuck reason =>
            rw [hmember] at hdone
            cases hdone
        | refused =>
            rw [hmember] at hdone
            cases hdone
        | done read =>
            rw [hmember] at hdone
            obtain ⟨more, rfl⟩ := ih hdone
            exact ⟨read.1 ++ more, by rw [List.append_assoc]⟩
      · obtain ⟨more, rfl⟩ := ih hdone
        exact ⟨_, by rw [List.append_assoc]⟩
      · injection hdone with hsame
        exact ⟨[], by rw [hsame, List.append_nil]⟩

/-! ## Reading to the end -/

/-- The loop comes to an end, and the chunks that it adds cover the rest of the
file. -/
def EndsFrom (zlib : Inflater) (file : ImageFile) (pos : Nat) (chunks : List (ImageChunk 32)) :
    Prop :=
  ∃ fuel, readLoop zlib file fuel pos chunks = .refused ∨
    ∃ more, readLoop zlib file fuel pos chunks = .done (chunks ++ more) ∧
      Tiles file.size more pos

theorem size_lt (file : ImageFile) : file.size + 4 < 2 ^ 32 :=
  file.fits

theorem tiles_normalChunk
    {size pos len : Nat} {rest : List (ImageChunk 32)} (hsize : size + 4 < 2 ^ 32)
    (hpos : pos ≤ size) (hlen : len < 2 ^ 32) :
    Tiles size (normalChunk pos len :: rest) pos ↔ pos + len ≤ size ∧
      Tiles size rest (pos + len) := by
  have hspan : (normalChunk pos len).span = len := by
    change (BitVec.ofNat 32 len).toNat = len
    rw [BitVec.toNat_ofNat, Nat.mod_eq_of_lt hlen]
  have hstart : (normalChunk pos len).start.toNat = pos := by
    change (BitVec.ofNat 32 pos).toNat = pos
    rw [BitVec.toNat_ofNat, Nat.mod_eq_of_lt (by omega)]
  rw [Tiles, hspan, hstart]
  simp

theorem tiles_memberChunks
    {size pos total used numChunks : Nat} {rest : List (ImageChunk 32)}
    (hsize : size + 4 < 2 ^ 32) (hused : pos + 10 + used ≤ size) :
    Tiles size (memberChunks pos total used numChunks ++ rest) pos ↔
      pos + 10 + used + 8 ≤ size ∧ Tiles size rest (pos + 10 + used + 8) := by
  have hspan : (deflateChunk (numChunks + 2) (pos + 10) used total).span = used := by
    change (BitVec.ofNat 32 used).toNat = used
    rw [BitVec.toNat_ofNat, Nat.mod_eq_of_lt (by omega)]
  have hstart : (deflateChunk (numChunks + 2) (pos + 10) used total).start.toNat = pos + 10 := by
    change (BitVec.ofNat 32 (pos + 10)).toNat = pos + 10
    rw [BitVec.toNat_ofNat, Nat.mod_eq_of_lt (by omega)]
  rw [memberChunks, List.cons_append, tiles_normalChunk hsize (by omega) (by omega),
    List.cons_append, Tiles, hspan, hstart, List.cons_append, List.nil_append,
    tiles_normalChunk hsize (by omega) (by omega)]
  constructor
  · rintro ⟨-, -, -, hfooter⟩
    exact hfooter
  · rintro ⟨hfooter, hrest⟩
    exact ⟨by omega, rfl, by omega, hfooter, hrest⟩

theorem used_le
    {pos total used : Nat} (hbody : pos + 10 ≤ file.size)
    (hdecode : zlib.decode (file.bytes.drop (pos + 10)) = some (total, used)) :
    pos + 10 + used ≤ file.size := by
  have hle := zlib.decode_le hdecode
  rw [List.length_drop] at hle
  change used ≤ file.size - (pos + 10) at hle
  omega

theorem ReadsFrom.le {pos : Nat} (hreads : ReadsFrom zlib file pos) : pos ≤ file.size := by
  cases hreads with
  | finished => exact Nat.le_refl _
  | rest _ hpos => exact hpos.le
  | skip _ next hpos hnext => omega
  | refused _ total used hmagic hbody => omega
  | member _ total used hmagic hbody => omega

/-- A loop step over normal bytes. -/
theorem EndsFrom.normal
    {pos : Nat} {chunks : List (ImageChunk 32)} (hpos : pos < file.size)
    (hmember : ¬ (4 ≤ file.size - pos ∧ file.MagicAt pos))
    (hnext : EndsFrom zlib file (pos + scan file pos (file.size - pos) 0)
      (chunks ++ [normalChunk pos (scan file pos (file.size - pos) 0)])) :
    EndsFrom zlib file pos chunks := by
  have hsize := size_lt file
  obtain ⟨-, hscan⟩ := scan_bounds file pos (file.size - pos) 0
  obtain ⟨fuel, hrefused | ⟨more, hdone, htiles⟩⟩ := hnext
  · refine ⟨fuel + 1, .inl ?_⟩
    rw [readLoop_succ, if_pos hpos, if_neg hmember]
    exact hrefused
  · refine ⟨fuel + 1, .inr ⟨normalChunk pos (scan file pos (file.size - pos) 0) :: more, ?_, ?_⟩⟩
    · rw [readLoop_succ, if_pos hpos, if_neg hmember, hdone, List.append_assoc,
        List.singleton_append]
    · rw [tiles_normalChunk hsize hpos.le (by omega)]
      exact ⟨by omega, htiles⟩

theorem endsFrom_size (chunks : List (ImageChunk 32)) : EndsFrom zlib file file.size chunks := by
  refine ⟨1, .inr ⟨[], ?_, rfl⟩⟩
  rw [readLoop_succ, if_neg (Nat.lt_irrefl _), List.append_nil]

theorem ReadsFrom.ends
    {pos : Nat} (hreads : ReadsFrom zlib file pos) (chunks : List (ImageChunk 32)) :
    EndsFrom zlib file pos chunks := by
  have hsize := size_lt file
  induction hreads generalizing chunks with
  | finished => exact endsFrom_size chunks
  | rest pos hpos hnone =>
      have hscan : scan file pos (file.size - pos) 0 = file.size - pos := by
        obtain ⟨-, hbound⟩ := scan_bounds file pos (file.size - pos) 0
        by_contra hshort
        have hmagic : file.MagicAt (pos + scan file pos (file.size - pos) 0) :=
          scan_magic (by omega)
        exact hnone _ (Nat.le_add_right _ _) (by omega) hmagic
      refine EndsFrom.normal hpos (fun hmember => hnone pos (Nat.le_refl pos) hpos hmember.2) ?_
      rw [hscan, show pos + (file.size - pos) = file.size by omega]
      exact endsFrom_size _
  | skip pos next hpos hnext hfirst hmagic hreads ih =>
      have hscan : pos + scan file pos (file.size - pos) 0 = next := by
        obtain ⟨-, hbound⟩ := scan_bounds file pos (file.size - pos) 0
        rcases lt_trichotomy (pos + scan file pos (file.size - pos) 0) next with hlt | heq | hgt
        · have hearly : file.MagicAt (pos + scan file pos (file.size - pos) 0) :=
            scan_magic (by omega)
          exact absurd hearly (hfirst _ (Nat.le_add_right _ _) hlt)
        · exact heq
        · exact absurd hmagic (scan_none hpos.le hgt)
      refine EndsFrom.normal (by omega) (fun hmember => hfirst pos (Nat.le_refl pos) hpos hmember.2)
        ?_
      rw [hscan]
      exact ih _
  | refused pos total used hmagic hbody hdecode htotal hfooter hdiffers =>
      obtain ⟨fuel, stream, hrun, havail⟩ := inflateLoop_ends hdecode htotal 15 0 _ (by omega)
        (Nat.zero_le _) (zlib.init_reached _)
      refine ⟨fuel + 1, .inl ?_⟩
      rw [readLoop_succ, if_pos (by omega), if_pos ⟨by omega, hmagic⟩,
        readMember_eq _ hbody hdecode hrun havail, if_neg (by omega), if_pos hdiffers, refused_bind]
  | member pos total used hmagic hbody hdecode htotal hfooter hsame hreads ih =>
      obtain ⟨fuel, stream, hrun, havail⟩ := inflateLoop_ends hdecode htotal 15 0 _ (by omega)
        (Nat.zero_le _) (zlib.init_reached _)
      have hmember := readMember_eq chunks.length hbody hdecode hrun havail
      rw [if_neg (by omega), if_neg (not_not.mpr hsame)] at hmember
      obtain ⟨fuel', hrest⟩ := ih (chunks ++ memberChunks pos total used chunks.length)
      have hmember' : readMember zlib file (fuel + fuel') pos chunks.length =
          .done (memberChunks pos total used chunks.length, pos + 10 + used + 8) := by
        rw [readMember_mono fuel' (by simp [hmember]), hmember]
      refine ⟨fuel + fuel' + 1, ?_⟩
      rw [readLoop_succ, if_pos (by omega), if_pos ⟨by omega, hmagic⟩, hmember', done_bind]
      rcases hrest with hrefused | ⟨more, hdone, htiles⟩
      · refine .inl ?_
        rw [Nat.add_comm fuel fuel', readLoop_mono fuel (by simp [hrefused]), hrefused]
      · refine .inr ⟨memberChunks pos total used chunks.length ++ more, ?_, ?_⟩
        · rw [Nat.add_comm fuel fuel', readLoop_mono fuel (by simp [hdone]), hdone,
            List.append_assoc]
        · rw [tiles_memberChunks hsize (by omega)]
          exact ⟨hfooter, htiles⟩

theorem EndsFrom.reads
    {fuel pos : Nat} {chunks : List (ImageChunk 32)}
    (hends : readLoop zlib file fuel pos chunks = .refused ∨
      ∃ more, readLoop zlib file fuel pos chunks = .done (chunks ++ more) ∧
        Tiles file.size more pos) :
    ReadsFrom zlib file pos := by
  have hsize := size_lt file
  induction fuel generalizing pos chunks with
  | zero =>
      rcases hends with hrefused | ⟨more, hdone, -⟩
      · cases hrefused
      · cases hdone
  | succ fuel ih =>
      rw [readLoop_succ] at hends
      by_cases hpos : pos < file.size
      · rw [if_pos hpos] at hends
        by_cases hmember : 4 ≤ file.size - pos ∧ file.MagicAt pos
        · rw [if_pos hmember] at hends
          have hrunning : readMember zlib file fuel pos chunks.length ≠ .running := by
            intro hrun
            rw [hrun, running_bind] at hends
            simp at hends
          have hstuck : ∀ reason,
              readMember zlib file fuel pos chunks.length ≠ .stuck reason := by
            intro reason hrun
            rw [hrun, stuck_bind] at hends
            simp at hends
          obtain ⟨hbody, total, used, hdecode, htotal, hfooter, heq⟩ :=
            readMember_returns hrunning hstuck
          by_cases hsame : footerSize file (pos + 10 + used + 8) = BitVec.ofNat 32 total
          · rw [heq, if_neg (not_not.mpr hsame), done_bind] at hends
            have hused := used_le hbody hdecode
            rcases hends with hrefused | ⟨more, hdone, htiles⟩
            · have hnext := ih (.inl hrefused)
              exact .member pos total used hmember.2 hbody hdecode htotal hnext.le hsame hnext
            · obtain ⟨rest, hrest⟩ := readLoop_appends hdone
              rw [hrest] at hdone
              rw [List.append_assoc, List.append_cancel_left_eq] at hrest
              rw [hrest, tiles_memberChunks hsize hused] at htiles
              exact .member pos total used hmember.2 hbody hdecode htotal htiles.1 hsame
                (ih (.inr ⟨rest, hdone, htiles.2⟩))
          · exact .refused pos total used hmember.2 hbody hdecode htotal hfooter hsame
        · rw [if_neg hmember] at hends
          have hnext : ReadsFrom zlib file (pos + scan file pos (file.size - pos) 0) := by
            apply ih
            rcases hends with hrefused | ⟨more, hdone, htiles⟩
            · exact .inl hrefused
            · obtain ⟨rest, hrest⟩ := readLoop_appends hdone
              rw [hrest] at hdone
              rw [List.append_assoc, List.append_cancel_left_eq] at hrest
              rw [hrest, List.singleton_append, tiles_normalChunk hsize hpos.le] at htiles
              · exact .inr ⟨rest, hdone, htiles.2⟩
              · obtain ⟨-, hbound⟩ := scan_bounds file pos (file.size - pos) 0
                omega
          obtain ⟨-, hbound⟩ := scan_bounds file pos (file.size - pos) 0
          have hfirst : ∀ i, pos ≤ i → i < pos + scan file pos (file.size - pos) 0 →
              ¬ file.MagicAt i := fun i hlower hupper => scan_none hlower hupper
          rcases Nat.eq_zero_or_pos (scan file pos (file.size - pos) 0) with hzero | hscan
          · rwa [hzero, Nat.add_zero] at hnext
          · by_cases hall : scan file pos (file.size - pos) 0 = file.size - pos
            · rw [hall] at hfirst
              exact .rest pos hpos fun i hlower hupper => hfirst i hlower (by omega)
            · exact .skip pos _ (by omega) (by omega) hfirst (scan_magic (by omega)) hnext
      · rw [if_neg hpos] at hends
        rcases hends with hrefused | ⟨more, hdone, htiles⟩
        · cases hrefused
        · injection hdone with hsame
          obtain rfl : more = [] := by
            simpa using hsame
          obtain rfl : pos = file.size := htiles
          exact .finished

/-- `ReadImage` returns, and what it returns covers the file, if and only if the file
is well formed. -/
theorem readImage_partitions_iff (zlib : Inflater) (file : ImageFile) :
    (∃ fuel, readImage zlib file fuel = .refused ∨
      ∃ chunks, readImage zlib file fuel = .done chunks ∧ Tiles file.size chunks 0) ↔
        ReadsFrom zlib file 0 := by
  constructor
  · rintro ⟨fuel, hends⟩
    exact EndsFrom.reads hends
  · intro hreads
    exact hreads.ends []

/-! ## Two files that are not read -/

/-- A decoder that knows the deflate stream without any output. -/
def emptyStreamInflater : Inflater where
  State := Bytes
  init input := input
  inflate input _ := ⟨input, 0, input.take 2 = [3, 0]⟩
  availIn input := input.length - 2
  decode input := if input.take 2 = [3, 0] then some (0, 2) else none
  Reached input made state := made = 0 ∧ state = input
  decode_le := by
    intro input total used hdecode
    split_ifs at hdecode with hempty
    simp only [Option.some.injEq, Prod.mk.injEq] at hdecode
    have hlength := congrArg List.length hempty
    simp only [List.length_take, List.length_cons, List.length_nil] at hlength
    omega
  init_reached input := ⟨rfl, rfl⟩
  inflate_ends := by
    rintro input total used made state hdecode ⟨rfl, rfl⟩ avail -
    split_ifs at hdecode with hempty
    simp only [Option.some.injEq, Prod.mk.injEq] at hdecode
    obtain ⟨rfl, rfl⟩ := hdecode
    exact ⟨decide_eq_true hempty, rfl, rfl⟩
  inflate_fills := by
    rintro input total used made state hdecode ⟨rfl, rfl⟩ avail hless
    split_ifs at hdecode
    simp only [Option.some.injEq, Prod.mk.injEq] at hdecode
    omega
  inflate_fails := by
    rintro input made state hdecode ⟨rfl, rfl⟩ avail
    split_ifs at hdecode with hempty
    exact ⟨decide_eq_false hempty, rfl, rfl⟩

/-- A file that ends with the beginning of the magic number. -/
def partialMagic : ImageFile where
  bytes := [0x1f, 0x8b, 0x08]
  fits := by decide

/-- A member of no data that ends in the middle of its footer. -/
def shortFooter : ImageFile where
  bytes := [0x1f, 0x8b, 0x08, 0, 0, 0, 0, 0, 0, 3, 3, 0, 0, 0, 0, 0]
  fits := by decide

theorem partialMagic_running (fuel : Nat) (chunks : List (ImageChunk 32)) :
    readLoop emptyStreamInflater partialMagic fuel 0 chunks = .running := by
  induction fuel generalizing chunks with
  | zero => rfl
  | succ fuel ih => exact ih _

/-- One file is read for ever, and the chunks of the other one reach past its end. -/
theorem readImage_partitions_not_always :
    (∀ fuel, readImage emptyStreamInflater partialMagic fuel = .running) ∧
      ∃ chunks, readImage emptyStreamInflater shortFooter 3 = .done chunks ∧
        (chunks.map fun chunk => (chunk.start.toNat, chunk.span)) = [(0, 10), (10, 2), (12, 8)] ∧
        shortFooter.size = 16 := by
  refine ⟨fun fuel => partialMagic_running fuel [], memberChunks 0 0 2 0, ?_, ?_, rfl⟩
  · with_unfolding_all decide
  · decide

end ImgDiff
end OpenRecovery
