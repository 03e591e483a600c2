import OpenRecovery.Words
import Mathlib

/-!
# `bspatch.c`: applying a binary patch in memory

The decoder runs on a machine with 32-bit `size_t`, `ssize_t` and `off_t`.
Every access to the patch, to the old data and to the buffer for the new data
is checked, and a run that leaves one of them, or that does not return, is
`Stuck`.  Decompression is done by libraries that are parameters.
-/

namespace OpenRecovery

open Words

/-- How a call can fail to return: it leaves a buffer or follows a null pointer,
it reads memory that was freed, or it loops for ever. -/
inductive Stuck where
  | outOfBounds
  | freedMemory
  | hang
  deriving DecidableEq

/-- How a bzip2 stream ends: properly, with an error that the decompressor
reports, or in the middle. -/
inductive BzEnd where
  | streamEnd
  | dataError
  | exhausted
  deriving DecidableEq

/-- The parameters given to `deflateInit2`. -/
structure DeflateParams where
  level : Int
  method : Int
  windowBits : Int
  memLevel : Int
  strategy : Int
  deriving DecidableEq

/-- The libraries behind the decoder.  `bunzip2` gives all the bytes that a
stream yields; `inflate` gives the contents of the raw deflate stream at the
beginning of its input and the length of that stream, if there is a complete
one; `deflate` gives nothing if the parameters are refused. -/
structure Library where
  malloc : Nat → Bool
  bunzip2 : Bytes → Bytes × BzEnd
  inflate : Bytes → Option (Bytes × Nat)
  deflate : DeflateParams → Bytes → Option Bytes

theorem ok_bind {α β : Type} (value : α) (rest : α → Except Stuck β) :
    (Except.ok value >>= rest) = rest value := rfl

/-- Read `len` bytes at `offset`. -/
def slice (buffer : Bytes) (offset len : Int) : Except Stuck Bytes :=
  if 0 ≤ offset ∧ 0 ≤ len ∧ offset + len ≤ buffer.length then
    .ok ((buffer.drop offset.toNat).take len.toNat)
  else
    .error .outOfBounds

/-- `offtin`: sign and magnitude in eight bytes, of which a 32-bit `off_t`
keeps the low half. -/
def offtin (buf : Bytes) : Int :=
  let top := (buf.getD 7 0).toNat
  let y := wrap32 (leNat (buf.take 7) + 2 ^ 56 * (top % 128))
  if 128 ≤ top then wrap32 (-y) else y

/-- The old data as the decoder sees it: `size` bytes from `start` on. -/
structure OldData where
  bytes : Bytes
  start : Int
  size : Int

def OldData.ofBytes (bytes : Bytes) : OldData where
  bytes := bytes
  start := 0
  size := wrap32 bytes.length

/-- `old_data[index]`. -/
def OldData.get (old : OldData) (index : Int) : Except Stuck UInt8 :=
  let address := wrap32 (old.start + index)
  if 0 ≤ address ∧ address < old.bytes.length then
    .ok (old.bytes.getD address.toNat 0)
  else
    .error .outOfBounds

/-- A decompression stream: its input, unless that reaches out of the patch,
and the number of bytes delivered so far. -/
structure BzStream where
  input : Option Bytes
  taken : Nat

def bzStream (patch : Bytes) (offset len : Int) : BzStream where
  input := (slice patch offset len).toOption
  taken := 0

/-- `FillBuffer` on a buffer that has room for `room` bytes.  The size becomes
an unsigned number, and the decompressor delivers as much of it as it has. -/
def fillBuffer (lib : Library) (room : Nat) (size : Int) (stream : BzStream) :
    Except Stuck (Option Bytes × BzStream) :=
  let availOut := (size % 2 ^ 32).toNat
  if availOut = 0 then
    .ok (some [], stream)
  else
    match stream.input with
    | none => .error .outOfBounds
    | some input =>
        let got := ((lib.bunzip2 input).1.drop stream.taken).take availOut
        if room < got.length then
          .error .outOfBounds
        else if got.length = availOut then
          .ok (some got, { stream with taken := stream.taken + availOut })
        else
          match (lib.bunzip2 input).2 with
          | .exhausted => .error .hang
          | _ => .ok (none, stream)

/-- Add old data to the diff string. -/
def addOld (old : OldData) : (oldpos : Int) → Bytes → Except Stuck Bytes
  | _, [] => .ok []
  | oldpos, byte :: diff => do
      let added ← if 0 ≤ oldpos ∧ oldpos < old.size then old.get oldpos else .ok 0
      let rest ← addOld old (wrap32 (oldpos + 1)) diff
      .ok ((byte + added) :: rest)

/-- The main loop; `new` is the new data up to `newpos`.  Every round takes 24
bytes from the control stream. -/
def bspatchLoop (lib : Library) (old : OldData) (newSize : Nat) :
    (fuel : Nat) → (cstream dstream estream : BzStream) → (new : Bytes) → (oldpos : Int) →
      Except Stuck (Option Bytes)
  | 0, _, _, _, _, _ => .error .hang
  | fuel + 1, cstream, dstream, estream, new, oldpos =>
      if new.length < newSize then do
        let (buf, cstream) ← fillBuffer lib 24 24 cstream
        match buf with
        | none => .ok none
        | some buf =>
            let ctrl0 := offtin (buf.take 8)
            let ctrl1 := offtin ((buf.drop 8).take 8)
            let ctrl2 := offtin ((buf.drop 16).take 8)
            if newSize < wrap32 (new.length + ctrl0) then
              .ok none
            else
              let (diff, dstream) ← fillBuffer lib (newSize - new.length) ctrl0 dstream
              match diff with
              | none => .ok none
              | some diff =>
                  let added ← addOld old oldpos diff
                  let new := new ++ added
                  let oldpos := wrap32 (oldpos + ctrl0)
                  if newSize < wrap32 (new.length + ctrl1) then
                    .ok none
                  else
                    let (extra, estream) ←
                      fillBuffer lib (newSize - new.length) ctrl1 estream
                    match extra with
                    | none => .ok none
                    | some extra =>
                        bspatchLoop lib old newSize fuel cstream dstream estream
                          (new ++ extra) (wrap32 (oldpos + ctrl2))
      else
        .ok (some new)

/-- Number of bytes that a stream can deliver. -/
def BzStream.total (lib : Library) (stream : BzStream) : Nat :=
  match stream.input with
  | none => 0
  | some input => (lib.bunzip2 input).1.length

def bsdiffMagic : Bytes := "BSDIFF40".toList.map fun c => UInt8.ofNat c.toNat

/-- `ApplyBSDiffPatchMem`: the new data, or nothing if the result is not zero. -/
def applyBSDiffPatchMem (lib : Library) (old : OldData) (patch : Bytes)
    (patchOffset : Int) : Except Stuck (Option Bytes) := do
  let magic ← slice patch patchOffset 8
  if magic ≠ bsdiffMagic then
    .ok none
  else
    let header ← slice patch (wrap32 (patchOffset + 8)) 24
    let ctrlLen := offtin (header.take 8)
    let dataLen := offtin ((header.drop 8).take 8)
    let newSize := offtin ((header.drop 16).take 8)
    if ctrlLen < 0 ∨ dataLen < 0 ∨ newSize < 0 then
      .ok none
    else
      let ctrlStart := wrap32 (patchOffset + 32)
      let dataStart := wrap32 (ctrlStart + ctrlLen)
      let extraStart := wrap32 (dataStart + dataLen)
      let cstream := bzStream patch ctrlStart ctrlLen
      let dstream := bzStream patch dataStart dataLen
      let estream := bzStream patch extraStart (((patch.length : Int) - extraStart) % 2 ^ 32)
      if lib.malloc newSize.toNat then
        bspatchLoop lib old newSize.toNat (cstream.total lib + 1)
          cstream dstream estream [] 0
      else
        .ok none

/-! ## Streams -/

section Streams

variable {lib : Library}

/-- What a stream will still deliver. -/
def BzStream.rest (lib : Library) (stream : BzStream) : Bytes :=
  match stream.input with
  | none => []
  | some input => (lib.bunzip2 input).1.drop stream.taken

def BzStream.advance (stream : BzStream) (count : Nat) : BzStream :=
  { stream with taken := stream.taken + count }

theorem BzStream.rest_advance (stream : BzStream) (count : Nat) :
    (stream.advance count).rest lib = (stream.rest lib).drop count := by
  unfold BzStream.rest BzStream.advance
  cases stream.input with
  | none => simp
  | some input => simp

theorem BzStream.rest_length_le (stream : BzStream) :
    (stream.rest lib).length ≤ stream.total lib := by
  unfold BzStream.rest BzStream.total
  cases stream.input with
  | none => simp
  | some input => simp

/-- The stream does not stop in the middle, so that the decompressor does not
wait for input for ever. -/
def BzStream.Complete (lib : Library) (stream : BzStream) : Prop :=
  ∃ input, stream.input = some input ∧ (lib.bunzip2 input).2 ≠ .exhausted

theorem BzStream.Complete.advance
    {stream : BzStream} (hcomplete : stream.Complete lib) (count : Nat) :
    (stream.advance count).Complete lib := hcomplete

/-- A call of `FillBuffer` that asks for no more than there is room for. -/
theorem fillBuffer_eq
    {room : Nat} {size : Int} {stream : BzStream}
    (hcomplete : stream.Complete lib) (hlow : 0 ≤ size) (hhigh : size < 2 ^ 31)
    (hroom : size ≤ room) :
    fillBuffer lib room size stream =
      if size.toNat ≤ (stream.rest lib).length then
        .ok (some ((stream.rest lib).take size.toNat), stream.advance size.toNat)
      else .ok (none, stream) := by
  obtain ⟨input, hinput, hend⟩ := hcomplete
  have havail : (size % 2 ^ 32).toNat = size.toNat := by
    rw [Int.emod_eq_of_lt hlow (by omega)]
  have hrest : stream.rest lib = (lib.bunzip2 input).1.drop stream.taken := by
    simp only [BzStream.rest, hinput]
  rw [fillBuffer, havail, hrest, hinput]
  by_cases hzero : size.toNat = 0
  · simp [hzero, BzStream.advance]
  · obtain ⟨data, hdata⟩ : ∃ data, data = (lib.bunzip2 input).1.drop stream.taken := ⟨_, rfl⟩
    have hfits : ¬ room < (data.take size.toNat).length := by
      rw [List.length_take]
      omega
    simp only [← hdata, hzero, if_false, hfits]
    by_cases hlong : size.toNat ≤ data.length
    · rw [if_pos (List.length_take_of_le hlong), if_pos hlong, BzStream.advance, hinput]
    · have hshort : ¬ (data.take size.toNat).length = size.toNat := by
        rw [List.length_take]
        omega
      rw [if_neg hshort, if_neg hlong]

end Streams

end OpenRecovery
