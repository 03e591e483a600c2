import OpenRecovery.BsPatch
import Mathlib

/-!
# `bsdiff.c`: producing a binary patch

Every access to the old data, to the new data, to the index and to the two buffers
is checked.  The arrays are in memory together, so that no position overflows an
`off_t`.
-/

namespace OpenRecovery
namespace BsDiff

open Words

/-- `buffer[index]`. -/
def byteAt (buffer : Bytes) (index : Int) : Except Stuck UInt8 :=
  if 0 ≤ index ∧ index < buffer.length then .ok (buffer.getD index.toNat 0)
  else .error .outOfBounds

/-- The bytes at `buffer + index`. -/
def bytesFrom (buffer : Bytes) (index : Int) : Except Stuck Bytes :=
  if 0 ≤ index ∧ index ≤ buffer.length then .ok (buffer.drop index.toNat)
  else .error .outOfBounds

/-- `I[index]`. -/
def entry (I : List Int) (index : Nat) : Except Stuck Int :=
  match I[index]? with
  | some position => .ok position
  | none => .error .outOfBounds

def matchlen : Bytes → Bytes → Nat
  | a :: old, b :: new => if a = b then matchlen old new + 1 else 0
  | _, _ => 0

/-- `memcmp` finds the first one smaller, on as many bytes as both have. -/
def memcmpLess : Bytes → Bytes → Bool
  | a :: old, b :: new => if a = b then memcmpLess old new else a < b
  | _, _ => false

/-- The length of a match and its position in the old data. -/
def search (I : List Int) (old new : Bytes) (st en : Nat) : Except Stuck (Nat × Int) :=
  if en - st < 2 then do
    let first ← entry I st
    let last ← entry I en
    let x := matchlen (← bytesFrom old first) new
    let y := matchlen (← bytesFrom old last) new
    if y < x then .ok (x, first) else .ok (y, last)
  else
    let x := st + (en - st) / 2
    do
      let middle ← entry I x
      let tail ← bytesFrom old middle
      if memcmpLess tail new then search I old new x en else search I old new st x
termination_by en - st

/-- `offtout`: sign and magnitude in eight bytes. -/
def offtout (x : Int) : Bytes :=
  leBytes 7 x.natAbs ++
    [UInt8.ofNat (x.natAbs / 2 ^ 56) ||| if x < 0 then 0x80 else 0]

/-- The byte at a new position and the old byte at the last offset are the same. -/
def sameAt (old new : Bytes) (lastoffset : Int) (index : Nat) : Except Stuck Bool :=
  if index + lastoffset < old.length then do
    let a ← byteAt old (index + lastoffset)
    let b ← byteAt new index
    .ok (a = b)
  else .ok false

/-- Add the matches of `count` positions to the score. -/
def addScore (old new : Bytes) (lastoffset : Int) : (count scsc : Nat) → (oldscore : Int) →
    Except Stuck Int
  | 0, _, oldscore => .ok oldscore
  | count + 1, scsc, oldscore => do
      let same ← sameAt old new lastoffset scsc
      addScore old new lastoffset count (scsc + 1) (if same then oldscore + 1 else oldscore)

/-- The variables of the inner loop. -/
structure Scan where
  scan : Nat
  scsc : Nat
  len : Nat
  pos : Int
  oldscore : Int

/-- Look for the next match that is worth a new block; `left` positions are left. -/
def scanLoop (I : List Int) (old new : Bytes) (lastoffset : Int) :
    (left : Nat) → Scan → Except Stuck Scan
  | 0, found => .ok found
  | left + 1, found => do
      let tail ← bytesFrom new found.scan
      let (len, pos) ← search I old tail 0 old.length
      let oldscore ←
        addScore old new lastoffset (found.scan + len - found.scsc) found.scsc found.oldscore
      let scsc := max found.scsc (found.scan + len)
      if (len = oldscore ∧ len ≠ 0) ∨ oldscore + 8 < len then
        .ok ⟨found.scan, scsc, len, pos, oldscore⟩
      else
        let same ← sameAt old new lastoffset found.scan
        scanLoop I old new lastoffset left
          ⟨found.scan + 1, scsc, len, pos, if same then oldscore - 1 else oldscore⟩

/-- Extend the last match forward; `left` positions are left before `scan`. -/
def forwardLoop (old new : Bytes) (lastscan lastpos : Int) :
    (left : Nat) → (i s Sf lenf : Int) → Except Stuck Int
  | 0, _, _, _, lenf => .ok lenf
  | left + 1, i, s, Sf, lenf =>
      if lastpos + i < old.length then do
        let a ← byteAt old (lastpos + i)
        let b ← byteAt new (lastscan + i)
        let s := if a = b then s + 1 else s
        let i := i + 1
        if Sf * 2 - lenf < s * 2 - i then forwardLoop old new lastscan lastpos left i s s i
        else forwardLoop old new lastscan lastpos left i s Sf lenf
      else .ok lenf

/-- Extend the new match backward; `left` positions are left from `lastscan` on. -/
def backwardLoop (old new : Bytes) (scan pos : Int) :
    (left : Nat) → (i s Sb lenb : Int) → Except Stuck Int
  | 0, _, _, _, lenb => .ok lenb
  | left + 1, i, s, Sb, lenb =>
      if i ≤ pos then do
        let a ← byteAt old (pos - i)
        let b ← byteAt new (scan - i)
        let s := if a = b then s + 1 else s
        if Sb * 2 - lenb < s * 2 - i then backwardLoop old new scan pos left (i + 1) s s i
        else backwardLoop old new scan pos left (i + 1) s Sb lenb
      else .ok lenb

/-- Extend the new match backward, unless there is none. -/
def backward (old new : Bytes) (scan : Nat) (pos lastscan : Int) : Except Stuck Int :=
  if scan < new.length then backwardLoop old new scan pos (scan - lastscan).toNat 1 0 0 0
  else .ok 0

/-- Find where to cut an overlap that begins at `newpos` and, in the two matches, at
`oldpos` and `pos`. -/
def overlapLoop (old new : Bytes) (newpos oldpos pos : Int) :
    (left : Nat) → (i s Ss lens : Int) → Except Stuck Int
  | 0, _, _, _, lens => .ok lens
  | left + 1, i, s, Ss, lens => do
      let b ← byteAt new (newpos + i)
      let a ← byteAt old (oldpos + i)
      let s := if b = a then s + 1 else s
      let b ← byteAt new (newpos + i)
      let a ← byteAt old (pos + i)
      let s := if b = a then s - 1 else s
      if Ss < s then overlapLoop old new newpos oldpos pos left (i + 1) s s (i + 1)
      else overlapLoop old new newpos oldpos pos left (i + 1) s Ss lens

/-- The lengths `lenf` and `lenb` of the two extensions. -/
def extend (old new : Bytes) (scan : Nat) (pos lastscan lastpos : Int) :
    Except Stuck (Int × Int) := do
  let lenf ← forwardLoop old new lastscan lastpos (scan - lastscan).toNat 0 0 0 0
  let lenb ← backward old new scan pos lastscan
  if scan - lenb < lastscan + lenf then
    let overlap := lastscan + lenf - (scan - lenb)
    let lens ← overlapLoop old new (lastscan + lenf - overlap) (lastpos + lenf - overlap)
      (pos - lenb) overlap.toNat 0 0 0 0
    .ok (lenf + (lens - overlap), lenb - lens)
  else .ok (lenf, lenb)

/-- The differences of `count` bytes. -/
def diffBytes (old new : Bytes) : (count : Nat) → (newpos oldpos : Int) → Except Stuck Bytes
  | 0, _, _ => .ok []
  | count + 1, newpos, oldpos => do
      let b ← byteAt new newpos
      let a ← byteAt old oldpos
      let rest ← diffBytes old new count (newpos + 1) (oldpos + 1)
      .ok ((b - a) :: rest)

def copyBytes (new : Bytes) : (count : Nat) → (newpos : Int) → Except Stuck Bytes
  | 0, _ => .ok []
  | count + 1, newpos => do
      let b ← byteAt new newpos
      let rest ← copyBytes new count (newpos + 1)
      .ok (b :: rest)

/-- The variables of the main loop, the control data and the two buffers. -/
structure State where
  scan : Nat
  len : Nat
  pos : Int
  lastscan : Int
  lastpos : Int
  lastoffset : Int
  ctrl : List (Int × Int × Int)
  db : Bytes
  eb : Bytes

/-- Write the block between the last match and the one that has been found. -/
def emit (old new : Bytes) (found : Scan) (state : State) : Except Stuck State := do
  let (lenf, lenb) ← extend old new found.scan found.pos state.lastscan state.lastpos
  let extra := found.scan - lenb - (state.lastscan + lenf)
  let diff ← diffBytes old new lenf.toNat state.lastscan state.lastpos
  let copied ← copyBytes new extra.toNat (state.lastscan + lenf)
  if new.length + 1 < state.db.length + diff.length ∨
      new.length + 1 < state.eb.length + copied.length then
    .error .outOfBounds
  else
    .ok {
      scan := found.scan
      len := found.len
      pos := found.pos
      lastscan := found.scan - lenb
      lastpos := found.pos - lenb
      lastoffset := found.pos - found.scan
      ctrl := state.ctrl ++ [(lenf, extra, found.pos - lenb - (state.lastpos + lenf))]
      db := state.db ++ diff
      eb := state.eb ++ copied }

def bsdiffLoop (I : List Int) (old new : Bytes) : (fuel : Nat) → State → Except Stuck State
  | 0, _ => .error .hang
  | fuel + 1, state =>
      if state.scan < new.length then do
        let scan := state.scan + state.len
        let found ← scanLoop I old new state.lastoffset (new.length - scan)
          ⟨scan, scan, state.len, state.pos, 0⟩
        if (found.len : Int) ≠ found.oldscore ∨ found.scan = new.length then do
          let state ← emit old new found state
          bsdiffLoop I old new fuel state
        else
          bsdiffLoop I old new fuel
            { state with scan := found.scan, len := found.len, pos := found.pos }
      else .ok state

/-- The control data, the differences and the extra bytes; `pos` is what the
variable holds before anything is assigned to it. -/
def computeDifferences (I : List Int) (old new : Bytes) (pos : Int) : Except Stuck State :=
  bsdiffLoop I old new (new.length + 2) ⟨0, 0, pos, 0, 0, 0, [], [], []⟩

def ctrlBytes (ctrl : List (Int × Int × Int)) : Bytes :=
  ctrl.flatMap fun (x, y, z) => offtout x ++ offtout y ++ offtout z

/-- The patch file, given its three compressed blocks. -/
def patchFile (ctrl db eb : Bytes) (newsize : Int) : Bytes :=
  bsdiffMagic ++ offtout ctrl.length ++ offtout db.length ++ offtout newsize ++ ctrl ++ db ++ eb

/-- `bsdiff` with an index, on files that can be written. -/
def bsdiff (bzip2 : Bytes → Bytes) (I : List Int) (old new : Bytes) (pos : Int) :
    Except Stuck Bytes := do
  let state ← computeDifferences I old new pos
  .ok (patchFile (bzip2 (ctrlBytes state.ctrl)) (bzip2 state.db) (bzip2 state.eb) new.length)

end BsDiff
end OpenRecovery
