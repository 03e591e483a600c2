import OpenRecovery.Words
import OpenRecovery.HashTable
import Mathlib

/-!
# The index of a package, `parseZipArchive` of `minzip/Zip.c`

The archive is mapped at some address of a 32-bit address space.  The code finds its way
with pointers, whose sums wrap around, and with lengths that the archive announces, so
every read goes through the addresses as the code computes them.  Messages are left out.
-/

namespace OpenRecovery.Minzip

open Words

/-- How `parseZipArchive` can end without an archive: it goes to `bail`, it reads outside
the mapping, or it does not return. -/
inductive ZipExit where
  | bail
  | outOfBounds
  | assertion
  | hash (fault : HashFault)
  deriving DecidableEq

/-- `MemMapping`.  The end of the mapping is an address.  `sysMapFileInShmem` leaves the
choice of the pages to `mmap`, which never takes the one at address zero. -/
structure MemMapping where
  addr : Nat
  data : Bytes
  page_le : 4096 ≤ addr
  stop_lt : addr + data.length < 2 ^ 32

namespace MemMapping

def length (map : MemMapping) : Nat :=
  map.data.length

def stop (map : MemMapping) : Nat :=
  map.addr + map.length

/-- The bytes at an address. -/
def bytesAt (map : MemMapping) (ptr len : Nat) : Bytes :=
  (map.data.drop (ptr - map.addr)).take len

def read (map : MemMapping) (ptr len : Nat) : Except ZipExit Bytes :=
  if map.addr ≤ ptr ∧ ptr + len ≤ map.stop then .ok (map.bytesAt ptr len) else .error .outOfBounds

end MemMapping

/-- The sum of a pointer and a number. -/
def add32 (ptr count : Nat) : Nat :=
  (ptr + count) % 2 ^ 32

variable (map : MemMapping)

def getLE (width ptr : Nat) : Except ZipExit Nat := do
  let bytes ← map.read ptr width
  pure (leNat bytes)

def get1 (ptr : Nat) : Except ZipExit Nat := getLE map 1 ptr

def get2LE (ptr : Nat) : Except ZipExit Nat := getLE map 2 ptr

def get4LE (ptr : Nat) : Except ZipExit Nat := getLE map 4 ptr

/-- Go to `bail` unless the condition holds. -/
def require (condition : Prop) [Decidable condition] : Except ZipExit Unit :=
  if condition then .ok () else .error .bail

/-! ## The layout -/

def censig : Nat := 0x02014b50
def cenhdr : Nat := 46
def cenvem : Nat := 4
def cenhow : Nat := 10
def centim : Nat := 12
def cencrc : Nat := 16
def censiz : Nat := 20
def cenlen : Nat := 24
def cennam : Nat := 28
def cenext : Nat := 30
def cencom : Nat := 32
def cenatx : Nat := 38
def cenoff : Nat := 42

def endsig : Nat := 0x06054b50
def endhdr : Nat := 22
def endsub : Nat := 8
def endoff : Nat := 16

def locsig : Nat := 0x04034b50
def lochdr : Nat := 30
def locnam : Nat := 26
def locext : Nat := 28

def cenvemUnix : Nat := 3 * 2 ^ 8

def pathMax : Nat := 4096

structure ZipEntry where
  fileNameLen : Nat
  fileName : Nat
  offset : Int
  compLen : Int
  uncompLen : Int
  compression : Nat
  modTime : Int
  crc32 : Int
  versionMadeBy : Nat
  externalFileAttributes : Int
  deriving DecidableEq

def sizeofZipEntry : Nat := 40

/-- The name of an entry, which stays in the mapping. -/
def ZipEntry.name (entry : ZipEntry) : Bytes :=
  map.bytesAt entry.fileName entry.fileNameLen

/-! ## The end of the central directory -/

/-- Whether the signature of the end record stands at an address. -/
def isEnd (ptr : Nat) : Except ZipExit Bool := do
  let first ← get1 map ptr
  if first = endsig % 2 ^ 8 then
    let signature ← get4LE map ptr
    pure (signature = endsig)
  else pure false

/-- The backward scan, from a distance to the start of the mapping on. -/
def findEnd : (distance : Nat) → Except ZipExit Nat
  | 0 => do
      if ← isEnd map map.addr then pure map.addr else .error .bail
  | distance + 1 => do
      if ← isEnd map (map.addr + (distance + 1)) then pure (map.addr + (distance + 1))
      else findEnd distance

/-! ## Records of the central directory -/

/-- The loop of `validFilename`. -/
def validFrom : (ptr count : Nat) → Except ZipExit Bool
  | _, 0 => pure true
  | ptr, count + 1 => do
      let character ← get1 map ptr
      if character < 32 ∨ 127 ≤ character then pure false
      else validFrom (add32 ptr 1) count

def validFilename (fileName fileNameLen : Nat) : Except ZipExit Bool :=
  if pathMax ≤ fileNameLen then pure false else validFrom map fileName fileNameLen

/-- What the loop over the records keeps of one. -/
structure CentralHeader where
  localHdrOffset : Nat
  fileNameLen : Nat
  extraLen : Nat
  commentLen : Nat
  fileName : Nat

/-- The first part of the loop over the records, up to the check of the name. -/
def readCentral (ptr : Nat) : Except ZipExit CentralHeader := do
  require (add32 ptr cenhdr ≤ map.stop)
  let signature ← get4LE map ptr
  require (signature = censig)
  let localHdrOffset ← get4LE map (add32 ptr cenoff)
  let fileNameLen ← get2LE map (add32 ptr cennam)
  let extraLen ← get2LE map (add32 ptr cenext)
  let commentLen ← get2LE map (add32 ptr cencom)
  let fileName := add32 ptr cenhdr
  require (add32 fileName fileNameLen ≤ map.stop)
  let valid ← validFilename map fileName fileNameLen
  require (valid = true)
  pure ⟨localHdrOffset, fileNameLen, extraLen, commentLen, fileName⟩

/-- The order of two texts of one length. -/
def strncmp : Bytes → Bytes → Ordering
  | left :: lefts, right :: rights => (compare left right).then (strncmp lefts rights)
  | _, _ => .eq

/-- The comparison of the binary search: a name that another one continues comes first. -/
def compareNames (entry : ZipEntry) (fileName fileNameLen : Nat) : Except ZipExit Ordering := do
  let diffLen := min entry.fileNameLen fileNameLen
  let left ← map.read entry.fileName diffLen
  let right ← map.read fileName diffLen
  pure ((strncmp left right).then (compare entry.fileNameLen fileNameLen))

/-- The binary search for the place of a name, where `stop` is `high + 1`. -/
def searchTarget (entries : List ZipEntry) (fileName fileNameLen : Nat) :
    (fuel low stop : Nat) → Except ZipExit Nat
  | 0, _, stop => pure stop
  | fuel + 1, low, stop =>
      if low < stop then do
        let mid := low + (stop - 1 - low) / 2
        match entries[mid]? with
        | none => .error .outOfBounds
        | some entry =>
            match ← compareNames map entry fileName fileNameLen with
            | .lt => searchTarget entries fileName fileNameLen fuel (mid + 1) stop
            | .gt => searchTarget entries fileName fileNameLen fuel low mid
            | .eq => pure (mid + 1)
      else pure stop

/-- The data of an entry start behind its local header. -/
def readLocal (header : CentralHeader) (compLen : Int) : Except ZipExit Int := do
  require (map.addr + header.localHdrOffset < 2 ^ 32)
  let localHdr := map.addr + header.localHdrOffset
  require (add32 localHdr lochdr ≤ map.stop)
  let signature ← get4LE map localHdr
  require (signature = locsig)
  let nameLen ← get2LE map (add32 localHdr locnam)
  let extraLen ← get2LE map (add32 localHdr locext)
  let offset := wrap32 (header.localHdrOffset + lochdr + nameLen + extraLen)
  require (-2 ^ 31 ≤ offset + compLen ∧ offset + compLen < 2 ^ 31)
  require ((offset + compLen) % 2 ^ 32 ≤ map.length)
  pure offset

/-- The second part of the loop over the records. -/
def readEntry (ptr : Nat) (header : CentralHeader) : Except ZipExit ZipEntry := do
  let compLen ← get4LE map (add32 ptr censiz)
  let uncompLen ← get4LE map (add32 ptr cenlen)
  let compression ← get2LE map (add32 ptr cenhow)
  let modTime ← get4LE map (add32 ptr centim)
  let crc32 ← get4LE map (add32 ptr cencrc)
  let versionMadeBy ← get2LE map (add32 ptr cenvem)
  require (versionMadeBy / 2 ^ 8 * 2 ^ 8 = 0 ∨ versionMadeBy / 2 ^ 8 * 2 ^ 8 = cenvemUnix)
  let externalFileAttributes ← get4LE map (add32 ptr cenatx)
  let offset ← readLocal map header (wrap32 compLen)
  pure ⟨header.fileNameLen, header.fileName, offset, wrap32 compLen, wrap32 uncompLen, compression,
    wrap32 modTime, wrap32 crc32, versionMadeBy, wrap32 externalFileAttributes⟩

/-- The loop over the records: every entry is put where the search has found its place. -/
def readEntries : (count : Nat) → List ZipEntry → (ptr : Nat) → Except ZipExit (List ZipEntry)
  | 0, entries, _ => pure entries
  | count + 1, entries, ptr => do
      let header ← readCentral map ptr
      let target ← searchTarget map entries header.fileName header.fileNameLen
        (entries.length + 1) 0 entries.length
      if entries.length < target then .error .assertion
      else do
        let entry ← readEntry map ptr header
        readEntries count (entries.insertIdx target entry)
          (add32 ptr (cenhdr + header.fileNameLen + header.extraLen + header.commentLen))

/-! ## The table of names -/

/-- `computeHash`; a `char` has no sign here. -/
def computeHash (name : Bytes) : Nat :=
  name.foldl (fun hash character => (hash * 31 + character.toNat) % 2 ^ 32) 2

/-- Whether `hashcmpZipEntry` gives zero. -/
def hashcmpZipEntry (left right : ZipEntry) : Bool :=
  left.fileNameLen = right.fileNameLen && left.name map = right.name map

/-- Whether `hashcmpZipName` gives zero. -/
def hashcmpZipName (entry : ZipEntry) (name : Bytes) : Bool :=
  entry.fileNameLen = name.length && entry.name map = name

/-- A call on the table; its items are the places of entries. -/
def onTable {α : Type} (result : Except HashFault α) : Except ZipExit α :=
  result.mapError ZipExit.hash

/-- `addEntryToHashTable` for the entry at a place.  The whole name is read for its hash,
and so has been the name of every entry in the table. -/
def addEntryToHashTable (alloc : Nat → Bool) (entries : List ZipEntry) (table : HashTable Nat)
    (place : Nat) : Except ZipExit (HashTable Nat) :=
  match entries[place]? with
  | none => .error .outOfBounds
  | some entry => do
      let name ← map.read entry.fileName entry.fileNameLen
      let (_, table) ← onTable (mzHashTableLookup alloc table (computeHash name)
        (fun other => (entries[other]?).any fun found => hashcmpZipEntry map found entry)
        (some place))
      pure table

/-- The last loop, over the places still to be added. -/
def addEntries (alloc : Nat → Bool) (entries : List ZipEntry) :
    List Nat → HashTable Nat → Except ZipExit (HashTable Nat)
  | [], table => pure table
  | place :: places, table => do
      let table ← addEntryToHashTable map alloc entries table place
      addEntries alloc entries places table

structure ZipArchive where
  numEntries : Nat
  pEntries : List ZipEntry
  pHash : HashTable Nat

/-- The part of `parseZipArchive` after the end record has been read; `alloc` tells which
sizes can be allocated. -/
def indexRecords (alloc : Nat → Bool) (numEntries cdOffset : Nat) : Except ZipExit ZipArchive := do
  require (alloc (numEntries * sizeofZipEntry) = true)
  match ← onTable (mzHashTableCreate alloc (mzHashSize numEntries)) with
  | none => .error .bail
  | some table => do
      let entries ← readEntries map numEntries [] (add32 map.addr cdOffset)
      let table ← addEntries map alloc entries (List.range numEntries) table
      pure ⟨numEntries, entries, table⟩

def parseZipArchive (alloc : Nat → Bool) : Except ZipExit ZipArchive := do
  let val ← get4LE map map.addr
  require (val ≠ endsig)
  require (val = locsig)
  let ptr ← findEnd map (map.length - endhdr)
  let numEntries ← get2LE map (add32 ptr endsub)
  let cdOffset ← get4LE map (add32 ptr endoff)
  require (numEntries ≠ 0 ∧ cdOffset < map.length)
  indexRecords map alloc numEntries cdOffset

/-- `mzFindZipEntry`. -/
def mzFindZipEntry (alloc : Nat → Bool) (archive : ZipArchive) (entryName : Bytes) :
    Except ZipExit (Option ZipEntry) := do
  let (found, _) ← onTable (mzHashTableLookup alloc archive.pHash (computeHash entryName)
    (fun place => (archive.pEntries[place]?).any fun entry => hashcmpZipName map entry entryName)
    none)
  pure (found.bind fun place => archive.pEntries[place]?)

end OpenRecovery.Minzip
